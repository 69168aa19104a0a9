import WorkflowPaths.Diagram.Basic

/-!
# Merging paths

The diagram of some paths is their union: every visible stop is a node, and every two visible
stops that follow each other on a path are joined by an edge. Nodes with the same id and edges
with the same ends and label are drawn once, in the order in which they first occur. Stops of
different kinds may not share an id.

The paths are gone through stop by stop. Stops that are not drawn are passed over; whether an edge
is drawn as a signal is read off the nodes that are already there.
-/

namespace WorkflowPaths

/-- Why there is no diagram of some paths. -/
inductive DiagramError where
  /-- An edge ends at a node that is not there. -/
  | undeclared (id : String)
  /-- Two stops of different kinds have the same id. -/
  | conflict (id : String) (existing incoming : NodeKind)
  /-- The diagram cannot be written as a document. -/
  | unwritable (reason : String)
deriving DecidableEq, Repr

namespace DiagramError

/-- Two things that are named in words have the same id. -/
def conflictText (id existing incoming : String) : String :=
  "Node id '" ++ id ++ "' is shared by a " ++ existing ++ " and a " ++ incoming
    ++ ". Suggestion: rename one of the calls or move it to a different line"

/-- The error in words. -/
def message : DiagramError → String
  | .undeclared id =>
    "Edge references node '" ++ id ++ "' which was never declared. Suggestion: this is a bug in "
      ++ "path generation, please report it with the workflow source"
  | .conflict id existing incoming => conflictText id existing.words incoming.words
  | .unwritable reason => "Failed to serialize graph: " ++ reason

end DiagramError

namespace Diagram

/-- Adds the node of a stop, unless there is one with its id; that one has to be of the same
kind. -/
def insertStop (o : Options) (d : Diagram) (s : Stop) : Except DiagramError Diagram :=
  match d.node? s.id with
  | some existing =>
    if existing.kind = s.kind then .ok d else .error (.conflict s.id existing.kind s.kind)
  | none => .ok { d with
      nodes := d.nodes ++ [s.node o]
      index := d.index ++ [(s.id, d.nodes.length)] }

/-- The node with the given id shows an external signal. -/
def isSignal (d : Diagram) (id : String) : Bool :=
  (d.node? id).any (·.kind == .externalSignal)

/-- How an edge between two nodes is drawn, `outcome` being the label of the outcome if it leaves a
branch point. The outcome is shown also when the edge leads to a signal. -/
def link (d : Diagram) (source target : String) (outcome : Option String) : Link :=
  match outcome with
  | some label => .branch label
  | none => if d.isSignal source || d.isSignal target then .signal else .plain

/-- Adds an edge, unless there is one with the same ends and label. -/
def insertEdge (d : Diagram) (source target : String) (outcome : Option String) : Diagram :=
  let e : Edge := ⟨source, target, d.link source target outcome⟩
  if e.key ∈ d.keys then d
  else { d with
    edges := d.edges ++ [e]
    keys := d.keys ++ [e.key] }

/-- Adds the stops that are drawn in turn, each with the edge from the one drawn before it. Of that
one, `previous` keeps the id and the label of its outcome. -/
def addStops (o : Options) (d : Diagram) (previous : Option (String × Option String)) :
    List Stop → Except DiagramError Diagram
  | [] => .ok d
  | s :: rest =>
    if s.isVisible o then do
      let d ← d.insertStop o s
      let d := match previous with
        | some (source, outcome) => d.insertEdge source s.id outcome
        | none => d
      addStops o d (some (s.id, s.outcome? o)) rest
    else addStops o d previous rest

/-- Adds the stops of each path. -/
def addPaths (o : Options) (d : Diagram) : List Path → Except DiagramError Diagram
  | [] => .ok d
  | p :: rest => do
    let d ← addStops o d none p.stops
    addPaths o d rest

/-- The first end of an edge that is not in the index. -/
def undeclared? (d : Diagram) : Option String :=
  (d.edges.flatMap fun e => [e.source, e.target]).find? fun id => (d.index.lookup id).isNone

/-- The union of the paths; without paths, the start joined to the end. -/
def ofPaths (o : Options) (paths : List Path) : Except DiagramError Diagram := do
  let d ← if paths.isEmpty then addStops o empty none [.start, .finish]
    else addPaths o empty paths
  match d.undeclared? with
  | some id => .error (.undeclared id)
  | none => .ok d

end Diagram

end WorkflowPaths
