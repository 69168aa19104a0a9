import WorkflowPaths.Label
import WorkflowPaths.Path.Basic

/-!
# Diagrams

A diagram has nodes, which show the stops of paths, and edges, which lead from a stop to the next
one. External signals may be hidden; an edge then leads from the stop before them to the stop
behind them.
-/

namespace WorkflowPaths

/-- A node of a diagram. -/
structure Node where
  /-- The id. -/
  id : String
  /-- What the node is. -/
  kind : NodeKind
  /-- The text it shows. -/
  label : String
deriving DecidableEq, Repr

/-- How an edge is drawn. -/
inductive Link where
  /-- Without a label. -/
  | plain
  /-- With the outcome of the branch point that it leaves. -/
  | branch (outcome : String)
  /-- As a signal that is sent. -/
  | signal
deriving DecidableEq, Repr

namespace Link

/-- The label of the edge. -/
def label : Link → Option String
  | .plain => none
  | .branch outcome => some outcome
  | .signal => some "signal"

/-- The style of the edge as documents write it. -/
def style : Link → String
  | .plain => "plain"
  | .branch _ => "branch"
  | .signal => "signal"

end Link

/-- An edge of a diagram. -/
structure Edge where
  /-- The id of the node that it leaves. -/
  source : String
  /-- The id of the node that it enters. -/
  target : String
  /-- How it is drawn. -/
  link : Link
deriving DecidableEq, Repr

/-- What an edge is known by: its ends and its label. -/
def Edge.key (e : Edge) : String × String × Option String :=
  (e.source, e.target, e.link.label)

/-- A diagram. Nodes are looked up by an index, and edges by their keys. -/
structure Diagram where
  /-- The nodes, in the order of their first occurrence. -/
  nodes : List Node
  /-- The places of the nodes by their ids. -/
  index : List (String × Nat)
  /-- The edges, in the order of their first occurrence. -/
  edges : List Edge
  /-- The keys of the edges. -/
  keys : List (String × String × Option String)
deriving DecidableEq, Repr

namespace Diagram

/-- The diagram without nodes. -/
def empty : Diagram := ⟨[], [], [], []⟩

/-- The node that the index has for the id. -/
def node? (d : Diagram) (id : String) : Option Node :=
  (d.index.lookup id).bind (d.nodes[·]?)

end Diagram

/-! ### Stops as nodes and edges -/

namespace Stop

/-- The text that a stop shows. -/
def label (o : Options) : Stop → String
  | .start => o.startLabel
  | .step s => s.label o
  | .branch b _ => b.label o
  | .finish => o.finishLabel

/-- The node that shows a stop. -/
def node (o : Options) (s : Stop) : Node :=
  ⟨s.id, s.kind, s.label o⟩

/-- The stop is drawn: it is no external signal, or these are shown. -/
def isVisible (o : Options) (s : Stop) : Bool :=
  o.showExternalSignals || !s.isExternalSignal

/-- The label of the outcome that a branch point has. -/
def outcome? (o : Options) : Stop → Option String
  | .branch b taken => some (b.outcomeLabel o taken)
  | _ => none

end Stop

end WorkflowPaths
