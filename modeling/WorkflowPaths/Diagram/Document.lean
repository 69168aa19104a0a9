import WorkflowPaths.Diagram.Basic
import WorkflowPaths.Json.Writer
import WorkflowPaths.Listing

/-!
# Diagrams in documents

A diagram as a JSON document, together with the paths it was made from: the outcomes of each path
and the ids of its nodes in order. A step is listed when the diagram has a node with its id.
-/

namespace WorkflowPaths

/-- A label, or `null`. -/
def Link.labelJson (l : Link) : Json :=
  match l.label with
  | some s => .string s
  | none => .null

/-- The node as documents write it. -/
def Node.toJson (n : Node) : Json :=
  .object [("id", .string n.id), ("kind", .string n.kind.tag), ("label", .string n.label)]

/-- The edge as documents write it. -/
def Edge.toJson (e : Edge) : Json :=
  .object [("from", .string e.source), ("to", .string e.target), ("label", e.link.labelJson),
    ("style", .string e.link.style)]

namespace Diagram

/-- The stop has a node in the diagram. -/
def shows (d : Diagram) : Stop → Bool
  | .step s => (d.node? s.id).isSome
  | _ => true

/-- The ids of the nodes along a path. -/
def pathIds (d : Diagram) (p : Path) : List String :=
  (p.stops.filter d.shows).map Stop.id

/-- A path as documents write it. -/
def pathJson (d : Diagram) (p : Path) : Json :=
  .object [
    ("decisions", .object (p.outcomes.entries.map fun (id, taken) => (id, .bool taken))),
    ("nodes", .array ((d.pathIds p).map .string))]

/-- The diagram, its paths and the report as a document. -/
def document (d : Diagram) (paths : List Path) (report : Option Report) : Json :=
  .object ([
    ("total_branch_points", .nat (Listing.branchCount paths)),
    ("total_paths", .nat paths.length),
    ("nodes", .array (d.nodes.map Node.toJson)),
    ("edges", .array (d.edges.map Edge.toJson)),
    ("paths", .array (paths.map d.pathJson))]
    ++ match report with
      | some r => [("warnings", .array (r.warnings.map Warning.toJson))]
      | none => [])

end Diagram

end WorkflowPaths
