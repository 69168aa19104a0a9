import WorkflowPaths.Diagram.Basic
import WorkflowPaths.Report

/-!
# Flowcharts

A diagram in Mermaid syntax: one line for each node, one for each edge, one with the colours of
each external signal, and one comment for each finding of the report.

A label with a character that has a meaning in the syntax stands between quotes, in which a quote
is written as an entity.
-/

namespace WorkflowPaths.Flowchart

/-- The characters that may not stand in a label without quotes. -/
def special : List Char :=
  ['(', ')', '[', ']', '{', '}', '<', '>', '"', '\'', '/', '\\', '|', '#', ';', '&']

/-- A character between quotes. -/
def quotedChar (c : Char) : List Char :=
  if c = '"' then "#quot;".toList else [c]

/-- The characters of a label. -/
def labelChars (cs : List Char) : List Char :=
  if cs.any special.contains then '"' :: cs.flatMap quotedChar ++ ['"'] else cs

/-- A label as it stands in the text. -/
def label (s : String) : String :=
  String.ofList (labelChars s.toList)

/-- The brackets around the label of a node. -/
def brackets : NodeKind → String × String
  | .start => ("((", "))")
  | .finish => ("((", "))")
  | .activity => ("[", "]")
  | .decision => ("\x7b", "\x7d")
  | .signalWait => ("\x7b\x7b", "\x7d\x7d")
  | .childWorkflow => ("[[", "]]")
  | .externalSignal => ("[/", "\\]")

/-- The line that declares a node. -/
def declaration (n : Node) : String :=
  let (opening, closing) := brackets n.kind
  n.id ++ opening ++ label n.label ++ closing

/-- The line that draws an edge. -/
def arrow (e : Edge) : String :=
  match e.link with
  | .plain => e.source ++ " --> " ++ e.target
  | .branch outcome => e.source ++ " -- " ++ label outcome ++ " --> " ++ e.target
  | .signal => e.source ++ " -.signal.-> " ++ e.target

/-- The line that colours a node of an external signal. -/
def colours (n : Node) : String :=
  "style " ++ n.id ++ " fill:#fff4e6,stroke:#ff9800"

/-- The lines of the text. -/
def lines (d : Diagram) (report : Option Report) : List String :=
  "flowchart LR"
    :: d.nodes.map declaration
    ++ d.edges.map arrow
    ++ (d.nodes.filter (·.kind == .externalSignal)).map colours
    ++ (match report with
      | some r => r.warnings.map fun w => "%% warning: " ++ w.text
      | none => [])

/-- The text of a diagram, every line ended. -/
def text (d : Diagram) (report : Option Report) : String :=
  String.join ((lines d report).map (· ++ "\n"))

end WorkflowPaths.Flowchart
