import WorkflowPaths.Diagram.Document
import WorkflowPaths.Diagram.Flowchart
import WorkflowPaths.Diagram.Merge
import WorkflowPaths.Listing

/-!
# Output

Paths as text in the format that the options name. Every format needs paths that can be drawn as
one diagram, also the listing, which does not show it.
-/

namespace WorkflowPaths.Output

/-- The paths in the format of the options, with the report attached. -/
def render (o : Options) (paths : List Path) (report : Option Report) :
    Except DiagramError String := do
  let d ← Diagram.ofPaths o paths
  return match o.format with
    | .mermaid => Flowchart.text d report
    | .paths => Listing.text o paths report
    | .json => (d.document paths report).pretty

end WorkflowPaths.Output
