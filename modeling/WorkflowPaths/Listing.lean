import WorkflowPaths.Diagram.Basic
import WorkflowPaths.Report

/-!
# Listings

The paths of a workflow as text: a heading with their number, and a line for each path with its
visible stops in order. The report, if there is one, follows below.
-/

namespace WorkflowPaths.Listing

/-- The text of a stop, if it is listed; a branch point is shown with its outcome. -/
def describe (o : Options) : Stop → Option String
  | .start => some o.startLabel
  | .step s =>
    match s.action with
    | .externalSignal _ => if o.showExternalSignals then some (s.label o) else none
    | _ => some (s.label o)
  | .branch b taken => some (b.label o ++ " (" ++ b.outcomeLabel o taken ++ ")")
  | .finish => some o.finishLabel

/-- The number of branch points that the paths record. -/
def branchCount (paths : List Path) : Nat :=
  match paths with
  | [] => 0
  | p :: _ => p.outcomes.size

/-- The heading. -/
def heading (paths : List Path) : String :=
  let n := toString (branchCount paths)
  "Decision Points: " ++ n ++ " (2^" ++ n ++ " = " ++ toString paths.length ++ " paths)"

/-- The line of the path with the given number, counted from one. -/
def line (o : Options) (number : Nat) (p : Path) : String :=
  "Path " ++ toString number ++ ": "
    ++ String.intercalate " → " (p.stops.filterMap (describe o))

/-- The lines above the report. -/
def lines (o : Options) (paths : List Path) : List String :=
  heading paths :: "" :: paths.zipIdx.map fun (p, i) => line o (i + 1) p

/-- The text of a listing, every line ended. -/
def text (o : Options) (paths : List Path) (report : Option Report) : String :=
  String.join ((lines o paths).map (· ++ "\n"))
    ++ match report with
      | some r => "\n" ++ r.text
      | none => ""

end WorkflowPaths.Listing
