import WorkflowPaths.Listing
import WorkflowPaths.Proofs.Diagram.Union

/-!
# What is listed of a path

The listing passes over hidden signals by a test of its own, stop by stop. It lists exactly what is
drawn: the line of a path shows its visible stops, in order (`Listing.lines_eq`).
-/

namespace WorkflowPaths

/-- The text that stands for a stop in a listing; a branch point is shown with its outcome. -/
def Stop.listedText (o : Options) : Stop → String
  | .start => o.startLabel
  | .step s => s.label o
  | .branch b taken => b.label o ++ " (" ++ b.outcomeLabel o taken ++ ")"
  | .finish => o.finishLabel

namespace Listing

/-- A stop is listed when it is visible. -/
theorem describe_eq (o : Options) (s : Stop) :
    describe o s = if s.isVisible o then some (s.listedText o) else none := by
  rw [Stop.isVisible, Stop.isExternalSignal_eq]
  cases s with
  | start | branch | finish => simp [describe, Stop.sendsSignal, Stop.listedText]
  | step s =>
    obtain ⟨action, name, id, line, membership⟩ := s
    cases action <;> simp [describe, Stop.sendsSignal, Stop.listedText]

theorem filterMap_describe (o : Options) (p : Path) :
    p.stops.filterMap (describe o) = (p.visible o).map (Stop.listedText o) := by
  rw [Path.visible_eq]
  induction p.stops with
  | nil => rfl
  | cons s r ih =>
    cases hs : s.isVisible o with
    | true =>
      have hsome : describe o s = some (s.listedText o) := by rw [describe_eq, if_pos hs]
      rw [List.filterMap_cons_some hsome, List.filter_cons_of_pos hs, List.map_cons, ih]
    | false =>
      have hnone : describe o s = none := by rw [describe_eq, if_neg (by simp [hs])]
      rw [List.filterMap_cons_none hnone, List.filter_cons_of_neg (by simp [hs]), ih]

/-- The line of a path shows its visible stops. -/
theorem line_eq (o : Options) (number : Nat) (p : Path) :
    line o number p = "Path " ++ toString number ++ ": "
      ++ " → ".intercalate ((p.visible o).map (Stop.listedText o)) := by
  rw [line, filterMap_describe]

/-- Above the report stand the heading, an empty line and a line for each path. -/
theorem lines_eq (o : Options) (paths : List Path) :
    lines o paths = heading paths :: "" :: paths.zipIdx.map fun x =>
      "Path " ++ toString (x.2 + 1) ++ ": "
        ++ " → ".intercalate ((x.1.visible o).map (Stop.listedText o)) := by
  simp only [lines, line_eq]

end Listing

end WorkflowPaths
