import WorkflowPaths.FieldError
import WorkflowPaths.Options.Basic
import WorkflowPaths.Text.Blank

/-!
# Valid options

What options have to satisfy before they are used: the limits allow for at least one path and
for no more than can be counted, no label is blank, and the two outcomes of a branch point have
different labels.

`Options.flaws` lists everything that is wrong; the first flaw is the one that is reported.
-/

namespace WorkflowPaths.Options

/-- The largest `maxDecisionPoints` for which all paths can be counted. -/
def supportedDecisionPoints : Nat := 63

/-- A label among the options. -/
inductive Label where
  /-- The label of the start. -/
  | start
  /-- The label of the end. -/
  | finish
  /-- The label of a branch that is taken. -/
  | whenTrue
  /-- The label of a branch that is not taken. -/
  | whenFalse
deriving DecidableEq, Repr

/-- The option that holds the label. -/
def Label.field : Label → String
  | .start => "start_node_label"
  | .finish => "end_node_label"
  | .whenTrue => "decision_true_label"
  | .whenFalse => "decision_false_label"

/-- The text of a label. -/
def label (o : Options) : Label → String
  | .start => o.startLabel
  | .finish => o.finishLabel
  | .whenTrue => o.trueLabel
  | .whenFalse => o.falseLabel

/-- Something that is wrong with options. -/
inductive Flaw where
  /-- More branch points are allowed than can be counted. -/
  | tooManyDecisionPoints (allowed : Nat)
  /-- No path is allowed. -/
  | noPaths
  /-- A label is blank. -/
  | blankLabel (label : Label)
  /-- Both outcomes have the same label. -/
  | sameLabels (label : String)
deriving DecidableEq, Repr

/-- The flaw as an error in a field. -/
def Flaw.error : Flaw → FieldError
  | .tooManyDecisionPoints allowed => {
      field := "max_decision_points"
      message := toString allowed ++ " exceeds the supported maximum of "
        ++ toString supportedDecisionPoints
      suggestion := "use a value of 63 or less (10 is the default)" }
  | .noPaths => {
      field := "max_paths"
      message := "must be at least 1"
      suggestion := "leave it unset to derive the cap from max_decision_points" }
  | .blankLabel label => {
      field := label.field
      message := "must not be empty"
      suggestion := "use a short non-empty label" }
  | .sameLabels label => {
      field := Label.whenFalse.field
      message := "is identical to decision_true_label ('" ++ label ++ "')"
      suggestion := "use distinct labels such as 'yes' and 'no'" }

/-- Everything that is wrong with the options, in the order of the search. -/
def flaws (o : Options) : List Flaw :=
  (if supportedDecisionPoints < o.maxDecisionPoints.toNat then
    [.tooManyDecisionPoints o.maxDecisionPoints.toNat] else [])
  ++ (if o.maxPaths = some 0 then [.noPaths] else [])
  ++ ([Label.start, .finish, .whenTrue, .whenFalse].filter
      fun l => Text.isBlankText (o.label l)).map .blankLabel
  ++ (if o.trueLabel = o.falseLabel then [.sameLabels o.trueLabel] else [])

/-- Reports the first flaw of the options, if they have one. -/
def check (o : Options) : Except Flaw Unit :=
  match o.flaws with
  | [] => .ok ()
  | flaw :: _ => .error flaw

end WorkflowPaths.Options
