import WorkflowPaths.Options.Basic

/-!
# Changes of options

Options are put together by changes to the default ones, one after the other; a later change
goes over an earlier one.
-/

namespace WorkflowPaths.Options

/-- A change of options. -/
inductive Change where
  /-- Another limit for branch points. -/
  | maxDecisionPoints (limit : UInt64)
  /-- A limit for paths. -/
  | maxPaths (limit : UInt64)
  /-- Other labels of the start and the end. -/
  | nodeLabels (start finish : String)
  /-- Other labels of the two outcomes. -/
  | outcomeLabels (whenTrue whenFalse : String)
  /-- Show names as words, or as they are. -/
  | splitNames (split : Bool)
  /-- Leave the report out in any case, or not. -/
  | suppressValidation (suppress : Bool)
  /-- Add the report to the output, or not. -/
  | includeReport (included : Bool)
  /-- Show external signals, or not. -/
  | showExternalSignals (shown : Bool)
  /-- Another form of the labels of external signals. -/
  | signalLabels (labels : SignalLabels)
  /-- Another form of the output. -/
  | format (format : Format)
deriving DecidableEq, Repr

/-- The options after a change. -/
def change (o : Options) : Change → Options
  | .maxDecisionPoints limit => { o with maxDecisionPoints := limit }
  | .maxPaths limit => { o with maxPaths := some limit }
  | .nodeLabels start finish => { o with startLabel := start, finishLabel := finish }
  | .outcomeLabels whenTrue whenFalse =>
    { o with trueLabel := whenTrue, falseLabel := whenFalse }
  | .splitNames split => { o with splitNames := split }
  | .suppressValidation suppress => { o with suppressValidation := suppress }
  | .includeReport included => { o with includeReport := included }
  | .showExternalSignals shown => { o with showExternalSignals := shown }
  | .signalLabels labels => { o with signalLabels := labels }
  | .format format => { o with format := format }

/-- The options after several changes. -/
def changeAll (o : Options) (changes : List Change) : Options :=
  changes.foldl change o

end WorkflowPaths.Options
