import WorkflowPaths.Workflow.Basic

/-!
# Options

How many paths may be enumerated, what the output shows, and in which format.
-/

namespace WorkflowPaths

/-- What the label of an external signal shows. -/
inductive SignalLabels where
  /-- The name of the signal. -/
  | nameOnly
  /-- The name and the receiver of the signal. -/
  | targetPattern
deriving DecidableEq, Repr

namespace SignalLabels

/-- The setting as documents and the command line write it. -/
def name : SignalLabels → String
  | .nameOnly => "name-only"
  | .targetPattern => "target-pattern"

/-- The setting with the given name. -/
def ofName? : String → Option SignalLabels
  | "name-only" => some .nameOnly
  | "target-pattern" => some .targetPattern
  | _ => none

end SignalLabels

/-- The form of the output. -/
inductive Format where
  /-- A flowchart in Mermaid syntax. -/
  | mermaid
  /-- A list of the paths. -/
  | paths
  /-- A JSON document. -/
  | json
deriving DecidableEq, Repr

namespace Format

/-- The format as documents and the command line write it. -/
def name : Format → String
  | .mermaid => "mermaid"
  | .paths => "paths"
  | .json => "json"

/-- The format with the given name. -/
def ofName? : String → Option Format
  | "mermaid" => some .mermaid
  | "paths" => some .paths
  | "json" => some .json
  | _ => none

end Format

/-- The options of an analysis. -/
structure Options where
  /-- The most branch points that a workflow may have. -/
  maxDecisionPoints : UInt64 := 10
  /-- The most paths that may be enumerated; by default as many as `maxDecisionPoints` give. -/
  maxPaths : Option UInt64 := none
  /-- The label of the start. -/
  startLabel : String := "Start"
  /-- The label of the end. -/
  finishLabel : String := "End"
  /-- Show names as words. -/
  splitNames : Bool := true
  /-- The label of a branch that is taken. -/
  trueLabel : String := "yes"
  /-- The label of a branch that is not taken. -/
  falseLabel : String := "no"
  /-- Leave the report out, also when it is asked for. -/
  suppressValidation : Bool := false
  /-- Add the report to the output. -/
  includeReport : Bool := false
  /-- Show the signals that are sent to other workflows. -/
  showExternalSignals : Bool := true
  /-- What the labels of these signals show. -/
  signalLabels : SignalLabels := .nameOnly
  /-- The form of the output. -/
  format : Format := .mermaid
deriving DecidableEq, Repr

namespace Options

/-- The most paths that may be enumerated. -/
def pathLimit (o : Options) : Nat :=
  match o.maxPaths with
  | some limit => limit.toNat
  | none => (runCount o.maxDecisionPoints.toNat).toNat

/-- The report is part of the output. -/
def reportEnabled (o : Options) : Bool :=
  o.includeReport && !o.suppressValidation

/-- The label of an outcome. -/
def outcomeLabel (o : Options) (taken : Bool) : String :=
  if taken then o.trueLabel else o.falseLabel

end Options

end WorkflowPaths
