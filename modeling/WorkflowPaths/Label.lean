import WorkflowPaths.Entry
import WorkflowPaths.Options.Basic
import WorkflowPaths.Text.Words

/-!
# Labels

The texts that stand for steps, branch points and outcomes in the output. Names are shown as
words if the options say so; the name of a signal is always shown as it is.
-/

namespace WorkflowPaths

/-- A name as the options want it shown. -/
def Options.displayName (o : Options) (name : String) : String :=
  if o.splitNames then Text.splitWords name else name

/-- The label of a signal that is sent to another workflow. -/
def Options.signalLabel (o : Options) (name : String) (target : Target) : String :=
  match o.signalLabels with
  | .nameOnly => "Signal '" ++ name ++ "'"
  | .targetPattern => "Signal '" ++ name ++ "' to " ++ target.text

/-- The label of a step. -/
def Step.label (o : Options) (s : Step) : String :=
  match s.action with
  | .activity => o.displayName s.name
  | .childWorkflow => o.displayName s.name
  | .externalSignal target => o.signalLabel s.name target

/-- The label of a branch point. -/
def Branch.label (o : Options) (b : Branch) : String :=
  o.displayName b.name

/-- The label that the branch point itself has for an outcome. -/
def Branch.ownLabel (b : Branch) (taken : Bool) : Option String :=
  match b.test with
  | .decision => none
  | .signalWait _ _ trueLabel falseLabel => if taken then trueLabel else falseLabel

/-- The label of an outcome: the branch point's own one, else the one of the options. -/
def Branch.outcomeLabel (o : Options) (b : Branch) (taken : Bool) : String :=
  (b.ownLabel taken).getD (o.outcomeLabel taken)

end WorkflowPaths
