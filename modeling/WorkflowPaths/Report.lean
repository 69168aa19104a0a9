import WorkflowPaths.Json.Basic
import WorkflowPaths.Workflow.Closure

/-!
# Reports

Findings about a workflow that do not keep it from being drawn. They are in source order;
a finding about the workflow as a whole comes last.
-/

namespace WorkflowPaths

/-- A finding about a workflow. -/
inductive Warning where
  /-- It is not known when the entry takes part. -/
  | unknownMembership (id : String) (line : UInt32)
  /-- No run can meet the entry's conditions. -/
  | unreachable (id name : String) (line : UInt32)
  /-- The receiver of the signal is only known when the program runs. -/
  | dynamicTarget (signal : String) (line : UInt32)
  /-- The workflow runs no activity. -/
  | noActivities (workflow : String)
deriving DecidableEq, Repr

namespace Warning

/-- The line that the finding is sorted under. -/
def line : Warning → UInt32
  | .unknownMembership _ line => line
  | .unreachable _ _ line => line
  | .dynamicTarget _ line => line
  | .noActivities _ => 0xFFFFFFFF

/-- The finding in words. -/
def text : Warning → String
  | .unknownMembership id line =>
    "line " ++ toString line.toNat ++ ": branch of '" ++ id
      ++ "' could not be determined, shown on every path"
  | .unreachable id name line =>
    "line " ++ toString line.toNat ++ ": '" ++ name ++ "' (" ++ id
      ++ ") is never reachable, its branch conditions contradict each other"
  | .dynamicTarget signal line =>
    "line " ++ toString line.toNat ++ ": target of signal '" ++ signal
      ++ "' is only known at runtime"
  | .noActivities workflow => "workflow '" ++ workflow ++ "' has no activities"

/-- The finding as documents write it. -/
def toJson : Warning → Json
  | .unknownMembership id line =>
    .object [("kind", .string "unknown_membership"), ("node_id", .string id),
      ("line", .nat line.toNat)]
  | .unreachable id name line =>
    .object [("kind", .string "unreachable_step"), ("node_id", .string id),
      ("name", .string name), ("line", .nat line.toNat)]
  | .dynamicTarget signal line =>
    .object [("kind", .string "dynamic_signal_target"), ("signal_name", .string signal),
      ("line", .nat line.toNat)]
  | .noActivities workflow =>
    .object [("kind", .string "no_activities"), ("workflow", .string workflow)]

end Warning

/-- The findings about a workflow. -/
structure Report where
  /-- The findings, in order. -/
  warnings : List Warning
deriving DecidableEq, Repr

namespace Report

/-- The finding about an entry's membership. -/
def membershipWarning (w : Workflow) (e : Entry) : Option Warning :=
  match e.membership with
  | .unknown => some (.unknownMembership e.id e.line)
  | .known _ =>
    if (w.effective e.membership).contradictory then some (.unreachable e.id e.name e.line)
    else none

/-- The finding about the receiver of a signal. -/
def targetWarning (s : Step) : Option Warning :=
  match s.action with
  | .externalSignal .dynamic => some (.dynamicTarget s.name s.line)
  | _ => none

/-- All findings about a workflow, before they are put in order. -/
def findings (w : Workflow) : List Warning :=
  (w.branches.map Entry.branch ++ w.steps.map Entry.step).filterMap (membershipWarning w)
    ++ w.steps.filterMap targetWarning
    ++ (if w.steps.any (·.kind == .activity) then [] else [.noActivities w.name])

/-- The report on a workflow. -/
def ofWorkflow (w : Workflow) : Report :=
  ⟨SourceOrder.sort Warning.line (findings w)⟩

/-- The report in words, one line for each finding below a heading. -/
def text (r : Report) : String :=
  if r.warnings.isEmpty then "Validation: no issues found\n"
  else
    "Validation: " ++ toString r.warnings.length ++ " warning(s)\n"
      ++ String.join (r.warnings.map fun w => "  - " ++ w.text ++ "\n")

end Report

end WorkflowPaths
