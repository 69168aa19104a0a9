import WorkflowPaths.Json.Decoding
import WorkflowPaths.Json.Reader

/-!
# Recordings

A recording lists the calls that a detector found in the source of a workflow. A call refers to
the branch points it is conditional on by their names.
-/

namespace WorkflowPaths

/-- What is called. -/
inductive CallKind where
  /-- An activity. -/
  | activity
  /-- A decision. -/
  | decision
  /-- A wait for a signal. -/
  | signalWait
  /-- Another workflow. -/
  | childWorkflow
  /-- The sending of a signal. -/
  | externalSignal
deriving DecidableEq, Repr

namespace CallKind

/-- The kind with the given name. -/
def ofName? : String → Option CallKind
  | "activity" => some .activity
  | "decision" => some .decision
  | "signal_wait" => some .signalWait
  | "child_workflow" => some .childWorkflow
  | "external_signal" => some .externalSignal
  | _ => none

/-- The call as it is written in the source of a workflow. -/
def callName : CallKind → String
  | .activity => "execute_activity"
  | .decision => "to_decision"
  | .signalWait => "wait_condition"
  | .childWorkflow => "execute_child_workflow"
  | .externalSignal => "signal"

end CallKind

/-- A branch point, referred to by name, has the given outcome. -/
structure Reference where
  /-- The name of the branch point, with or without a line. -/
  branch : String
  /-- The outcome. -/
  outcome : Bool
deriving DecidableEq, Repr

/-- A call that a detector found. -/
structure Call where
  /-- What is called. -/
  kind : CallKind
  /-- The source line. -/
  line : UInt32
  /-- The name of what is called. -/
  name : Option String := none
  /-- The branch points that the call is conditional on. -/
  conditions : List Reference := []
  /-- It is not known what the call is conditional on. -/
  membershipUnknown : Bool := false
  /-- What a wait waits for. -/
  condition : Option String := none
  /-- How long a wait waits. -/
  timeout : Option String := none
  /-- The receiver of a signal. -/
  target : Option String := none
  /-- The label of a wait that ends with the signal. -/
  trueLabel : Option String := none
  /-- The label of a wait that times out. -/
  falseLabel : Option String := none
deriving DecidableEq, Repr

/-- The calls that a detector found in a workflow. -/
structure Recording where
  /-- The name of the workflow. -/
  workflow : String
  /-- The calls, in any order. -/
  calls : List Call
deriving DecidableEq, Repr

/-- The reference that a document writes. -/
def Reference.ofJson? (v : Json) : Option Reference := do
  let fields ← v.fields? ["branch", "value"]
  return {
    branch := ← fields.required "branch" Json.string?
    outcome := ← fields.required "value" Json.bool? }

/-- The call that a document writes. -/
def Call.ofJson? (v : Json) : Option Call := do
  let fields ← v.fields? ["kind", "line", "name", "when", "membership_unknown", "condition",
    "timeout", "target", "true_label", "false_label"]
  return {
    kind := ← fields.required "kind" (Json.named? CallKind.ofName?)
    line := ← fields.required "line" Json.uint32?
    name := ← fields.optional "name" Json.string?
    conditions := ← fields.withDefault "when" [] (Json.list? Reference.ofJson?)
    membershipUnknown := ← fields.withDefault "membership_unknown" false Json.bool?
    condition := ← fields.optional "condition" Json.string?
    timeout := ← fields.optional "timeout" Json.string?
    target := ← fields.optional "target" Json.string?
    trueLabel := ← fields.optional "true_label" Json.string?
    falseLabel := ← fields.optional "false_label" Json.string? }

namespace Recording

/-- The recording that a document writes. -/
def ofJson? (v : Json) : Option Recording := do
  let fields ← v.fields? ["workflow", "calls"]
  return {
    workflow := ← fields.required "workflow" Json.string?
    calls := ← fields.required "calls" (Json.list? Call.ofJson?) }

/-- The recording that a text holds. -/
def ofText? (s : String) : Option Recording :=
  (Json.read? s).bind ofJson?

end Recording

end WorkflowPaths
