import WorkflowPaths.Membership
import WorkflowPaths.NodeId
import WorkflowPaths.Target

/-!
# Steps

A step of a workflow runs an activity, calls another workflow, or sends a signal to another
workflow. In documents a step is a tagged record inside a list inside the workflow; the key of
its name depends on what it does.
-/

namespace WorkflowPaths

/-- What a step does. -/
inductive Action where
  /-- Runs an activity. -/
  | activity
  /-- Calls another workflow. -/
  | childWorkflow
  /-- Sends a signal to another workflow. -/
  | externalSignal (target : Target)
deriving DecidableEq, Repr

/-- A step of a workflow. -/
structure Step where
  /-- What the step does. -/
  action : Action
  /-- The name of the activity, workflow or signal. -/
  name : String
  /-- The id of the step. -/
  id : String
  /-- The source line of the call. -/
  line : UInt32
  /-- When the step takes part. -/
  membership : Membership
deriving DecidableEq, Repr

namespace Action

/-- The kind of node that shows the action. -/
def kind : Action → NodeKind
  | .activity => .activity
  | .childWorkflow => .childWorkflow
  | .externalSignal _ => .externalSignal

end Action

namespace Step

/-- The kind of node that shows the step. -/
def kind (s : Step) : NodeKind := s.action.kind

/-- The step sends a signal to another workflow. -/
def isExternalSignal (s : Step) : Bool := s.kind = .externalSignal

/-- The step as documents write it. -/
def toJson (s : Step) : Json :=
  let place := [("node_id", .string s.id), ("line", .nat s.line.toNat),
    ("membership", s.membership.toJson)]
  let tag := ("kind", Json.string s.kind.tag)
  match s.action with
  | .activity => .object (tag :: ("name", .string s.name) :: place)
  | .childWorkflow => .object (tag :: ("workflow_name", .string s.name) :: place)
  | .externalSignal target =>
    .object (tag :: ("signal_name", .string s.name) :: ("target", target.toJson) :: place)

/-- The step that a document writes. -/
def ofJson? (v : Json) : Option Step := do
  let (tag, rest) ← v.tagged? "kind" 2
  match tag with
  | "activity" =>
    let fields ← rest.fields? ["name", "node_id", "line", "membership"]
    return {
      action := .activity
      name := ← fields.required "name" Json.string?
      id := ← fields.required "node_id" Json.string?
      line := ← fields.required "line" Json.uint32?
      membership := ← Membership.field? fields }
  | "child_workflow" =>
    let fields ← rest.fields? ["workflow_name", "node_id", "line", "membership"]
    return {
      action := .childWorkflow
      name := ← fields.required "workflow_name" Json.string?
      id := ← fields.required "node_id" Json.string?
      line := ← fields.required "line" Json.uint32?
      membership := ← Membership.field? fields }
  | "external_signal" =>
    let fields ← rest.fields? ["signal_name", "target", "node_id", "line", "membership"]
    return {
      action := .externalSignal (← fields.required "target" (Target.ofJson? .nullOrEmpty))
      name := ← fields.required "signal_name" Json.string?
      id := ← fields.required "node_id" Json.string?
      line := ← fields.required "line" Json.uint32?
      membership := ← Membership.field? fields }
  | _ => none

end Step

end WorkflowPaths
