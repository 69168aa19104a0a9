import WorkflowPaths.Membership
import WorkflowPaths.NodeId

/-!
# Branch points

A branch point of a workflow has one of two outcomes: a decision is answered with yes or no, and
a wait for a signal ends because the signal came or because the time ran out. In documents a
branch point is a tagged record inside a list inside the workflow.
-/

namespace WorkflowPaths

/-- What decides the outcome of a branch point. -/
inductive Test where
  /-- A decision of the workflow. -/
  | decision
  /-- Whether a signal comes in time. -/
  | signalWait (condition timeout : String) (trueLabel falseLabel : Option String)
deriving DecidableEq, Repr

/-- A branch point of a workflow. -/
structure Branch where
  /-- What decides the outcome. -/
  test : Test
  /-- The name of the decision or signal. -/
  name : String
  /-- The id of the branch point. -/
  id : String
  /-- The source line of the call. -/
  line : UInt32
  /-- When the branch point takes part. -/
  membership : Membership
deriving DecidableEq, Repr

namespace Branch

/-- The kind of node that shows the branch point. -/
def kind (b : Branch) : NodeKind :=
  match b.test with
  | .decision => .decision
  | .signalWait .. => .signalWait

/-- A string, or `null`. -/
def labelJson : Option String → Json
  | some s => .string s
  | none => .null

/-- The branch point as documents write it. -/
def toJson (b : Branch) : Json :=
  let head := [("kind", .string b.kind.tag), ("name", .string b.name), ("node_id", .string b.id),
    ("line", .nat b.line.toNat)]
  match b.test with
  | .decision => .object (head ++ [("membership", b.membership.toJson)])
  | .signalWait condition timeout trueLabel falseLabel =>
    .object (head ++ [("condition_expr", .string condition), ("timeout_expr", .string timeout),
      ("true_label", labelJson trueLabel), ("false_label", labelJson falseLabel),
      ("membership", b.membership.toJson)])

/-- The branch point that a document writes. -/
def ofJson? (v : Json) : Option Branch := do
  let (tag, rest) ← v.tagged? "kind" 2
  match tag with
  | "decision" =>
    let fields ← rest.fields? ["name", "node_id", "line", "membership"]
    return {
      test := .decision
      name := ← fields.required "name" Json.string?
      id := ← fields.required "node_id" Json.string?
      line := ← fields.required "line" Json.uint32?
      membership := ← Membership.field? fields }
  | "signal_wait" =>
    let fields ← rest.fields? ["name", "node_id", "line", "condition_expr", "timeout_expr",
      "true_label", "false_label", "membership"]
    return {
      test := .signalWait
        (← fields.required "condition_expr" Json.string?)
        (← fields.required "timeout_expr" Json.string?)
        (← fields.optional "true_label" Json.string?)
        (← fields.optional "false_label" Json.string?)
      name := ← fields.required "name" Json.string?
      id := ← fields.required "node_id" Json.string?
      line := ← fields.required "line" Json.uint32?
      membership := ← Membership.field? fields }
  | _ => none

end Branch

end WorkflowPaths
