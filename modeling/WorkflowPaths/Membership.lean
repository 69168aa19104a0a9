import WorkflowPaths.Json.Decoding
import WorkflowPaths.Outcomes

/-!
# Memberships

A step or branch point belongs to those runs of a workflow on which certain branch points have
certain outcomes. Where a detector could not find out which, the membership is unknown, and the
entry is taken to belong to every run.
-/

namespace WorkflowPaths

/-- One branch point has one outcome. -/
structure Condition where
  /-- The id of the branch point. -/
  branch : String
  /-- The outcome it has to have. -/
  outcome : Bool
deriving DecidableEq, Repr

namespace Condition

/-- The condition holds under the recorded outcomes. -/
def holds (o : Outcomes) (c : Condition) : Bool :=
  o.get? c.branch == some c.outcome

/-- The two conditions ask for different outcomes of one branch point. -/
def opposes (a b : Condition) : Bool :=
  a.branch == b.branch && a.outcome != b.outcome

/-- The condition as documents write it. -/
def toJson (c : Condition) : Json :=
  .object [("branch_id", .string c.branch), ("value", .bool c.outcome)]

/-- The condition that a document writes. -/
def ofJson? (v : Json) : Option Condition := do
  let fields ← v.fields? ["branch_id", "value"]
  let branch ← fields.required "branch_id" Json.string?
  let outcome ← fields.required "value" Json.bool?
  return ⟨branch, outcome⟩

end Condition

/-- When an entry of a workflow takes part in a run. -/
inductive Membership where
  /-- When all of the conditions hold. -/
  | known (conditions : List Condition)
  /-- It could not be determined when. -/
  | unknown
deriving DecidableEq, Repr

namespace Membership

/-- The membership of an entry that takes part in every run. -/
def always : Membership := .known []

/-- The conditions that are known. -/
def conditions : Membership → List Condition
  | .known cs => cs
  | .unknown => []

/-- The membership could not be determined. -/
def isUnknown : Membership → Bool
  | .known _ => false
  | .unknown => true

/-- The entry takes part in a run with the given outcomes. -/
def satisfied (m : Membership) (o : Outcomes) : Bool :=
  m.conditions.all (·.holds o)

/-- Two conditions of the list ask for different outcomes of one branch point. -/
def hasOpposed : List Condition → Bool
  | [] => false
  | c :: r => r.any c.opposes || hasOpposed r

/-- No run can meet all of the conditions. -/
def contradictory (m : Membership) : Bool :=
  hasOpposed m.conditions

/-- The membership as documents write it. -/
def toJson : Membership → Json
  | .known cs => .object [("known", .array (cs.map Condition.toJson))]
  | .unknown => .string "unknown"

/-- The membership that a document writes. -/
def ofJson? (how : Json.NoContents) (v : Json) : Option Membership :=
  match v.variant? with
  | some ("known", some contents) => (contents.list? Condition.ofJson?).map .known
  | some ("unknown", contents) => if how.allows contents then some .unknown else none
  | _ => none

/-- The membership field of an entry; an entry without it always takes part. -/
def field? (fields : Json.Fields) : Option Membership :=
  fields.withDefault "membership" always (ofJson? .nullOrEmpty)

end Membership

end WorkflowPaths
