import WorkflowPaths.FieldError
import WorkflowPaths.Workflow.Closure

/-!
# Valid workflows

What a workflow has to satisfy before its paths are enumerated: it has a name, every entry has a
name and an id of its own, every condition names a branch point of the workflow, and no branch
point depends on itself.

`Workflow.flaws` lists everything that is wrong with a workflow; the first flaw is the one that
is reported.
-/

namespace WorkflowPaths

/-- A place in one of the two lists of a workflow. -/
inductive Slot where
  /-- The branch point with the given index. -/
  | branch (index : Nat)
  /-- The step with the given index. -/
  | step (index : Nat)
deriving DecidableEq, Repr

/-- The place as messages name it. -/
def Slot.field : Slot → String
  | .branch i => "branch_points[" ++ toString i ++ "]"
  | .step i => "steps[" ++ toString i ++ "]"

namespace Workflow

/-- Something that is wrong with a workflow. -/
inductive Flaw where
  /-- The workflow's name is blank. -/
  | blankName
  /-- The entry's name is blank. -/
  | blankEntryName (slot : Slot)
  /-- The entry's id is empty. -/
  | emptyId (slot : Slot)
  /-- An entry before this one has the same id. -/
  | duplicateId (slot : Slot) (id : String)
  /-- The entry has a condition on an id that no branch point has. -/
  | unknownBranch (slot : Slot) (id : String)
  /-- The branch point has a condition on itself. -/
  | selfCondition (slot : Slot) (id : String)
  /-- The conditions of the branch point lead back to it. -/
  | circular (index : Nat) (id : String)
deriving DecidableEq, Repr

/-- The flaw as an error in a field. -/
def Flaw.error : Flaw → FieldError
  | .blankName => {
      field := "workflow_name"
      message := "must not be empty"
      suggestion := "pass the name of the workflow class or function" }
  | .blankEntryName slot => {
      field := slot.field ++ ".name"
      message := "must not be empty"
      suggestion := "give every detected call a display name" }
  | .emptyId slot => {
      field := slot.field ++ ".node_id"
      message := "must not be empty"
      suggestion := "derive ids with make_node_id or use MetadataBuilder" }
  | .duplicateId slot id => {
      field := slot.field ++ ".node_id"
      message := "duplicate node id '" ++ id ++ "'"
      suggestion := "ensure (kind, name, line) is unique per workflow" }
  | .unknownBranch slot id => {
      field := slot.field ++ ".membership"
      message := "refers to unknown branch point '" ++ id ++ "'"
      suggestion := "reference the node id of a decision or signal wait in this workflow" }
  | .selfCondition slot id => {
      field := slot.field ++ ".membership"
      message := "branch point '" ++ id ++ "' is conditional on itself"
      suggestion := "remove the self-reference from the branch point's conditions" }
  | .circular index id => {
      field := (Slot.branch index).field ++ ".membership"
      message := "branch point '" ++ id ++ "' depends on itself"
      suggestion := "nested branch points may only depend on enclosing ones" }

/-- All entries with their places: the branch points, then the steps. -/
def slots (w : Workflow) : List (Slot × Entry) :=
  (w.branches.zipIdx.map fun (b, i) => (.branch i, .branch b))
    ++ w.steps.zipIdx.map fun (s, i) => (.step i, .step s)

/-- What is wrong with one condition of an entry. A step may not be confused with a branch point
of its id, so only branch points can be conditional on themselves. -/
def conditionFlaws (w : Workflow) (slot : Slot) (e : Entry) (c : Condition) : List Flaw :=
  let unknown := if (w.branch? c.branch).isNone then [.unknownBranch slot c.branch] else []
  let self := match e with
    | .branch b => if b.id = c.branch then [.selfCondition slot c.branch] else []
    | .step _ => []
  unknown ++ self

/-- What is wrong with one entry, behind entries with the given ids. -/
def entryFlaws (w : Workflow) (earlier : List String) (slot : Slot) (e : Entry) : List Flaw :=
  (if Text.isBlankText e.name then [.blankEntryName slot] else [])
    ++ (if e.id = "" then [.emptyId slot] else [])
    ++ (if e.id ∈ earlier then [.duplicateId slot e.id] else [])
    ++ e.membership.conditions.flatMap (w.conditionFlaws slot e)

/-- What is wrong with the entries of a list, behind entries with the given ids. -/
def slotFlaws (w : Workflow) (earlier : List String) : List (Slot × Entry) → List Flaw
  | [] => []
  | (slot, e) :: r => w.entryFlaws earlier slot e ++ w.slotFlaws (e.id :: earlier) r

/-- The branch point's conditions lead back to it. -/
def isCircular (w : Workflow) (b : Branch) : Bool :=
  (w.closure b.membership.conditions).any (·.branch == b.id)

/-- The branch points that depend on themselves. -/
def circularFlaws (w : Workflow) : List Flaw :=
  w.branches.zipIdx.filterMap fun (b, i) =>
    if w.isCircular b then some (.circular i b.id) else none

/-- Everything that is wrong with the workflow, in the order of the search. -/
def flaws (w : Workflow) : List Flaw :=
  (if Text.isBlankText w.name then [.blankName] else [])
    ++ w.slotFlaws [] w.slots
    ++ w.circularFlaws

/-- Reports the first flaw of the workflow, if it has one. -/
def check (w : Workflow) : Except Flaw Unit :=
  match w.flaws with
  | [] => .ok ()
  | flaw :: _ => .error flaw

end Workflow

end WorkflowPaths
