import WorkflowPaths.Draft.Basic
import WorkflowPaths.Workflow.Validity

/-!
# Finishing a draft

The registered calls become a workflow: they are put in source order, decisions and activities
are numbered in that order, and guards become memberships. The workflow is then checked.
-/

namespace WorkflowPaths

namespace Draft

/-- What can be wrong with a draft. -/
inductive Flaw where
  /-- The guard of a call on the given line refers to a branch point that is not there. -/
  | foreignBranch (line : UInt32)
  /-- The finished workflow is not valid. -/
  | workflow (flaw : Workflow.Flaw)
deriving DecidableEq, Repr

/-- The flaw as an error in a field. -/
def Flaw.error : Flaw → FieldError
  | .foreignBranch line => {
      field := "line " ++ toString line.toNat ++ ".guard"
      message := "refers to a branch handle from another builder"
      suggestion := "only use handles returned by this builder" }
  | .workflow flaw => flaw.error

/-- The branch points in source order, each with the number it was registered under. -/
def orderedBranches (d : Draft) : List (Registered Test × Nat) :=
  SourceOrder.sort (·.1.line) d.branches.zipIdx

/-- The steps in source order. -/
def orderedSteps (d : Draft) : List (Registered Action) :=
  SourceOrder.sort (·.line) d.steps

/-- The ids of branch points in order, the first decision having the number `next`. -/
def branchIds (next : Nat) : List (Registered Test) → List String
  | [] => []
  | r :: rest =>
    match r.what with
    | .decision => (NodeSeed.decision next).id :: branchIds (next + 1) rest
    | .signalWait .. => (NodeSeed.signalWait r.name r.line).id :: branchIds next rest

/-- The ids of steps in order, the first activity having the number `next`. -/
def stepIds (next : Nat) : List (Registered Action) → List String
  | [] => []
  | r :: rest =>
    match r.what with
    | .activity => (NodeSeed.activity next).id :: stepIds (next + 1) rest
    | .childWorkflow => (NodeSeed.childWorkflow r.name r.line).id :: stepIds next rest
    | .externalSignal _ => (NodeSeed.externalSignal r.name r.line).id :: stepIds next rest

/-- The id of each branch point under the number it was registered under. -/
def idTable (d : Draft) : List (Nat × String) :=
  let ordered := d.orderedBranches
  (ordered.map (·.2)).zip (branchIds 0 (ordered.map (·.1)))

/-- The membership that a guard stands for. -/
def resolve (ids : List (Nat × String)) (line : UInt32) : Guard → Except Flaw Membership
  | .always => .ok .always
  | .unknown => .ok .unknown
  | .when conditions => do
    let resolved ← conditions.mapM fun (branch, outcome) =>
      match ids.lookup branch with
      | some id => .ok (Condition.mk id outcome)
      | none => .error (.foreignBranch line)
    return .known resolved

/-- The branch point that a registered call becomes. -/
def toBranch (ids : List (Nat × String)) (r : Registered Test) (id : String) :
    Except Flaw Branch := do
  let membership ← resolve ids r.line r.guard
  return { test := r.what, name := r.name, id, line := r.line, membership }

/-- The step that a registered call becomes. -/
def toStep (ids : List (Nat × String)) (r : Registered Action) (id : String) :
    Except Flaw Step := do
  let membership ← resolve ids r.line r.guard
  return { action := r.what, name := r.name, id, line := r.line, membership }

/-- The branch points with the given numbers, in this order. Each call is taken out of its place,
which is left empty; an empty place is passed over. -/
def takeBranches (ids : List (Nat × String)) :
    List Nat → List (Option (Registered Test)) → Except Flaw (List Branch)
  | [], _ => .ok []
  | n :: numbers, places =>
    match places[n]?.join with
    | some r => do
      let branch ← toBranch ids r ((ids.lookup n).getD "")
      let rest ← takeBranches ids numbers (places.set n none)
      return branch :: rest
    | none => takeBranches ids numbers places

/-- The workflow before it is checked. -/
def assemble (d : Draft) : Except Flaw Workflow := do
  let ids := d.idTable
  let branches ← takeBranches ids (d.orderedBranches.map (·.2)) (d.branches.map some)
  let steps ← (d.orderedSteps.zip (stepIds 1 d.orderedSteps)).mapM fun (r, id) =>
    toStep ids r id
  return { name := d.name, steps, branches }

/-- The workflow that the registered calls make, if it is valid. -/
def finish (d : Draft) : Except Flaw Workflow := do
  let w ← d.assemble
  w.check.mapError .workflow
  return w

end Draft

end WorkflowPaths
