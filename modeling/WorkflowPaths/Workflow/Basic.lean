import WorkflowPaths.Counting
import WorkflowPaths.Entry
import WorkflowPaths.SourceOrder

/-!
# Workflows

A workflow has a name, steps and branch points. Its runs are the assignments of outcomes to its
branch points, so a workflow with `n` branch points has `2 ^ n` runs. The number of runs is only
counted up to the largest 64-bit number.
-/

namespace WorkflowPaths

/-- A workflow. -/
structure Workflow where
  /-- The name of the workflow. -/
  name : String
  /-- Its steps. -/
  steps : List Step
  /-- Its branch points. -/
  branches : List Branch
deriving DecidableEq, Repr

namespace Workflow

/-- The workflow with its steps and its branch points in source order. -/
def inSourceOrder (w : Workflow) : Workflow where
  name := w.name
  steps := SourceOrder.sort Step.line w.steps
  branches := SourceOrder.sort Branch.line w.branches

/-- The number of runs. -/
def runs (w : Workflow) : Nat :=
  (runCount w.branches.length).toNat

/-- The first branch point with the given id. -/
def branch? (w : Workflow) (id : String) : Option Branch :=
  w.branches.find? (·.id == id)

/-- The steps that show as nodes of the given kind. -/
def stepsOf (w : Workflow) (kind : NodeKind) : List Step :=
  w.steps.filter (·.kind == kind)

/-- The branch points that show as nodes of the given kind. -/
def branchesOf (w : Workflow) (kind : NodeKind) : List Branch :=
  w.branches.filter (·.kind == kind)

/-- All entries in source order; on a shared line the steps come before the branch points. -/
def timeline (w : Workflow) : List Entry :=
  SourceOrder.sort Entry.line (w.steps.map .step ++ w.branches.map .branch)

/-- The workflow as documents write it. -/
def toJson (w : Workflow) : Json :=
  .object [("workflow_name", .string w.name), ("steps", .array (w.steps.map Step.toJson)),
    ("branch_points", .array (w.branches.map Branch.toJson))]

/-- The workflow that a document writes. -/
def ofJson? (v : Json) : Option Workflow := do
  let fields ← v.fields? ["workflow_name", "steps", "branch_points"]
  return {
    name := ← fields.required "workflow_name" Json.string?
    steps := ← fields.required "steps" (Json.list? Step.ofJson?)
    branches := ← fields.required "branch_points" (Json.list? Branch.ofJson?) }

end Workflow

end WorkflowPaths
