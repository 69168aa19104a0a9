import WorkflowPaths.Branch
import WorkflowPaths.Step

/-!
# Entries

A step or a branch point of a workflow, and what the two have in common.
-/

namespace WorkflowPaths

/-- A step or a branch point. -/
inductive Entry where
  /-- A step. -/
  | step (s : Step)
  /-- A branch point. -/
  | branch (b : Branch)
deriving DecidableEq, Repr

namespace Entry

/-- The name that is shown. -/
def name : Entry → String
  | .step s => s.name
  | .branch b => b.name

/-- The id. -/
def id : Entry → String
  | .step s => s.id
  | .branch b => b.id

/-- The source line. -/
def line : Entry → UInt32
  | .step s => s.line
  | .branch b => b.line

/-- When the entry takes part. -/
def membership : Entry → Membership
  | .step s => s.membership
  | .branch b => b.membership

/-- The kind of node that shows the entry. -/
def kind : Entry → NodeKind
  | .step s => s.kind
  | .branch b => b.kind

end Entry

end WorkflowPaths
