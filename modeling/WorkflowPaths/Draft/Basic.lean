import WorkflowPaths.Entry

/-!
# Drafts

A draft collects the calls of a workflow in any order. Branch points are referred to by number,
in the order in which they were registered, because their ids are only known when the draft is
finished.
-/

namespace WorkflowPaths

/-- When a registered call takes part. -/
inductive Guard where
  /-- On every run. -/
  | always
  /-- When the numbered branch points have the given outcomes. -/
  | when (conditions : List (Nat × Bool))
  /-- It is not known when. -/
  | unknown
deriving DecidableEq, Repr

/-- Adds a condition; a guard that is not known stays so. -/
def Guard.and : Guard → Nat → Bool → Guard
  | .always, branch, outcome => .when [(branch, outcome)]
  | .when conditions, branch, outcome => .when (conditions ++ [(branch, outcome)])
  | .unknown, _, _ => .unknown

/-- A call that was registered, `α` being what it does. -/
structure Registered (α : Type) where
  /-- What the call does. -/
  what : α
  /-- The name of what is called. -/
  name : String
  /-- The source line. -/
  line : UInt32
  /-- When the call takes part. -/
  guard : Guard
deriving DecidableEq, Repr

/-- A workflow that is being put together. -/
structure Draft where
  /-- The name of the workflow. -/
  name : String
  /-- The registered steps. -/
  steps : List (Registered Action) := []
  /-- The registered branch points. -/
  branches : List (Registered Test) := []
deriving DecidableEq, Repr

namespace Draft

/-- Registers a step. -/
def addStep (d : Draft) (action : Action) (name : String) (line : UInt32) (guard : Guard) :
    Draft :=
  { d with steps := d.steps ++ [⟨action, name, line, guard⟩] }

/-- Registers a branch point. Its number is the number of branch points before it. -/
def addBranch (d : Draft) (test : Test) (name : String) (line : UInt32) (guard : Guard) :
    Draft :=
  { d with branches := d.branches ++ [⟨test, name, line, guard⟩] }

/-- Registers a decision. -/
def addDecision (d : Draft) (name : String) (line : UInt32) (guard : Guard) : Draft :=
  d.addBranch .decision name line guard

/-- Registers a wait for a signal, without labels of its own. -/
def addSignalWait (d : Draft) (name : String) (line : UInt32) (condition timeout : String)
    (guard : Guard) : Draft :=
  d.addBranch (.signalWait condition timeout none none) name line guard

/-- A wait for a signal with labels of its own; a decision has none. -/
def relabel (trueLabel falseLabel : String) : Test → Test
  | .decision => .decision
  | .signalWait condition timeout _ _ =>
    .signalWait condition timeout (some trueLabel) (some falseLabel)

/-- Gives labels to a branch point that was registered. Decisions and numbers that are not in use
are left alone. -/
def setLabels (d : Draft) (branch : Nat) (trueLabel falseLabel : String) : Draft :=
  { d with branches := d.branches.modify branch fun r =>
      { r with what := relabel trueLabel falseLabel r.what } }

end Draft

/-- A call that is registered with a draft. -/
inductive Registration where
  /-- A step. -/
  | step (action : Action) (name : String) (line : UInt32) (guard : Guard)
  /-- A decision. -/
  | decision (name : String) (line : UInt32) (guard : Guard)
  /-- A wait for a signal. -/
  | signalWait (name : String) (line : UInt32) (condition timeout : String) (guard : Guard)
  /-- Labels for a branch point. -/
  | labels (branch : Nat) (trueLabel falseLabel : String)
deriving DecidableEq, Repr

namespace Draft

/-- Registers a call. -/
def register (d : Draft) : Registration → Draft
  | .step action name line guard => d.addStep action name line guard
  | .decision name line guard => d.addDecision name line guard
  | .signalWait name line condition timeout guard =>
    d.addSignalWait name line condition timeout guard
  | .labels branch trueLabel falseLabel => d.setLabels branch trueLabel falseLabel

/-- The draft of a workflow with the given calls. -/
def ofRegistrations (name : String) (calls : List Registration) : Draft :=
  calls.foldl register { name }

end Draft

end WorkflowPaths
