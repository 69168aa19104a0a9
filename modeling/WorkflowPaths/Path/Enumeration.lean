import WorkflowPaths.Options.Validity
import WorkflowPaths.Path.Basic
import WorkflowPaths.Workflow.Validity

/-!
# Enumerating paths

A workflow with `n` branch points has `2 ^ n` paths, numbered from zero: on path `k` the branch
point with index `i` is taken when bit `i` of `k` is set. They come out in this order because the
lists of outcomes are listed with the last place changing fastest, and are read against the branch
points from the last one to the first. An entry is on a path when its own conditions and those of
all branch points around it hold there.

Paths are enumerated only for valid options and a valid workflow, and only if there are no more
branch points and no more paths than the options allow.
-/

namespace WorkflowPaths

/-- Why the paths of a workflow are not enumerated. -/
inductive EnumerationError where
  /-- The options are not valid. -/
  | options (flaw : Options.Flaw)
  /-- The workflow has more branch points than are allowed. -/
  | tooManyBranches (branches runs limit : Nat)
  /-- The workflow has more paths than are allowed. -/
  | tooManyPaths (runs limit : Nat)
  /-- The workflow is not valid. -/
  | workflow (flaw : Workflow.Flaw)
deriving DecidableEq, Repr

/-- The error in words. -/
def EnumerationError.message : EnumerationError → String
  | .options flaw => flaw.error.text
  | .tooManyBranches branches runs limit =>
    "Too many branch points (" ++ toString branches ++ ") would generate " ++ toString runs
      ++ " paths (limit: " ++ toString limit ++ " branch points). "
      ++ "Suggestion: refactor workflow or increase max_decision_points"
  | .tooManyPaths runs limit =>
    "Workflow would generate " ++ toString runs ++ " paths (limit: " ++ toString limit
      ++ " paths). Suggestion: refactor workflow or raise max_paths"
  | .workflow flaw => flaw.error.text

/-- The path of the entries whose memberships the outcomes satisfy. -/
def Path.along (guarded : List (Entry × Membership)) (o : Outcomes) : Path where
  stops := .start :: (guarded.filterMap fun (e, m) =>
    if m.satisfied o then some (.ofEntry o e) else none) ++ [.finish]
  outcomes := o

namespace Workflow

/-- All entries in source order, with their effective memberships. -/
def guardedTimeline (w : Workflow) : List (Entry × Membership) :=
  w.timeline.map fun e => (e, w.effective e.membership)

/-- All lists of `n` outcomes; the last place changes fastest. -/
def outcomeLists : Nat → List (List Bool)
  | 0 => [[]]
  | n + 1 => [false, true].flatMap fun taken => (outcomeLists n).map (taken :: ·)

/-- The table of a list of outcomes, which starts with the outcome of the last branch point. -/
def recordOutcomes (w : Workflow) (outcomes : List Bool) : Outcomes :=
  .ofList ((w.branches.reverse.zip outcomes).map fun (b, taken) => (b.id, taken))

/-- All paths of a workflow, in the order of their numbers. A workflow without branch points has one
path, with no outcomes. -/
def allPaths (w : Workflow) : List Path :=
  let guarded := w.guardedTimeline
  if w.branches.isEmpty then [.along guarded .empty]
  else (outcomeLists w.branches.length).map fun outcomes =>
    .along guarded (w.recordOutcomes outcomes)

/-- The workflow has no more branch points and no more paths than the options allow. -/
def checkLimits (o : Options) (w : Workflow) : Except EnumerationError Unit :=
  if o.maxDecisionPoints.toNat < w.branches.length then
    .error (.tooManyBranches w.branches.length w.runs o.maxDecisionPoints.toNat)
  else if o.pathLimit < w.runs then
    .error (.tooManyPaths w.runs o.pathLimit)
  else .ok ()

/-- The paths of a workflow, as far as the options and the workflow allow it. -/
def paths (o : Options) (w : Workflow) : Except EnumerationError (List Path) := do
  o.check.mapError .options
  w.checkLimits o
  w.check.mapError .workflow
  return w.allPaths

end Workflow

end WorkflowPaths
