import WorkflowPaths.Entry
import WorkflowPaths.Outcomes

/-!
# Paths

A path is one run through a workflow, from its start to its end, with the steps and branch points
that take part in it. It also records the outcomes of all branch points of the workflow, those
that the run does not come by included.
-/

namespace WorkflowPaths

/-- A stop on a path. -/
inductive Stop where
  /-- The start of the workflow. -/
  | start
  /-- A step. -/
  | step (s : Step)
  /-- A branch point, with the outcome it has on this path. -/
  | branch (b : Branch) (taken : Bool)
  /-- The end of the workflow. -/
  | finish
deriving DecidableEq, Repr

namespace Stop

/-- The id of the node that shows the stop. -/
def id : Stop → String
  | .start => startId
  | .step s => s.id
  | .branch b _ => b.id
  | .finish => finishId

/-- The kind of the node that shows the stop. -/
def kind : Stop → NodeKind
  | .start => .start
  | .step s => s.kind
  | .branch b _ => b.kind
  | .finish => .finish

/-- The step or branch point as a stop on a path with the given outcomes. -/
def ofEntry (o : Outcomes) : Entry → Stop
  | .step s => .step s
  | .branch b => .branch b ((o.get? b.id).getD false)

/-- The stop shows a signal that is sent to another workflow. -/
def isExternalSignal (s : Stop) : Bool :=
  s.kind = .externalSignal

end Stop

/-- A path through a workflow. -/
structure Path where
  /-- The stops, the start and the end included. -/
  stops : List Stop
  /-- The outcomes of all branch points. -/
  outcomes : Outcomes
deriving DecidableEq

namespace Path

/-- The steps on the path. -/
def steps (p : Path) : List Step :=
  p.stops.filterMap fun
    | .step s => some s
    | _ => none

end Path

end WorkflowPaths
