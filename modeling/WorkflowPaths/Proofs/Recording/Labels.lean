import WorkflowPaths.Label
import WorkflowPaths.Proofs.Recording.Flaws

/-!
# Labels of recorded waits

A recorded wait for a signal may give a label to each of its outcomes. The branch point that comes
from it takes the labels only as a pair (`Call.labels`), so a label that is given alone is lost, and
the label of the options is shown in its place.

The labels are followed from the call to the branch point along the rows of
`Recording.exists_consistsOf`, in which the entries stand beside the calls they come from.
-/

namespace WorkflowPaths

namespace Call

/-- The label that the call itself gives to an outcome. -/
def ownLabel (c : Call) (taken : Bool) : Option String :=
  if taken then c.trueLabel else c.falseLabel

end Call

namespace Recording

end Recording

end WorkflowPaths
