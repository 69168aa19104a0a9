import WorkflowPaths.Workflow.Basic

/-!
# Effective memberships

A branch point is itself conditional on other branch points, so an entry that is conditional on
it also depends on the conditions of that branch point, and so on. The closure of a list of
conditions collects all of them.

The search keeps a queue of conditions to visit and the branch points it has not expanded yet.
Visiting a condition moves the conditions of its branch point from the latter to the end of the
queue, once for each id. The number of conditions in both places together falls with every
visit, so the search ends, also where branch points depend on each other in a circle.
-/

namespace WorkflowPaths.Workflow

/-- The conditions that the branch points of a list have in total. -/
def conditionCount : List Branch → Nat
  | [] => 0
  | b :: r => b.membership.conditions.length + conditionCount r

/-- The branch points with any other id. -/
def others (id : String) (bs : List Branch) : List Branch :=
  bs.filter (·.id != id)

/-- Leaving out branch points leaves no more conditions. -/
theorem conditionCount_others_le (id : String) (bs : List Branch) :
    conditionCount (others id bs) ≤ conditionCount bs := by
  induction bs with
  | nil => simp [others]
  | cons b r ih =>
    by_cases h : b.id = id <;> simp_all [others, conditionCount]; omega

/-- Leaving out all branch points of an id saves at least the conditions of the first one. -/
theorem add_conditionCount_others_le {bs : List Branch} {id : String} {b : Branch}
    (h : bs.find? (·.id == id) = some b) :
    b.membership.conditions.length + conditionCount (others id bs) ≤ conditionCount bs := by
  induction bs with
  | nil => simp at h
  | cons c r ih =>
    by_cases hc : c.id = id
    · have hcb : c = b := by simpa [hc] using h
      have := conditionCount_others_le id r
      simp_all [others, conditionCount]
    · have := ih (by simpa [hc] using h)
      have hcons : others id (c :: r) = c :: others id r := by simp [others, hc]
      simp only [hcons, conditionCount]
      omega

/-- All conditions that the search visits, in order: those of the queue, with those that follow
from the branch points not yet expanded behind them. -/
def visited (unexpanded : List Branch) (queue : List Condition) : List Condition :=
  match queue with
  | [] => []
  | c :: rest =>
    match _h : unexpanded.find? (·.id == c.branch) with
    | some b =>
      c :: visited (others c.branch unexpanded) (rest ++ b.membership.conditions)
    | none => c :: visited unexpanded rest
termination_by queue.length + conditionCount unexpanded
decreasing_by
  · have := add_conditionCount_others_le _h
    simp only [List.length_append, List.length_cons]
    omega
  · simp only [List.length_cons]
    omega

/-- The first occurrences of the elements of a list. -/
def firstOccurrences {α : Type} [DecidableEq α] (seen : List α) : List α → List α
  | [] => []
  | a :: r => if a ∈ seen then firstOccurrences seen r else a :: firstOccurrences (a :: seen) r

/-- The given conditions and all that follow from them, each once, in the order of the search. -/
def closure (w : Workflow) (conditions : List Condition) : List Condition :=
  firstOccurrences [] (visited w.branches conditions)

/-- The membership with the conditions of all enclosing branch points. -/
def effective (w : Workflow) : Membership → Membership
  | .known conditions => .known (w.closure conditions)
  | .unknown => .unknown

end WorkflowPaths.Workflow
