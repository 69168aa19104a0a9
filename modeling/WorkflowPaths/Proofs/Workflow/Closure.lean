import Mathlib.Data.List.Nodup
import Mathlib.Order.Bounds.Basic
import WorkflowPaths.Proofs.Workflow.Dependencies

/-!
# The closure as a list

`Proofs.Workflow.Dependencies` says which conditions are in the closure of others. This module says
in which order, and that the closure is the least list of its kind:

* the search visits the conditions it is given before all others (`prefix_visited`), so the closure
  begins with them (`eraseDups_prefix_closure`),
* the closure of a closure adds nothing to it (`closure_closure`), because what follows from
  conditions that follow, follows,
* and the search visits no more conditions than it is given and all branch points have together
  (`length_visited_le`), however the branch points depend on each other.
-/

namespace WorkflowPaths.Workflow

/-! ### First occurrences -/

section

variable {α : Type} [DecidableEq α] {l l' : List α}

theorem nodup_firstOccurrences (seen l : List α) : (firstOccurrences seen l).Nodup := by
  induction l generalizing seen with
  | nil => exact List.nodup_nil
  | cons a r ih =>
    rw [firstOccurrences]
    split
    next => exact ih seen
    next =>
      refine List.nodup_cons.2 ⟨fun ha => ?_, ih (a :: seen)⟩
      exact (mem_firstOccurrences_iff.1 ha).2 List.mem_cons_self

theorem firstOccurrences_eq_eraseDups (seen l : List α) :
    firstOccurrences seen l = (l.filter (· ∉ seen)).eraseDups := by
  induction l generalizing seen with
  | nil => rfl
  | cons a r ih =>
    rw [firstOccurrences]
    split
    next ha => rw [ih, List.filter_cons_of_neg (by simpa using ha)]
    next ha =>
      rw [ih, List.filter_cons_of_pos (by simpa using ha), List.eraseDups_cons, List.filter_filter]
      have hfilter : ∀ b ∈ r, decide (b ∉ a :: seen) = (!b == a && decide (b ∉ seen)) := by
        intro b _
        rw [Bool.eq_iff_iff]
        simp
      rw [List.filter_congr hfilter]

theorem firstOccurrences_nil (l : List α) : firstOccurrences [] l = l.eraseDups := by
  rw [firstOccurrences_eq_eraseDups, List.filter_eq_self.2 (by simp)]

theorem eraseDups_eq_self (h : l.Nodup) : l.eraseDups = l := by
  induction l with
  | nil => rfl
  | cons a r ih =>
    obtain ⟨ha, hr⟩ := List.nodup_cons.1 h
    have hfilter : r.filter (!· == a) = r := by
      rw [List.filter_eq_self]
      intro b hb
      simpa using fun hba : b = a => ha (hba ▸ hb)
    rw [List.eraseDups_cons, hfilter, ih hr]

theorem eraseDups_prefix (h : l <+: l') : l.eraseDups <+: l'.eraseDups := by
  obtain ⟨r, rfl⟩ := h
  rw [List.eraseDups_append]
  exact List.prefix_append _ _

end

/-! ### The search -/

/-- The conditions in the queue are visited before all others. -/
theorem prefix_visited (unexpanded : List Branch) (queue : List Condition) :
    queue <+: visited unexpanded queue := by
  fun_induction visited unexpanded queue with
  | case1 => exact List.prefix_rfl
  | case2 unexpanded c rest b hb ih =>
    exact List.cons_prefix_cons.2 ⟨rfl, (List.prefix_append rest _).trans ih⟩
  | case3 unexpanded c rest hb ih => exact List.cons_prefix_cons.2 ⟨rfl, ih⟩

/-- Each visit takes a condition off the queue, and no branch point puts its conditions there
twice. -/
theorem length_visited_le (unexpanded : List Branch) (queue : List Condition) :
    (visited unexpanded queue).length ≤ queue.length + conditionCount unexpanded := by
  fun_induction visited unexpanded queue with
  | case1 => simp
  | case2 unexpanded c rest b hb ih =>
    have := add_conditionCount_others_le hb
    simp only [List.length_cons, List.length_append] at ih ⊢
    omega
  | case3 unexpanded c rest hb ih =>
    simp only [List.length_cons]
    omega

/-! ### The closure -/

theorem nodup_closure (w : Workflow) (cs : List Condition) : (w.closure cs).Nodup :=
  nodup_firstOccurrences [] _

theorem eraseDups_prefix_closure (w : Workflow) (cs : List Condition) :
    cs.eraseDups <+: w.closure cs := by
  rw [closure, firstOccurrences_nil]
  exact eraseDups_prefix (prefix_visited w.branches cs)

/-- What follows from a closure is in it, so the search has nothing to add. -/
theorem closure_closure (w : Workflow) (cs : List Condition) :
    w.closure (w.closure cs) = w.closure cs := by
  have hprefix := eraseDups_prefix_closure w (w.closure cs)
  rw [eraseDups_eq_self (nodup_closure w cs)] at hprefix
  obtain ⟨more, hmore⟩ := hprefix
  have hnodup : (w.closure cs ++ more).Nodup := hmore ▸ nodup_closure w _
  -- Whatever stands behind the closure follows from it, so it would be there twice.
  cases more with
  | nil => rw [← hmore, List.append_nil]
  | cons d more =>
    have hd : Follows w.branches (w.closure cs) d :=
      mem_closure_iff.1 (hmore ▸ List.mem_append_right _ List.mem_cons_self)
    have hmem : d ∈ w.closure cs :=
      mem_closure_iff.2 (hd.trans fun c hc => mem_closure_iff.1 hc)
    exact absurd rfl (List.nodup_append.1 hnodup |>.2.2 d hmem d List.mem_cons_self)

/-- The conditions hold all that follows from them in one step: with a condition also those of the
first branch point with its id. -/
def IsClosed (w : Workflow) (s : Set Condition) : Prop :=
  ∀ c ∈ s, ∀ b, w.branches.find? (·.id == c.branch) = some b → ∀ d, b.membership.Requires d → d ∈ s

theorem isLeast_closure (w : Workflow) (cs : List Condition) :
    IsLeast {s | (∀ c ∈ cs, c ∈ s) ∧ w.IsClosed s} {d | d ∈ w.closure cs} := by
  constructor
  · refine ⟨fun c hc => mem_closure_iff.2 (.given hc), fun c hc b hb d hd => ?_⟩
    exact mem_closure_iff.2 (.expand (mem_closure_iff.1 hc) hb hd)
  · rintro s ⟨hcs, hclosed⟩ d hd
    have hfollows := mem_closure_iff.1 hd
    clear hd
    induction hfollows with
    | given hc => exact hcs _ hc
    | expand _ hb hd ih => exact hclosed _ ih _ hb _ hd

/-- **The effective conditions are the least closed list.** They are the given conditions, each
once and in their order, and behind them, each once, all that follows and is not among them. What is
effective under them is what they are. This holds for all workflows, also where branch points depend
on each other in a circle, share ids or are not there, and the search for the conditions visits no
more of them than are given and all branch points have together. -/
theorem effective_least_closed (w : Workflow) (cs : List Condition) :
    ∃ cl, w.effective (.known cs) = .known cl ∧ cl.Nodup ∧ cs.eraseDups <+: cl ∧
      (∀ d, d ∈ cl ↔ Follows w.branches cs d) ∧
      IsLeast {s | (∀ c ∈ cs, c ∈ s) ∧ w.IsClosed s} {d | d ∈ cl} ∧
      w.effective (.known cl) = .known cl ∧
      (visited w.branches cs).length ≤ cs.length + conditionCount w.branches := by
  refine ⟨w.closure cs, rfl, nodup_closure w cs, eraseDups_prefix_closure w cs,
    fun d => mem_closure_iff, isLeast_closure w cs, ?_, length_visited_le w.branches cs⟩
  rw [effective, closure_closure]

/-- A decision under another one, which itself is under a third one. -/
def nestedDecisions : Workflow where
  name := "NestedDecisions"
  steps := []
  branches := [
    ⟨.decision, "Member", "d0", 1, .always⟩,
    ⟨.decision, "Trial", "d1", 2, .known [⟨"d0", true⟩]⟩,
    ⟨.decision, "Expired", "d2", 3, .known [⟨"d1", false⟩]⟩]

theorem effective_least_closed_nestedDecisions :
    nestedDecisions.effective (.known [⟨"d2", true⟩])
        = .known [⟨"d2", true⟩, ⟨"d1", false⟩, ⟨"d0", true⟩] ∧
      (∀ d, d ∈ [⟨"d2", true⟩, ⟨"d1", false⟩, ⟨"d0", true⟩] ↔
        Follows nestedDecisions.branches [⟨"d2", true⟩] d) ∧
      (visited nestedDecisions.branches [⟨"d2", true⟩]).length ≤ 1 + 2 := by
  have heffective : nestedDecisions.effective (.known [⟨"d2", true⟩])
      = .known [⟨"d2", true⟩, ⟨"d1", false⟩, ⟨"d0", true⟩] := by
    decide +kernel
  obtain ⟨cl, hcl, -, -, hmem, -, -, hlength⟩ :=
    effective_least_closed nestedDecisions [⟨"d2", true⟩]
  cases heffective.symm.trans hcl
  exact ⟨heffective, hmem, hlength⟩

end WorkflowPaths.Workflow
