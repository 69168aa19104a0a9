import WorkflowPaths.Proofs.Path.Contents

/-!
# Which entries can be reached

Whether an entry is on some path can be told from its conditions alone: it is, unless the
conditions that follow from its own ones ask for both outcomes of one branch point. Where they do
not, they say what the outcomes of the branch points have to be, and since every assignment of
outcomes is that of a path, there is a path with these (`exists_mem_entries_iff`).

A branch point that is on a path is also on the path on which only its own outcome is different,
because no condition that it lies under is on itself (`exists_path_flip`).
-/

namespace WorkflowPaths

/-! ### Contradictions -/

/-- Two conditions of a list are opposed exactly when the list asks for both outcomes of one
branch point. -/
theorem Membership.hasOpposed_iff {cs : List Condition} :
    hasOpposed cs = true ↔ ∃ c ∈ cs, ∃ d ∈ cs, c.branch = d.branch ∧ c.outcome ≠ d.outcome := by
  induction cs with
  | nil => simp [hasOpposed]
  | cons a r ih =>
    rw [hasOpposed, Bool.or_eq_true, ih, List.any_eq_true]
    simp only [Condition.opposes, Bool.and_eq_true, beq_iff_eq, bne_iff_ne]
    constructor
    · rintro (⟨d, hd, hopposed⟩ | ⟨c, hc, d, hd, hopposed⟩)
      · exact ⟨a, List.mem_cons_self, d, List.mem_cons_of_mem a hd, hopposed⟩
      · exact ⟨c, List.mem_cons_of_mem a hc, d, List.mem_cons_of_mem a hd, hopposed⟩
    · rintro ⟨c, hc, d, hd, hbranch, houtcome⟩
      rcases List.mem_cons.1 hc with rfl | hcr
      · rcases List.mem_cons.1 hd with rfl | hdr
        · exact absurd rfl houtcome
        · exact .inl ⟨d, hdr, hbranch, houtcome⟩
      · rcases List.mem_cons.1 hd with rfl | hdr
        · exact .inl ⟨c, hcr, hbranch.symm, houtcome.symm⟩
        · exact .inr ⟨c, hcr, d, hdr, hbranch, houtcome⟩

namespace Workflow

/-- An effective membership is contradictory exactly when both outcomes of one branch point follow
from the conditions. -/
theorem contradictory_effective_iff {w : Workflow} {m : Membership} :
    (w.effective m).contradictory = true ↔ ∃ c d, Follows w.branches m.conditions c ∧
      Follows w.branches m.conditions d ∧ c.branch = d.branch ∧ c.outcome ≠ d.outcome := by
  cases m with
  | known cs =>
    rw [effective, Membership.contradictory, Membership.conditions, Membership.hasOpposed_iff]
    simp only [mem_closure_iff]
    constructor
    · rintro ⟨c, hc, d, hd, hopposed⟩
      exact ⟨c, d, hc, hd, hopposed⟩
    · rintro ⟨c, d, hc, hd, hopposed⟩
      exact ⟨c, hc, d, hd, hopposed⟩
  | unknown =>
    simp [effective, Membership.contradictory, Membership.conditions, Membership.hasOpposed,
      not_follows_nil]

variable {o : Options} {w : Workflow} {paths : List Path}

/-- Every condition that follows from those of an entry is on a branch point of the workflow. -/
theorem WellFormed.exists_branch_of_follows (hw : w.WellFormed) {e : Entry} (he : e ∈ w.entries)
    {c : Condition} (h : Follows w.branches e.membership.conditions c) :
    ∃ b ∈ w.branches, b.id = c.branch := by
  induction h with
  | given hc => exact hw.conditions_known e he _ (Membership.mem_conditions_iff.1 hc)
  | expand _ hb hd _ =>
    have hmem := (mem_of_branch?_eq_some hb).1
    exact hw.conditions_known _ (branch_mem_entries.2 hmem) _ hd

/-- No condition that a branch point lies under is on the branch point itself. -/
theorem WellFormed.branch_ne_of_follows (hw : w.WellFormed) {b : Branch} (hb : b ∈ w.branches)
    {c : Condition} (h : Follows w.branches b.membership.conditions c) : c.branch ≠ b.id :=
  fun hself => hw.acyclic.not_transGen_self b (transGen_of_follows hb h b hb hself)

/-! ### Paths for given outcomes -/

/-- There is a path for every assignment of outcomes. -/
theorem exists_path_of_outcomes (h : w.paths o = .ok paths) (a : Branch → Bool) :
    ∃ p ∈ paths, ∀ b ∈ w.branches, p.outcomes.get? b.id = some (a b) := by
  obtain ⟨k, p, hk, hp⟩ := (existsUnique_path h a).exists
  exact ⟨p, List.mem_of_getElem? hk, hp⟩

/-- On the path of outcomes that the conditions of an entry ask for, the entry takes part. -/
theorem mem_entries_of_outcomes (h : w.paths o = .ok paths) {e : Entry} (he : e ∈ w.entries)
    {p : Path} (hp : p ∈ paths) {a : Branch → Bool}
    (ha : ∀ b ∈ w.branches, p.outcomes.get? b.id = some (a b))
    (hasks : ∀ b ∈ w.branches, ∀ c, Follows w.branches e.membership.conditions c →
      b.id = c.branch → a b = c.outcome) : e ∈ p.entries := by
  have hw := wellFormed_of_paths h
  rw [(Path.runsThrough_of_mem_paths h hp).entries_eq, mem_taking_iff]
  refine ⟨he, fun c hc => ?_⟩
  obtain ⟨b, hb, hid⟩ := hw.exists_branch_of_follows he hc
  rw [← hid, ha b hb, hasks b hb c hc hid]

/-- An entry is on some path exactly when its effective membership is not contradictory. -/
theorem exists_mem_entries_iff (h : w.paths o = .ok paths) {e : Entry} (he : e ∈ w.entries) :
    (∃ p ∈ paths, e ∈ p.entries) ↔ (w.effective e.membership).contradictory = false := by
  rw [← Bool.not_eq_true, contradictory_effective_iff]
  constructor
  · rintro ⟨p, hp, hmem⟩ ⟨c, d, hc, hd, hbranch, houtcome⟩
    rw [(Path.runsThrough_of_mem_paths h hp).entries_eq, mem_taking_iff] at hmem
    have hget := (hmem.2 c hc).symm.trans (hbranch ▸ hmem.2 d hd)
    exact houtcome (Option.some.inj hget)
  · intro hconsistent
    -- The outcomes are those asked for; where nothing is asked for, the branch is not taken.
    let a (b : Branch) : Bool := decide (⟨b.id, true⟩ ∈ w.closure e.membership.conditions)
    obtain ⟨p, hp, ha⟩ := exists_path_of_outcomes h a
    refine ⟨p, hp, mem_entries_of_outcomes h he hp ha fun b hb c hc hid => ?_⟩
    cases houtcome : c.outcome with
    | true =>
      have hmem : Follows w.branches e.membership.conditions ⟨b.id, true⟩ := by
        rw [hid, ← houtcome]
        exact hc
      exact decide_eq_true (mem_closure_iff.2 hmem)
    | false =>
      refine decide_eq_false fun hmem => hconsistent ?_
      exact ⟨⟨b.id, true⟩, c, mem_closure_iff.1 hmem, hc, hid, by simp [houtcome]⟩

/-- A branch point on a path is also on a path with the other outcome. -/
theorem exists_path_flip (h : w.paths o = .ok paths) {p : Path} (hp : p ∈ paths) {b : Branch}
    {taken : Bool} (hstop : .branch b taken ∈ p.stops) :
    ∃ q ∈ paths, .branch b (!taken) ∈ q.stops := by
  have hw := wellFormed_of_paths h
  have hrun := Path.runsThrough_of_mem_paths h hp
  obtain ⟨hmem, htaken⟩ := hrun.branch_mem_stops_iff.1 hstop
  have hentry := hrun.mem_of_mem_entries hmem
  have hb : b ∈ w.branches := branch_mem_entries.1 hentry
  -- The outcomes of `p`, with the one of `b` turned around.
  let a (x : Branch) : Bool := if x = b then !taken else (p.outcomes.get? x.id).getD false
  obtain ⟨q, hq, ha⟩ := exists_path_of_outcomes h a
  refine ⟨q, hq, (Path.runsThrough_of_mem_paths h hq).branch_mem_stops_iff.2 ⟨?_, ?_⟩⟩
  · refine mem_entries_of_outcomes h hentry hq ha fun x hx c hc hid => ?_
    have hne : x ≠ b := fun hxb => hw.branch_ne_of_follows hb hc (hxb ▸ hid).symm
    rw [hrun.entries_eq, mem_taking_iff] at hmem
    simp only [a, if_neg hne, hid, hmem.2 c hc, Option.getD_some]
  · rw [ha b hb]
    simp [a]

end Workflow

end WorkflowPaths
