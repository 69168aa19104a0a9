import WorkflowPaths.Proofs.Path.Contents
import WorkflowPaths.Proofs.Recording.Flaws

/-!
# In which order paths show guards

A call of a recording is conditional on branch points that are recorded before it. On a path the
order can be another one: a recording has the order of its calls on a line, and on a path the steps
of a line come before its branch points. So what a condition guards is shown behind the branch point
that the condition is on, also where both are branch points of one line, unless it is a step on the
line of that branch point, and then it is shown before it
(`branch_shown_first_unless_step_on_line`).
-/

namespace WorkflowPaths

/-- The entry is a step on the line. -/
def Entry.IsStepOnLine (e : Entry) (line : UInt32) : Prop :=
  ∃ s, e = .step s ∧ s.line = line

/-- The path shows every branch point before what has a condition on it. -/
def Path.ShowsBranchesFirst (p : Path) : Prop :=
  ∀ (j : Nat) (s : Stop) (e : Entry), p.stops[j]? = some s → s.shown? = some e →
    ∀ c ∈ e.membership.conditions, ∃ (i : Nat) (b : Branch) (taken : Bool),
      i < j ∧ p.stops[i]? = some (.branch b taken) ∧ b.id = c.branch

/-! ### Source order is strict -/

/-- Where nothing stands twice, of two elements only one comes first. -/
theorem not_sublist_swap {α : Type} {l : List α} (h : l.Nodup) {a b : α} (hab : [a, b].Sublist l) :
    ¬ [b, a].Sublist l := by
  induction l with
  | nil => cases hab
  | cons x r ih =>
    obtain ⟨hx, hr⟩ := List.nodup_cons.1 h
    intro hba
    cases hab with
    | cons _ hab =>
      cases hba with
      | cons _ hba => exact ih hr hab hba
      | cons_cons _ _ => exact hx (hab.subset (by simp))
    | cons_cons _ _ =>
      cases hba with
      | cons _ hba => exact hx (hba.subset (by simp))
      | cons_cons _ ha => exact hx (ha.subset (by simp))

namespace Workflow

variable {w : Workflow} {a b e : Entry}

theorem WellFormed.not_listedBefore (hw : w.WellFormed) (h : w.ListedBefore a b) :
    ¬ w.ListedBefore b a := by
  have hentries : w.entries.Nodup := hw.ids_nodup.of_map
  rw [entries, List.nodup_append] at hentries
  cases a with
  | step s =>
    cases b with
    | step t => exact not_sublist_swap hentries.1.of_map h
    | branch x => exact not_false
  | branch x =>
    cases b with
    | step t => cases h
    | branch y => exact not_sublist_swap hentries.2.1.of_map h

theorem WellFormed.not_comesBefore (hw : w.WellFormed) (h : w.ComesBefore a b) :
    ¬ w.ComesBefore b a := by
  rintro (hlt' | ⟨heq', hlisted'⟩)
  · rcases h with hlt | ⟨heq, -⟩
    · exact absurd hlt' (UInt32.lt_asymm hlt)
    · exact absurd heq.symm (UInt32.ne_of_lt hlt')
  · rcases h with hlt | ⟨-, hlisted⟩
    · exact absurd heq'.symm (UInt32.ne_of_lt hlt)
    · exact hw.not_listedBefore hlisted hlisted'

end Workflow

/-- Stops are in source order: what comes first in it is shown first. -/
theorem Path.RunsThrough.lt_of_comesBefore {w : Workflow} {p : Path} (h : p.RunsThrough w)
    (hw : w.WellFormed) {i j : Nat} {s t : Stop} {a b : Entry} (hi : p.stops[i]? = some s)
    (hs : s.shown? = some a) (hj : p.stops[j]? = some t) (ht : t.shown? = some b)
    (hab : w.ComesBefore a b) : i < j := by
  have hordered : p.entries.Pairwise w.ComesBefore := by
    rw [h.entries_eq]
    exact w.pairwise_timeline.filter _
  rw [entries, List.pairwise_filterMap, List.pairwise_iff_getElem] at hordered
  obtain ⟨hilt, rfl⟩ := List.getElem?_eq_some_iff.1 hi
  obtain ⟨hjlt, rfl⟩ := List.getElem?_eq_some_iff.1 hj
  -- Stops that are not in this order would be in source order the other way round.
  rcases Nat.lt_trichotomy i j with hlt | rfl | hgt
  · exact hlt
  · cases hs.symm.trans ht
    exact absurd hab (hw.not_comesBefore hab)
  · exact absurd (hordered j i hjlt hilt hgt b ht a hs) (hw.not_comesBefore hab)

/-! ### Conditions of recorded calls -/

namespace Workflow

variable {w : Workflow} {rows : List (Call × Entry)} {e : Entry} {c : Condition} {b : Branch}

/-- A condition is on a branch point that is on no later line, and listed before the entry if that
is a branch point too. -/
theorem ConsistsOf.exists_branch_above (h : w.ConsistsOf rows)
    (hlines : (rows.map (·.1)).Pairwise (·.line ≤ ·.line)) (he : e ∈ w.entries)
    (hc : e.membership.Requires c) :
    ∃ b ∈ w.branches, b.id = c.branch ∧ b.line ≤ e.line ∧
      ∀ x, e = .branch x → [b, x].Sublist w.branches := by
  obtain ⟨row, hrow, rfl⟩ := h.exists_row he
  obtain ⟨above, below, hrows⟩ := List.append_of_mem hrow
  obtain ⟨row', hrow', b, hbranch, hid⟩ := h.exists_row_above hrows hc
  have hpair : [row', row].Sublist rows := by
    rw [hrows]
    exact (List.singleton_sublist.2 hrow').append ((List.nil_sublist below).cons_cons row)
  obtain ⟨⟨_, hfrom'⟩, _, hfrom⟩ := h.of_pair hpair
  refine ⟨b, ?_, hid, ?_, ?_⟩
  · rw [h.branches_eq]
    exact List.mem_filterMap.2 ⟨row', hpair.subset (by simp), Entry.branch?_eq_some_iff.2 hbranch⟩
  · have hle : row'.1.line ≤ row.1.line :=
      List.pairwise_iff_forall_sublist.1 (List.pairwise_map.1 hlines) hpair
    rwa [← hfrom.line_eq, ← hfrom'.line_eq, hbranch] at hle
  · intro x hx
    have hbranches := hpair.filterMap (·.2.branch?)
    rw [← h.branches_eq] at hbranches
    simpa [hbranch, hx, Entry.branch?] using hbranches

/-- A branch point that is on no later line than an entry, and listed before it if that is a branch
point too, comes before the entry, unless this is a step on the same line. -/
theorem comesBefore_iff_isStepOnLine (hline : b.line ≤ e.line)
    (hlisted : ∀ x, e = .branch x → [b, x].Sublist w.branches) :
    (¬ e.IsStepOnLine b.line → w.ComesBefore (.branch b) e) ∧
      (e.IsStepOnLine b.line → w.ComesBefore e (.branch b)) := by
  constructor
  · intro hstep
    by_cases heq : b.line = e.line
    · cases e with
      | step s => exact absurd ⟨s, rfl, heq.symm⟩ hstep
      | branch x => exact .inr ⟨heq, hlisted x rfl⟩
    · exact .inl (UInt32.lt_of_le_of_ne hline heq)
  · rintro ⟨s, rfl, hs⟩
    exact .inr ⟨hs, trivial⟩

end Workflow

namespace Recording

/-- **Branch points are shown before what they guard**, on every path of the workflow of a recording,
with one exception: a step on the line of a branch point is shown before it, also where it is
conditional on it. -/
theorem branch_shown_first_unless_step_on_line {r : Recording} {w : Workflow} {o : Options}
    {paths : List Path} {p : Path} (hr : r.toWorkflow = .ok w) (h : w.paths o = .ok paths)
    (hp : p ∈ paths) {j : Nat} {s : Stop} {e : Entry} (hj : p.stops[j]? = some s)
    (hs : s.shown? = some e) {c : Condition} (hc : c ∈ e.membership.conditions) :
    ∃ b ∈ w.branches, b.id = c.branch ∧ (∃ i : Nat, p.stops[i]? = some (.branch b c.outcome)) ∧
      ∀ (i : Nat) (taken : Bool), p.stops[i]? = some (.branch b taken) →
        (¬ e.IsStepOnLine b.line → i < j) ∧ (e.IsStepOnLine b.line → j < i) := by
  have hw := Workflow.wellFormed_of_paths h
  have hrun := Path.runsThrough_of_mem_paths h hp
  have hshown : e ∈ p.entries := List.mem_filterMap.2 ⟨s, List.mem_of_getElem? hj, hs⟩
  have he := hrun.mem_of_mem_entries hshown
  obtain ⟨rows, hcalls, hrows⟩ := exists_consistsOf hr
  have hlines : (rows.map (·.1)).Pairwise (·.line ≤ ·.line) := by
    rw [hcalls]
    exact SourceOrder.pairwise_sort _ _
  have hrequires := Membership.mem_conditions_iff.1 hc
  obtain ⟨b, hb, hid, hline, hlisted⟩ := hrows.exists_branch_above hlines he hrequires
  refine ⟨b, hb, hid, ?_, ?_⟩
  · apply List.mem_iff_getElem?.1
    apply hrun.branch_mem_stops_of_condition hw hb _ hshown
    rwa [hid]
  · intro i taken hi
    obtain ⟨hbefore, hafter⟩ := Workflow.comesBefore_iff_isStepOnLine hline hlisted
    constructor
    · intro hstep
      exact hrun.lt_of_comesBefore hw hi rfl hj hs (hbefore hstep)
    · intro hstep
      exact hrun.lt_of_comesBefore hw hj hs hi rfl (hafter hstep)

theorem reviewed_paths : reviewed.paths {} = .ok reviewed.allPaths :=
  Workflow.paths_eq_ok_iff.2 ⟨by decide +kernel, by decide +kernel, by decide +kernel, rfl⟩

/-- A wait that is conditional on a decision of its line comes after the decision. -/
theorem branch_shown_first_unless_step_on_line_review :
    ∃ p ∈ reviewed.allPaths, ∃ b ∈ reviewed.branches, b.id = "d1" ∧
      ∃ i : Nat, i < 3 ∧ p.stops[i]? = some (.branch b true) ∧
        p.stops[3]? = some (.branch ⟨.signalWait "signed" "1d" none none, "Signed", "sig_signed_30",
          30, .known [⟨"d1", true⟩]⟩ true) := by
  have hr : review.toWorkflow = .ok reviewed := by decide +kernel
  have hp : .along reviewed.guardedTimeline (reviewed.outcomesAt 7) ∈ reviewed.allPaths :=
    List.mem_of_getElem? (Workflow.getElem?_allPaths.2 ⟨by decide, rfl⟩)
  have hj : (Path.along reviewed.guardedTimeline (reviewed.outcomesAt 7)).stops[3]? =
      some (.branch ⟨.signalWait "signed" "1d" none none, "Signed", "sig_signed_30", 30,
        .known [⟨"d1", true⟩]⟩ true) := by decide +kernel
  obtain ⟨b, hb, hid, ⟨i, hi⟩, hall⟩ := branch_shown_first_unless_step_on_line hr reviewed_paths hp
    hj rfl (c := ⟨"d1", true⟩) (by decide)
  refine ⟨_, hp, b, hb, hid, i, (hall i true hi).1 ?_, hi, hj⟩
  rintro ⟨s, hs, -⟩
  cases hs

/-- A step that is conditional on the decision of its line. -/
def loading : Recording where
  workflow := "Loading"
  calls := [
    { kind := .decision, line := 5, name := some "Check" },
    { kind := .activity, line := 5, name := some "Fetch", conditions := [⟨"Check", true⟩] }]

/-- The workflow with the step. -/
def loaded : Workflow where
  name := "Loading"
  steps := [⟨.activity, "Fetch", "1", 5, .known [⟨"d0", true⟩]⟩]
  branches := [⟨.decision, "Check", "d0", 5, .known []⟩]

/-- The exception is one: the step is shown before the decision that it is conditional on. -/
theorem loaded_not_showsBranchesFirst :
    loading.toWorkflow = .ok loaded ∧ loaded.paths {} = .ok loaded.allPaths ∧
      ∃ p ∈ loaded.allPaths, ¬ p.ShowsBranchesFirst := by
  have hpaths : loaded.paths {} = .ok loaded.allPaths :=
    Workflow.paths_eq_ok_iff.2 ⟨by decide +kernel, by decide +kernel, by decide +kernel, rfl⟩
  have hp : .along loaded.guardedTimeline (loaded.outcomesAt 1) ∈ loaded.allPaths :=
    List.mem_of_getElem? (Workflow.getElem?_allPaths.2 ⟨by decide, rfl⟩)
  have hstops : (Path.along loaded.guardedTimeline (loaded.outcomesAt 1)).stops =
      [.start, .step ⟨.activity, "Fetch", "1", 5, .known [⟨"d0", true⟩]⟩,
        .branch ⟨.decision, "Check", "d0", 5, .known []⟩ true, .finish] := by decide +kernel
  refine ⟨by decide +kernel, hpaths, _, hp, fun hfirst => ?_⟩
  obtain ⟨i, b, taken, hlt, hi, -⟩ := hfirst 1 _ _ (by rw [hstops]; rfl) rfl ⟨"d0", true⟩ (by decide)
  obtain rfl : i = 0 := by omega
  rw [hstops] at hi
  cases hi

end Recording

end WorkflowPaths
