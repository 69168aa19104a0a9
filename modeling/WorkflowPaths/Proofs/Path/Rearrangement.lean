import WorkflowPaths.Proofs.Path.Contents
import WorkflowPaths.Proofs.SourceOrder

/-!
# The order of the lists of a workflow

A workflow need not list its steps and branch points in source order. This module shows that the
order matters for the numbers of the paths only, as long as the entries of one list that are on one
line keep theirs (`Rearranges`).

* `Rearranges.timeline_eq`: the timeline is the same.
* `WellFormed.of_rearranges`: what makes a workflow well-formed does not depend on the order. In
  particular this holds for circles of dependencies.
* `Rearranges.taking_eq`: where ids are different, branch points are found under the same ids, so the
  same conditions follow, and the same entries take part under the same outcomes.
* `exists_outcomesAt_eq`: the outcomes of a path are those of a path of the rearranged workflow, the
  digits of whose number stand in another order.
-/

namespace WorkflowPaths

/-- Tables that hold the same outcomes are equal. -/
theorem Outcomes.eq_of_get?_eq {o o' : Outcomes} (h : ∀ x, o.get? x = o'.get? x) : o = o' := by
  have hmem (e : String × Bool) : e ∈ o.entries ↔ e ∈ o'.entries := by
    rw [← Prod.mk.eta (p := e), ← get?_eq_some_iff, ← get?_eq_some_iff, h]
  have hperm : o.entries.Perm o'.entries :=
    (List.perm_ext_iff_of_nodup o.nodup_ids.of_map o'.nodup_ids.of_map).2 hmem
  -- The ids go up in both tables.
  have hentries : o.entries = o'.entries := by
    refine List.Perm.eq_of_pairwise (fun a b _ _ hab hba => ?_) o.ordered o'.ordered hperm
    exact absurd hba (String.lt_asymm hab)
  obtain ⟨entries, ordered⟩ := o
  cases hentries
  rfl

namespace Workflow

/-- `w'` is `w` with its steps and its branch points listed in another order, in which the entries of
one list that are on one line keep theirs. -/
structure Rearranges (w w' : Workflow) : Prop where
  /-- The name is kept. -/
  name_eq : w'.name = w.name
  /-- The steps are listed in another order. -/
  steps : SourceOrder.Rearranges Step.line w.steps w'.steps
  /-- The branch points are listed in another order. -/
  branches : SourceOrder.Rearranges Branch.line w.branches w'.branches

variable {w w' : Workflow}

/-- Putting the entries of a workflow in source order rearranges it. -/
theorem rearranges_inSourceOrder (w : Workflow) : w.Rearranges w.inSourceOrder :=
  ⟨rfl, SourceOrder.rearranges_sort _ _, SourceOrder.rearranges_sort _ _⟩

theorem Rearranges.symm (h : w.Rearranges w') : w'.Rearranges w :=
  ⟨h.name_eq.symm, h.steps.symm, h.branches.symm⟩

theorem Rearranges.entries (h : w.Rearranges w') :
    SourceOrder.Rearranges Entry.line w.entries w'.entries :=
  (h.steps.map Entry.step).append (h.branches.map Entry.branch)

theorem Rearranges.timeline_eq (h : w.Rearranges w') : w'.timeline = w.timeline :=
  h.entries.sort_eq

/-! ### Well-formed workflows -/

theorem Rearranges.dependsOn_iff (h : w.Rearranges w') {x y : Branch} :
    w'.DependsOn x y ↔ w.DependsOn x y := by
  simp only [DependsOn, h.branches.perm.mem_iff]

theorem WellFormed.of_rearranges (hw : w.WellFormed) (h : w.Rearranges w') : w'.WellFormed := by
  have hmem {e : Entry} (he : e ∈ w'.entries) : e ∈ w.entries := h.entries.perm.mem_iff.1 he
  exact {
    name_not_blank := by
      rw [h.name_eq]
      exact hw.name_not_blank
    names_not_blank := fun e he => hw.names_not_blank e (hmem he)
    ids_not_empty := fun e he => hw.ids_not_empty e (hmem he)
    ids_nodup := (h.entries.perm.map Entry.id).nodup_iff.2 hw.ids_nodup
    conditions_known := by
      intro e he c hc
      obtain ⟨b, hb, hid⟩ := hw.conditions_known e (hmem he) c hc
      exact ⟨b, h.branches.perm.mem_iff.2 hb, hid⟩
    acyclic := by
      obtain ⟨rank, hrank⟩ := hw.acyclic
      exact ⟨rank, fun x y hxy => hrank x y (h.dependsOn_iff.1 hxy)⟩ }

theorem Rearranges.check_iff (h : w.Rearranges w') : w.check = .ok () ↔ w'.check = .ok () := by
  constructor
  · intro hcheck
    exact ((wellFormed_of_check hcheck).of_rearranges h).check_eq_ok
  · intro hcheck
    exact ((wellFormed_of_check hcheck).of_rearranges h.symm).check_eq_ok

/-! ### Who takes part -/

/-- Where ids are different, a branch point is found under its id wherever it is listed. -/
theorem Rearranges.branch?_eq (h : w.Rearranges w') (hids : (w.branches.map Branch.id).Nodup)
    (id : String) : w'.branch? id = w.branch? id := by
  cases hfind : w.branch? id with
  | none =>
    rw [branch?_eq_none_iff] at hfind ⊢
    intro b hb
    exact hfind b (h.branches.perm.mem_iff.1 hb)
  | some b =>
    obtain ⟨hb, rfl⟩ := mem_of_branch?_eq_some hfind
    have hids' := (h.branches.perm.map Branch.id).nodup_iff.2 hids
    exact branch?_id hids' (h.branches.perm.mem_iff.2 hb)

/-- What follows from some conditions depends only on which branch points are found. -/
theorem Follows.of_branch?_eq (hfind : ∀ id, w'.branch? id = w.branch? id) {cs : List Condition}
    {c : Condition} (h : Follows w.branches cs c) : Follows w'.branches cs c := by
  induction h with
  | given hc => exact .given hc
  | expand _ hb hd ih => exact .expand ih ((hfind _).trans hb) hd

theorem Rearranges.taking_eq (h : w.Rearranges w') (hids : (w.branches.map Branch.id).Nodup)
    (o : Outcomes) : w'.taking o = w.taking o := by
  have hfind := h.branch?_eq hids
  have hfollows {cs : List Condition} {c : Condition} :
      Follows w'.branches cs c ↔ Follows w.branches cs c :=
    ⟨Follows.of_branch?_eq fun id => (hfind id).symm, Follows.of_branch?_eq hfind⟩
  rw [taking, taking, h.timeline_eq]
  apply List.filter_congr
  intro e _
  rw [Bool.eq_iff_iff]
  simp only [satisfied_effective_iff, hfollows]

theorem Rearranges.along_eq (h : w.Rearranges w') (hids : (w.branches.map Branch.id).Nodup)
    (o : Outcomes) : Path.along w'.guardedTimeline o = Path.along w.guardedTimeline o := by
  have hstops :
      (Path.along w'.guardedTimeline o).stops = (Path.along w.guardedTimeline o).stops := by
    rw [Path.stops_along, Path.stops_along, h.taking_eq hids]
  exact congrArg (Path.mk · o) hstops

/-! ### Which outcomes are recorded -/

/-- Only outcomes of branch points are recorded. -/
theorem get?_outcomesAt_eq_none (hids : (w.branches.map Branch.id).Nodup) (k : Nat) {x : String}
    (hx : ∀ b ∈ w.branches, b.id ≠ x) : (w.outcomesAt k).get? x = none := by
  apply Option.eq_none_iff_forall_ne_some.2
  intro v hv
  have hmem := List.mem_map_of_mem (f := Prod.fst) (Outcomes.get?_eq_some_iff.1 hv)
  rw [(ids_outcomesAt_perm hids k).mem_iff] at hmem
  obtain ⟨b, hb, hid⟩ := List.mem_map.1 hmem
  exact hx b hb hid

/-- The outcomes of a path of a workflow are those of a path of the rearranged workflow. -/
theorem Rearranges.exists_outcomesAt_eq (h : w.Rearranges w')
    (hids : (w.branches.map Branch.id).Nodup) (k : Nat) :
    ∃ k' < 2 ^ w'.branches.length, w'.outcomesAt k' = w.outcomesAt k := by
  have hids' := (h.branches.perm.map Branch.id).nodup_iff.2 hids
  obtain ⟨k', hk', hget⟩ :=
    exists_get?_outcomesAt hids' fun b => ((w.outcomesAt k).get? b.id).getD false
  refine ⟨k', hk', Outcomes.eq_of_get?_eq fun x => ?_⟩
  by_cases hx : ∃ b ∈ w'.branches, b.id = x
  · obtain ⟨b, hb, rfl⟩ := hx
    obtain ⟨i, hi⟩ := List.mem_iff_getElem?.1 (h.branches.perm.mem_iff.1 hb)
    rw [hget b hb, get?_outcomesAt hids hi, Option.getD_some]
  · simp only [not_exists, not_and] at hx
    have hx' : ∀ b ∈ w.branches, b.id ≠ x := fun b hb => hx b (h.branches.perm.mem_iff.2 hb)
    rw [get?_outcomesAt_eq_none hids' k' hx, get?_outcomesAt_eq_none hids k hx']

/-- A path of a workflow is a path of the rearranged workflow. -/
theorem Rearranges.mem_allPaths (h : w.Rearranges w') (hids : (w.branches.map Branch.id).Nodup)
    {p : Path} (hp : p ∈ w.allPaths) : p ∈ w'.allPaths := by
  obtain ⟨k, hk⟩ := List.mem_iff_getElem?.1 hp
  obtain ⟨-, rfl⟩ := getElem?_allPaths.1 hk
  obtain ⟨k', hk', houtcomes⟩ := h.exists_outcomesAt_eq hids k
  rw [← houtcomes, ← h.along_eq hids]
  exact List.mem_of_getElem? (getElem?_allPaths.2 ⟨hk', rfl⟩)

/-! ### The paths -/

/-- The limits count branch points, in whatever order. -/
theorem Rearranges.checkLimits_eq (h : w.Rearranges w') (o : Options) :
    w'.checkLimits o = w.checkLimits o := by
  rw [checkLimits, checkLimits, runs, runs, h.branches.perm.length_eq]

theorem Rearranges.exists_paths_iff (h : w.Rearranges w') (o : Options) :
    (∃ paths, w.paths o = .ok paths) ↔ ∃ paths', w'.paths o = .ok paths' := by
  simp only [paths_eq_ok_iff, exists_and_left, exists_eq, and_true, h.checkLimits_eq, h.check_iff]

/-- **The order of the lists of a workflow only numbers its paths.** Where the steps and the branch
points are listed in another order, in which those of one list that are on one line keep theirs, the
workflow is valid if it was, its paths are enumerated under the same options, and they are the same
paths in another order. So for each assignment of outcomes there is one path of both workflows. -/
theorem paths_perm_of_rearranges (h : w.Rearranges w') :
    (w.check = .ok () ↔ w'.check = .ok ()) ∧
    ∀ o, ((∃ paths, w.paths o = .ok paths) ↔ ∃ paths', w'.paths o = .ok paths') ∧
      ∀ paths paths', w.paths o = .ok paths → w'.paths o = .ok paths' →
        paths.Perm paths' ∧
        ∀ a : Branch → Bool, ∃ p, (p ∈ paths ∧ p ∈ paths' ∧
            ∀ b ∈ w.branches, p.outcomes.get? b.id = some (a b)) ∧
          ∀ q, q ∈ paths ∨ q ∈ paths' →
            (∀ b ∈ w.branches, q.outcomes.get? b.id = some (a b)) → q = p := by
  refine ⟨h.check_iff, fun o => ⟨h.exists_paths_iff o, fun paths paths' hpaths hpaths' => ?_⟩⟩
  have hids := (wellFormed_of_paths hpaths).branch_ids_nodup
  have hids' := (wellFormed_of_paths hpaths').branch_ids_nodup
  have hperm : paths.Perm paths' := by
    apply (List.perm_ext_iff_of_nodup (nodup_map_outcomes hpaths).of_map
      (nodup_map_outcomes hpaths').of_map).2
    intro p
    rw [(paths_eq_ok_iff.1 hpaths).2.2.2, (paths_eq_ok_iff.1 hpaths').2.2.2]
    exact ⟨h.mem_allPaths hids, h.symm.mem_allPaths hids'⟩
  refine ⟨hperm, fun a => ?_⟩
  obtain ⟨k, ⟨p, hk, hp⟩, hunique⟩ := existsUnique_path hpaths a
  have hmem := List.mem_of_getElem? hk
  refine ⟨p, ⟨hmem, hperm.mem_iff.1 hmem, hp⟩, fun q hq hqa => ?_⟩
  have hq' : q ∈ paths := hq.elim id hperm.mem_iff.2
  obtain ⟨j, hj⟩ := List.mem_iff_getElem?.1 hq'
  obtain rfl := hunique j ⟨q, hj, hqa⟩
  exact Option.some.inj (hj.symm.trans hk)

/-- The approval of orders, listed from the end to the start. -/
def orderApprovalBackwards : Workflow where
  name := "OrderApproval"
  steps := [ship, ⟨.activity, "Reserve", "1", 1, .always⟩]
  branches := [approved, aboveLimit]

/-- Listed backwards, orders above the limit that are not approved come third instead of second. -/
theorem paths_perm_of_rearranges_orderApproval :
    orderApprovalBackwards.Rearranges orderApproval ∧
      orderApprovalBackwards.allPaths.Perm orderApproval.allPaths ∧
      orderApprovalBackwards.allPaths[2]? = orderApproval.allPaths[1]? ∧
      orderApprovalBackwards.allPaths ≠ orderApproval.allPaths := by
  have hrearranges : orderApprovalBackwards.Rearranges orderApproval := by
    have hsorted : orderApprovalBackwards.inSourceOrder = orderApproval := by decide
    rw [← hsorted]
    exact rearranges_inSourceOrder _
  have hpaths : orderApprovalBackwards.paths {} = .ok orderApprovalBackwards.allPaths :=
    paths_eq_ok_iff.2 ⟨by decide +kernel, by decide +kernel, by decide +kernel, rfl⟩
  obtain ⟨-, hall⟩ := paths_perm_of_rearranges hrearranges
  obtain ⟨hperm, -⟩ := (hall {}).2 _ _ hpaths orderApproval_paths
  exact ⟨hrearranges, hperm, by decide +kernel, by decide +kernel⟩

end Workflow

end WorkflowPaths
