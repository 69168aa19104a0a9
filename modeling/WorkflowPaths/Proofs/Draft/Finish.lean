import WorkflowPaths.Draft.Finish
import WorkflowPaths.Proofs.Computations
import WorkflowPaths.Proofs.Workflow.WellFormed

/-!
# When a draft can be finished

Finishing a draft is a chain of computations that can fail: each registered call is turned into an
entry, and the workflow of these entries is checked. One lemma for each computation says when it
succeeds and with what.

Branch points are taken out of their places, and their ids looked up, by the numbers they were
registered under. Since no number occurs twice in source order, each call is still in its place when
its turn comes, and its id is found; so the calls meet the ids that were made for them, as if both
stood side by side (`takeBranches_orderedBranches`).
-/

namespace WorkflowPaths

namespace Draft

variable {d : Draft} {w : Workflow} {ids : List (Nat × String)} {id : String}

/-! ### Numbers and places -/

theorem length_branchIds (next : Nat) (l : List (Registered Test)) :
    (branchIds next l).length = l.length := by
  induction l generalizing next with
  | nil => rfl
  | cons r rest ih =>
    rw [branchIds]
    split <;> simp [ih]

theorem map_snd_orderedBranches_perm (d : Draft) :
    (d.orderedBranches.map (·.2)).Perm (List.range d.branches.length) := by
  have hperm := (SourceOrder.perm_sort (fun x => x.1.line) d.branches.zipIdx).map (·.2)
  rwa [List.zipIdx_map_snd, ← List.range_eq_range'] at hperm

theorem map_fst_idTable (d : Draft) : d.idTable.map Prod.fst = d.orderedBranches.map (·.2) := by
  rw [idTable, List.map_fst_zip]
  simp [length_branchIds]

theorem nodup_map_fst_idTable (d : Draft) : (d.idTable.map Prod.fst).Nodup := by
  rw [map_fst_idTable, (map_snd_orderedBranches_perm d).nodup_iff]
  exact List.nodup_range

/-- The id of a branch point is looked up under its number and found. -/
theorem map_lookup_idTable (d : Draft) :
    d.orderedBranches.map (fun x => (x.1, (d.idTable.lookup x.2).getD "")) =
      (d.orderedBranches.map (·.1)).zip (branchIds 0 (d.orderedBranches.map (·.1))) := by
  have hlength := length_branchIds 0 (d.orderedBranches.map (·.1))
  apply List.ext_getElem
  · simp [hlength]
  · intro i h₁ h₂
    have hi : i < d.orderedBranches.length := by simpa using h₁
    have hid : i < (branchIds 0 (d.orderedBranches.map (·.1))).length := by
      simpa [hlength] using hi
    have hentry : ((d.orderedBranches.get ⟨i, hi⟩).2,
        (branchIds 0 (d.orderedBranches.map (·.1))).get ⟨i, hid⟩) ∈ d.idTable := by
      rw [List.mem_iff_getElem?]
      refine ⟨i, ?_⟩
      simp [idTable, hi, hid]
    have hlookup := (lookup_eq_some_iff (nodup_map_fst_idTable d)).2 hentry
    simp only [List.get_eq_getElem] at hlookup
    simp [hlookup]

/-- Where the numbers do not repeat and the calls are in their places, every call is taken out. -/
theorem takeBranches_eq_mapM {l : List (Registered Test × Nat)}
    {places : List (Option (Registered Test))} (hnumbers : (l.map (·.2)).Nodup)
    (hplaces : ∀ x ∈ l, places[x.2]? = some (some x.1)) :
    takeBranches ids (l.map (·.2)) places =
      l.mapM fun x => toBranch ids x.1 ((ids.lookup x.2).getD "") := by
  induction l generalizing places with
  | nil => rfl
  | cons x l ih =>
    obtain ⟨hx, hl⟩ := List.forall_mem_cons.1 hplaces
    obtain ⟨hfresh, hnumbers⟩ := List.nodup_cons.1 hnumbers
    -- Only the place of `x` is emptied, and no later call is in it.
    have hkept : ∀ y ∈ l, (places.set x.2 none)[y.2]? = some (some y.1) := by
      intro y hy
      have hne : x.2 ≠ y.2 := fun heq => hfresh (List.mem_map.2 ⟨y, hy, heq.symm⟩)
      rw [List.getElem?_set_ne hne, hl y hy]
    rw [List.map_cons, takeBranches, hx, Option.join_some, List.mapM_cons]
    dsimp only
    rw [ih hnumbers hkept]

/-- The branch points of a draft, with the ids that are made for them in order. -/
theorem takeBranches_orderedBranches (d : Draft) :
    takeBranches d.idTable (d.orderedBranches.map (·.2)) (d.branches.map some) =
      ((d.orderedBranches.map (·.1)).zip (branchIds 0 (d.orderedBranches.map (·.1)))).mapM
        fun x => toBranch d.idTable x.1 x.2 := by
  have hnumbers : (d.orderedBranches.map (·.2)).Nodup := by
    rw [(map_snd_orderedBranches_perm d).nodup_iff]
    exact List.nodup_range
  have hplaces : ∀ x ∈ d.orderedBranches, (d.branches.map some)[x.2]? = some (some x.1) := by
    intro x hx
    have hmem := (SourceOrder.perm_sort _ _).mem_iff.1 hx
    rw [List.mem_zipIdx_iff_getElem?] at hmem
    rw [List.getElem?_map, hmem, Option.map_some]
  rw [takeBranches_eq_mapM hnumbers hplaces, ← map_lookup_idTable, List.mapM_map]
  rfl

/-! ### The steps of finishing a draft -/

theorem toBranch_eq_ok_iff {r : Registered Test} {b : Branch} :
    toBranch ids r id = .ok b ↔
      ∃ m, resolve ids r.line r.guard = .ok m ∧ ⟨r.what, r.name, id, r.line, m⟩ = b := by
  simp only [toBranch, bind_eq_ok_iff, pure_eq_ok_iff]

theorem toStep_eq_ok_iff {r : Registered Action} {s : Step} :
    toStep ids r id = .ok s ↔
      ∃ m, resolve ids r.line r.guard = .ok m ∧ ⟨r.what, r.name, id, r.line, m⟩ = s := by
  simp only [toStep, bind_eq_ok_iff, pure_eq_ok_iff]

/-- Each registered call becomes an entry, in source order. -/
theorem assemble_eq_ok_iff :
    d.assemble = .ok w ↔ w.name = d.name ∧
      List.Forall₂ (fun x b => toBranch d.idTable x.1 x.2 = .ok b)
        ((d.orderedBranches.map (·.1)).zip (branchIds 0 (d.orderedBranches.map (·.1))))
        w.branches ∧
      List.Forall₂ (fun x s => toStep d.idTable x.1 x.2 = .ok s)
        (d.orderedSteps.zip (stepIds 1 d.orderedSteps)) w.steps := by
  simp only [assemble, takeBranches_orderedBranches, bind_eq_ok_iff, mapM_eq_ok_iff, pure_eq_ok_iff]
  constructor
  · rintro ⟨branches, hbranches, steps, hsteps, rfl⟩
    exact ⟨rfl, hbranches, hsteps⟩
  · rintro ⟨hname, hbranches, hsteps⟩
    exact ⟨_, hbranches, _, hsteps, by rw [← hname]⟩

theorem finish_eq_ok_iff : d.finish = .ok w ↔ d.assemble = .ok w ∧ w.check = .ok () := by
  simp only [finish, bind_eq_ok_iff, mapError_eq_ok_iff, pure_eq_ok_iff]
  constructor
  · rintro ⟨_, hassemble, _, hcheck, rfl⟩
    exact ⟨hassemble, hcheck⟩
  · rintro ⟨hassemble, hcheck⟩
    exact ⟨w, hassemble, (), hcheck, rfl⟩

/-- Where the calls make a workflow, finishing a draft fails with what is wrong with the workflow. -/
theorem finish_eq_error_iff (h : d.assemble = .ok w) {flaw : Flaw} :
    d.finish = .error flaw ↔ ∃ cause, w.check = .error cause ∧ .workflow cause = flaw := by
  simp only [finish, h, bind_eq_error_iff, mapError_eq_error_iff, reduceCtorEq, false_or,
    Except.ok.injEq, exists_eq_left', pure, Except.pure, and_false, exists_false, or_false]

end Draft

end WorkflowPaths
