import WorkflowPaths.Proofs.Draft.Contents

/-!
# Registering calls in another order

Branch points are referred to by the numbers they were registered under, so registering calls in
another order renames the branch points in all guards. What becomes of a draft does not depend on
that: two sequences of calls that register the same steps and branch points, up to their order and
the numbers in the guards, make the same workflow or fail with the same flaw
(`finish_eq_of_reordered`).

The argument follows the steps of finishing a draft. The reordering moves the places of the branch
points, and sorting undoes that, so both drafts make the same ids in the same order. The tables of
ids differ only in the numbers, in the way the guards do, so guards resolve to the same memberships.
-/

namespace WorkflowPaths

/-- The numbers refer to the same branch point, where `place` says which number a branch point has
in the other sequence of calls, or neither of them is in use. -/
def SameNumber {k k' : Nat} (place : Fin k ≃ Fin k') (m n : Nat) : Prop :=
  (∃ h : m < k, (place ⟨m, h⟩).val = n) ∨ k ≤ m ∧ k' ≤ n

/-- The guards have the same conditions, up to numbers that are the same. -/
inductive Guard.Matches (same : Nat → Nat → Prop) : Guard → Guard → Prop where
  /-- Neither has conditions. -/
  | always : Matches same .always .always
  /-- Neither is known. -/
  | unknown : Matches same .unknown .unknown
  /-- The conditions are the same one by one. -/
  | when {conditions conditions' : List (Nat × Bool)} :
      List.Forall₂ (fun x y => same x.1 y.1 ∧ x.2 = y.2) conditions conditions' →
      Matches same (.when conditions) (.when conditions')

/-- The calls are the same, up to numbers in their guards that are the same. -/
structure Registered.Matches {α : Type} (same : Nat → Nat → Prop) (r r' : Registered α) :
    Prop where
  /-- They do the same. -/
  what_eq : r'.what = r.what
  /-- They have the same name. -/
  name_eq : r'.name = r.name
  /-- They are on the same line. -/
  line_eq : r'.line = r.line
  /-- They have the same guard. -/
  guard : r.guard.Matches same r'.guard

theorem mem_map_zip_iff {α β γ : Type} {f : α → β} (hf : Function.Injective f) {l : List α}
    {ids : List γ} {a : α} {id : γ} : (f a, id) ∈ (l.map f).zip ids ↔ (a, id) ∈ l.zip ids := by
  rw [List.zip_map_left, List.mem_map]
  constructor
  · rintro ⟨x, hx, heq⟩
    obtain ⟨hfa, rfl⟩ := Prod.mk.inj heq
    rwa [← hf hfa]
  · intro h
    exact ⟨_, h, rfl⟩

namespace Draft

variable {same : Nat → Nat → Prop} {ids ids' : List (Nat × String)}

theorem branchIds_eq_of_matches {l l' : List (Registered Test)}
    (h : List.Forall₂ (Registered.Matches same) l l') (next : Nat) :
    branchIds next l = branchIds next l' := by
  induction h generalizing next with
  | nil => rfl
  | cons hr _ ih =>
    rw [branchIds, branchIds, hr.what_eq, hr.name_eq, hr.line_eq, ih, ih]

theorem stepIds_eq_of_matches {l l' : List (Registered Action)}
    (h : List.Forall₂ (Registered.Matches same) l l') (next : Nat) :
    stepIds next l = stepIds next l' := by
  induction h generalizing next with
  | nil => rfl
  | cons hr _ ih =>
    rw [stepIds, stepIds, hr.what_eq, hr.name_eq, hr.line_eq, ih, ih]

/-- Guards that match resolve to the same membership, or fail in the same way, when the tables hold
the same ids for numbers that are the same. -/
theorem resolve_eq_of_matches (hids : ∀ m n, same m n → ids.lookup m = ids'.lookup n)
    {g g' : Guard} (h : g.Matches same g') (line : UInt32) :
    resolve ids line g = resolve ids' line g' := by
  cases h with
  | always => rfl
  | unknown => rfl
  | when h =>
    rw [resolve, resolve]
    congr 1
    refine mapM_eq_mapM_of_forall₂ (h.imp fun x y hxy => ?_)
    obtain ⟨⟨m, outcome⟩, n, outcome'⟩ := x, y
    dsimp only at hxy ⊢
    rw [hids m n hxy.1, hxy.2]

theorem toBranch_eq_of_matches (hids : ∀ m n, same m n → ids.lookup m = ids'.lookup n)
    {r r' : Registered Test} (h : r.Matches same r') (id : String) :
    toBranch ids r id = toBranch ids' r' id := by
  rw [toBranch, toBranch, h.what_eq, h.name_eq, h.line_eq,
    resolve_eq_of_matches hids h.guard r.line]

theorem toStep_eq_of_matches (hids : ∀ m n, same m n → ids.lookup m = ids'.lookup n)
    {r r' : Registered Action} (h : r.Matches same r') (id : String) :
    toStep ids r id = toStep ids' r' id := by
  rw [toStep, toStep, h.what_eq, h.name_eq, h.line_eq, resolve_eq_of_matches hids h.guard r.line]

/-! ### Drafts in another order -/

section

variable {d d' : Draft} {branch : Fin d.branches.length ≃ Fin d'.branches.length}
  {step : Fin d.steps.length ≃ Fin d'.steps.length}

theorem matches_orderedBranches
    (h : SourceOrder.Reorders Registered.line (Registered.Matches same) d.branches d'.branches
      branch) :
    List.Forall₂ (Registered.Matches same) (d.orderedBranches.map (·.1))
      (d'.orderedBranches.map (·.1)) := by
  rw [orderedBranches, orderedBranches, SourceOrder.sort_zipIdx Registered.line,
    SourceOrder.sort_zipIdx Registered.line, h.order_eq_map fun _ _ hr => hr.line_eq, List.map_map,
    List.map_map, List.map_map, List.forall₂_map_left_iff, List.forall₂_map_right_iff]
  exact List.forall₂_same.2 fun i _ => h.same i

theorem matches_orderedSteps
    (h : SourceOrder.Reorders Registered.line (Registered.Matches same) d.steps d'.steps step) :
    List.Forall₂ (Registered.Matches same) d.orderedSteps d'.orderedSteps := by
  rw [orderedSteps, orderedSteps, SourceOrder.sort_eq_map_order, SourceOrder.sort_eq_map_order,
    h.order_eq_map fun _ _ hr => hr.line_eq, List.map_map, List.forall₂_map_left_iff,
    List.forall₂_map_right_iff]
  exact List.forall₂_same.2 fun i _ => h.same i

theorem mem_idTable_iff {i : Fin d.branches.length} {id : String} :
    (i.val, id) ∈ d.idTable ↔ (i, id) ∈ (SourceOrder.order Registered.line d.branches).zip
      (branchIds 0 (d.orderedBranches.map (·.1))) := by
  have hnumbers : d.orderedBranches.map (·.2) =
      (SourceOrder.order Registered.line d.branches).map Fin.val := by
    rw [orderedBranches, SourceOrder.sort_zipIdx Registered.line, List.map_map]
    rfl
  rw [idTable, hnumbers, mem_map_zip_iff Fin.val_injective]

/-- The tables of ids differ only in the numbers. -/
theorem lookup_idTable_eq
    (h : SourceOrder.Reorders Registered.line (Registered.Matches (SameNumber branch)) d.branches
      d'.branches branch) (m n : Nat) (hmn : SameNumber branch m n) :
    d.idTable.lookup m = d'.idTable.lookup n := by
  rcases hmn with ⟨hm, rfl⟩ | ⟨hm, hn⟩
  · apply Option.ext
    intro id
    calc d.idTable.lookup m = some id
        ↔ (m, id) ∈ d.idTable := lookup_eq_some_iff (nodup_map_fst_idTable d)
      _ ↔ ((branch ⟨m, hm⟩).val, id) ∈ d'.idTable := by
          rw [mem_idTable_iff (i := ⟨m, hm⟩), mem_idTable_iff,
            ← branchIds_eq_of_matches (matches_orderedBranches h) 0,
            h.order_eq_map fun _ _ hr => hr.line_eq, mem_map_zip_iff branch.injective]
      _ ↔ d'.idTable.lookup (branch ⟨m, hm⟩).val = some id :=
          (lookup_eq_some_iff (nodup_map_fst_idTable d')).symm
  · have hnone {d : Draft} {k : Nat} (hk : d.branches.length ≤ k) : d.idTable.lookup k = none := by
      rw [Option.eq_none_iff_forall_ne_some]
      intro id hid
      have := exists_lookup_idTable_iff.1 ⟨id, hid⟩
      omega
    rw [hnone hm, hnone hn]

/-- Drafts with the same calls in another order are put together in the same way. -/
theorem assemble_eq_of_reorders (hname : d.name = d'.name)
    (hbranches : SourceOrder.Reorders Registered.line (Registered.Matches (SameNumber branch))
      d.branches d'.branches branch)
    (hsteps : SourceOrder.Reorders Registered.line (Registered.Matches (SameNumber branch))
      d.steps d'.steps step) : d.assemble = d'.assemble := by
  have hids := lookup_idTable_eq hbranches
  have hb := matches_orderedBranches hbranches
  have hs := matches_orderedSteps hsteps
  rw [assemble, assemble, takeBranches_orderedBranches, takeBranches_orderedBranches,
    ← branchIds_eq_of_matches hb 0, ← stepIds_eq_of_matches hs 1,
    mapM_eq_mapM_of_forall₂ ((forall₂_zip_zip hb _).imp fun x y hxy => ?_),
    mapM_eq_mapM_of_forall₂ ((forall₂_zip_zip hs _).imp fun x y hxy => ?_), hname]
  · show toStep d.idTable x.1 x.2 = toStep d'.idTable y.1 y.2
    rw [toStep_eq_of_matches hids hxy.1, hxy.2]
  · show toBranch d.idTable x.1 x.2 = toBranch d'.idTable y.1 y.2
    rw [toBranch_eq_of_matches hids hxy.1, hxy.2]

end

/-- **The order of registration does not matter.** Where two sequences of calls register the same
branch points and steps, up to their places, with guards that refer to the same branch points by the
numbers of their own sequence, and calls of one line keep their order, finishing the two drafts has
the same result: the same workflow, or the same flaw. -/
theorem finish_eq_of_reordered (name : String) {calls calls' : List Registration}
    (branch : Fin (branchCalls calls).length ≃ Fin (branchCalls calls').length)
    (step : Fin (stepCalls calls).length ≃ Fin (stepCalls calls').length)
    (hbranches : SourceOrder.Reorders Registered.line (Registered.Matches (SameNumber branch))
      (branchCalls calls) (branchCalls calls') branch)
    (hsteps : SourceOrder.Reorders Registered.line (Registered.Matches (SameNumber branch))
      (stepCalls calls) (stepCalls calls') step) :
    (ofRegistrations name calls).finish = (ofRegistrations name calls').finish := by
  have hassemble : (Draft.mk name (stepCalls calls) (branchCalls calls)).assemble =
      (Draft.mk name (stepCalls calls') (branchCalls calls')).assemble :=
    assemble_eq_of_reorders rfl hbranches hsteps
  rw [ofRegistrations_eq, ofRegistrations_eq, finish, finish, hassemble]

/-- The calls of the workflow that ships an order, met in another order. The wait and the decision
have each other's numbers, and the labels are set only once. -/
def shippingCallsInOrder : List Registration := [
  .decision "InStock" 10 .always,
  .step .childWorkflow "Restock" 10 (.when [(0, false)]),
  .signalWait "Paid" 20 "paid" "1h" (.when [(0, true)]),
  .step .activity "Reserve" 10 .always,
  .labels 1 "in time" "late",
  .step .activity "Ship" 30 (.when [(0, true), (1, false)]),
  .step (.externalSignal .dynamic) "Done" 40 .unknown]

/-- Where the branch points of the one sequence are in the other. -/
def shippingBranches :
    Fin (branchCalls shippingCalls).length ≃ Fin (branchCalls shippingCallsInOrder).length :=
  (Equiv.swap 0 1 : Fin 2 ≃ Fin 2)

/-- Where the steps of the one sequence are in the other. -/
def shippingSteps :
    Fin (stepCalls shippingCalls).length ≃ Fin (stepCalls shippingCallsInOrder).length :=
  ((Equiv.swap 0 2).trans (Equiv.swap 0 1) : Fin 4 ≃ Fin 4)

theorem finish_eq_of_reordered_shipping :
    SourceOrder.Reorders Registered.line (Registered.Matches (SameNumber shippingBranches))
        (branchCalls shippingCalls) (branchCalls shippingCallsInOrder) shippingBranches ∧
      SourceOrder.Reorders Registered.line (Registered.Matches (SameNumber shippingBranches))
        (stepCalls shippingCalls) (stepCalls shippingCallsInOrder) shippingSteps ∧
      (ofRegistrations "Shipping" shippingCalls).finish =
        (ofRegistrations "Shipping" shippingCallsInOrder).finish := by
  have hzero : SameNumber shippingBranches 0 1 := .inl ⟨by decide, by decide⟩
  have hone : SameNumber shippingBranches 1 0 := .inl ⟨by decide, by decide⟩
  have hbranches : SourceOrder.Reorders Registered.line
      (Registered.Matches (SameNumber shippingBranches)) (branchCalls shippingCalls)
      (branchCalls shippingCallsInOrder) shippingBranches := by
    constructor
    · intro i
      match i with
      | ⟨0, _⟩ => exact ⟨rfl, rfl, rfl, .when (.cons ⟨hone, rfl⟩ .nil)⟩
      | ⟨1, _⟩ => exact ⟨rfl, rfl, rfl, .always⟩
    · decide
  have hsteps : SourceOrder.Reorders Registered.line
      (Registered.Matches (SameNumber shippingBranches)) (stepCalls shippingCalls)
      (stepCalls shippingCallsInOrder) shippingSteps := by
    constructor
    · intro i
      match i with
      | ⟨0, _⟩ => exact ⟨rfl, rfl, rfl, .when (.cons ⟨hone, rfl⟩ (.cons ⟨hzero, rfl⟩ .nil))⟩
      | ⟨1, _⟩ => exact ⟨rfl, rfl, rfl, .when (.cons ⟨hone, rfl⟩ .nil)⟩
      | ⟨2, _⟩ => exact ⟨rfl, rfl, rfl, .always⟩
      | ⟨3, _⟩ => exact ⟨rfl, rfl, rfl, .unknown⟩
    · decide
  exact ⟨hbranches, hsteps, finish_eq_of_reordered _ _ _ hbranches hsteps⟩

end Draft

end WorkflowPaths
