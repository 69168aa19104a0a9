import Mathlib.Data.List.FinRange
import Mathlib.Logic.Equiv.Defs
import WorkflowPaths.SourceOrder

/-!
# Stable sorting

What it means that a list is another one, stably sorted by line, without the sort
(`StablySorted`), and what the sort does not depend on: the order of the list, as long as the
elements of one line keep theirs (`Rearranges.sort_eq`).

The sort is also seen as a row of places (`order`). The row of places is what a reordering of the
list acts on: where elements of one line keep their order, the places of the reordered list in
source order are those that the places of the list are moved to (`Reorders.order_eq_map`).
-/

namespace WorkflowPaths.SourceOrder

variable {α β : Type}

/-- `r` is `l`, stably sorted by line. -/
structure StablySorted (line : α → UInt32) (l r : List α) : Prop where
  /-- Nothing is lost or repeated. -/
  perm : r.Perm l
  /-- The lines do not fall. -/
  ordered : r.Pairwise (line · ≤ line ·)
  /-- Elements of one line keep their order. -/
  stable : ∀ n, r.filter (line · == n) = l.filter (line · == n)

theorem stablySorted_sort (line : α → UInt32) (l : List α) : StablySorted line l (sort line l) :=
  ⟨perm_sort line l, pairwise_sort line l, fun n => filter_sort line n l⟩

/-- A list that is in source order stays as it is. -/
theorem sort_eq_self {line : α → UInt32} {l : List α} (h : l.Pairwise (line · ≤ line ·)) :
    sort line l = l := by
  induction l with
  | nil => rfl
  | cons a r ih =>
    obtain ⟨ha, hr⟩ := List.pairwise_cons.1 h
    rw [sort, ih hr, insert_of_forall_le ha]

/-- Elements of one line that follow each other in a list follow each other in the sorted list. -/
theorem sublist_sort_of_sublist {line : α → UInt32} {a b : α} {l : List α} (h : [a, b].Sublist l)
    (hline : line a = line b) : [a, b].Sublist (sort line l) := by
  have hfilter := h.filter (line · == line b)
  rw [← filter_sort line (line b) l] at hfilter
  simp only [List.filter_cons, hline, beq_self_eq_true, if_true, List.filter_nil] at hfilter
  exact hfilter.trans List.filter_sublist

theorem insert_map (line : β → UInt32) (f : α → β) (a : α) (l : List α) :
    insert line (f a) (l.map f) = (insert (fun x => line (f x)) a l).map f := by
  induction l with
  | nil => rfl
  | cons b r ih =>
    rw [List.map_cons, insert, insert, ih]
    split <;> rfl

theorem sort_map (line : β → UInt32) (f : α → β) (l : List α) :
    sort line (l.map f) = (sort (fun x => line (f x)) l).map f := by
  induction l with
  | nil => rfl
  | cons a r ih => rw [List.map_cons, sort, ih, insert_map, sort]

/-! ### Lists with the same elements on each line -/

/-- `l'` has the elements of `l` in another order, in which the elements of one line keep theirs. -/
structure Rearranges (line : α → UInt32) (l l' : List α) : Prop where
  /-- Nothing is lost or repeated. -/
  perm : l'.Perm l
  /-- Elements of one line keep their order. -/
  stable : ∀ n, l'.filter (line · == n) = l.filter (line · == n)

theorem rearranges_sort (line : α → UInt32) (l : List α) : Rearranges line l (sort line l) :=
  ⟨perm_sort line l, fun n => filter_sort line n l⟩

theorem Rearranges.symm {line : α → UInt32} {l l' : List α} (h : Rearranges line l l') :
    Rearranges line l' l :=
  ⟨h.perm.symm, fun n => (h.stable n).symm⟩

theorem Rearranges.map {line : β → UInt32} (f : α → β) {l l' : List α}
    (h : Rearranges (fun a => line (f a)) l l') : Rearranges line (l.map f) (l'.map f) := by
  refine ⟨h.perm.map f, fun n => ?_⟩
  rw [List.filter_map, List.filter_map]
  exact congrArg (List.map f) (h.stable n)

theorem Rearranges.append {line : α → UInt32} {l l' r r' : List α} (hl : Rearranges line l l')
    (hr : Rearranges line r r') : Rearranges line (l ++ r) (l' ++ r') := by
  refine ⟨hl.perm.append hr.perm, fun n => ?_⟩
  rw [List.filter_append, List.filter_append, hl.stable, hr.stable]

theorem mem_iff_of_filter_eq {line : α → UInt32} {l l' : List α}
    (h : ∀ n, l'.filter (line · == n) = l.filter (line · == n)) {x : α} : x ∈ l' ↔ x ∈ l := by
  have hx : x ∈ l'.filter (line · == line x) ↔ x ∈ l.filter (line · == line x) := by
    rw [h (line x)]
  simpa using hx

/-- A list in source order is determined by what it has on each line. -/
theorem eq_of_filter_eq {line : α → UInt32} {l l' : List α} (hl : l.Pairwise (line · ≤ line ·))
    (hl' : l'.Pairwise (line · ≤ line ·))
    (h : ∀ n, l'.filter (line · == n) = l.filter (line · == n)) : l' = l := by
  induction l generalizing l' with
  | nil =>
    apply List.eq_nil_iff_forall_not_mem.2
    intro x hx
    exact List.not_mem_nil ((mem_iff_of_filter_eq h).1 hx)
  | cons a r ih =>
    cases l' with
    | nil => exact absurd ((mem_iff_of_filter_eq h).2 List.mem_cons_self) List.not_mem_nil
    | cons b r' =>
      obtain ⟨ha, hr⟩ := List.pairwise_cons.1 hl
      obtain ⟨hb, hr'⟩ := List.pairwise_cons.1 hl'
      -- Both heads are on the first line that there is, and the first of that line.
      have hab : line a ≤ line b := by
        rcases List.mem_cons.1 ((mem_iff_of_filter_eq h).1 List.mem_cons_self) with rfl | hmem
        · exact UInt32.le_refl _
        · exact ha b hmem
      have hba : line b ≤ line a := by
        rcases List.mem_cons.1 ((mem_iff_of_filter_eq h).2 List.mem_cons_self) with rfl | hmem
        · exact UInt32.le_refl _
        · exact hb a hmem
      have hline : line b = line a := UInt32.le_antisymm hba hab
      have hheads := h (line a)
      rw [List.filter_cons_of_pos (by simp [hline]), List.filter_cons_of_pos (by simp)] at hheads
      obtain ⟨rfl, -⟩ := List.cons.inj hheads
      have htails (n : UInt32) : r'.filter (line · == n) = r.filter (line · == n) := by
        have hn := h n
        by_cases hbn : line b = n
        · simpa [hbn] using hn
        · simpa [hbn] using hn
      rw [ih hr hr' htails]

/-- There is one way to sort a list stably. -/
theorem stablySorted_iff {line : α → UInt32} {l r : List α} :
    StablySorted line l r ↔ sort line l = r := by
  constructor
  · intro h
    refine eq_of_filter_eq h.ordered (pairwise_sort line l) fun n => ?_
    rw [filter_sort, h.stable]
  · rintro rfl
    exact stablySorted_sort line l

/-- Rearranging a list does not change its source order. -/
theorem Rearranges.sort_eq {line : α → UInt32} {l l' : List α} (h : Rearranges line l l') :
    sort line l' = sort line l := by
  refine eq_of_filter_eq (pairwise_sort line l) (pairwise_sort line l') fun n => ?_
  rw [filter_sort, filter_sort, h.stable]

/-! ### Places in source order -/

/-- The places of a list in source order. -/
def order (line : α → UInt32) (l : List α) : List (Fin l.length) :=
  sort (fun i => line l[i]) (List.finRange l.length)

theorem order_perm (line : α → UInt32) (l : List α) :
    (order line l).Perm (List.finRange l.length) :=
  perm_sort _ _

theorem sort_eq_map_order (line : α → UInt32) (l : List α) :
    sort line l = (order line l).map fun i => l[i] := by
  rw [order, ← sort_map line fun i : Fin l.length => l[i]]
  exact congrArg (sort line) (List.map_getElem_finRange l).symm

theorem zipIdx_eq_map_finRange (l : List α) :
    l.zipIdx = (List.finRange l.length).map fun i => (l[i], i.val) := by
  apply List.ext_getElem
  · simp
  · intro i h₁ h₂
    simp

/-- Elements sorted together with their places. -/
theorem sort_zipIdx (line : α → UInt32) (l : List α) :
    sort (fun x => line x.1) l.zipIdx = (order line l).map fun i => (l[i], i.val) := by
  rw [zipIdx_eq_map_finRange, sort_map]
  rfl

/-- The places are sorted by line, and on one line by themselves. -/
theorem pairwise_order (line : α → UInt32) (l : List α) :
    (order line l).Pairwise fun i j =>
      line l[i] < line l[j] ∨ line l[i] = line l[j] ∧ i < j :=
  pairwise_sort_of_pairwise _ (List.pairwise_lt_finRange l.length)

/-- `l'` has the elements of `l`, up to `same`, at other places, and elements of one line keep their
order. -/
structure Reorders (line : α → UInt32) (same : α → α → Prop) (l l' : List α)
    (place : Fin l.length ≃ Fin l'.length) : Prop where
  /-- Each element is found at its new place. -/
  same : ∀ i, same l[i] l'[place i]
  /-- Elements of one line keep their order. -/
  keeps_lines : ∀ i j, i < j → line l[i] = line l[j] → place i < place j

/-- **Sorting undoes a reordering.** The places of a reordered list in source order are those that
the places of the list itself are moved to. -/
theorem Reorders.order_eq_map {line : α → UInt32} {same : α → α → Prop} {l l' : List α}
    {place : Fin l.length ≃ Fin l'.length} (h : Reorders line same l l' place)
    (hline : ∀ a b, same a b → line b = line a) : order line l' = (order line l).map place := by
  have hsorted : ((order line l).map place).Pairwise fun i j =>
      line l'[i] < line l'[j] ∨ line l'[i] = line l'[j] ∧ i < j := by
    refine List.pairwise_map.2 ((pairwise_order line l).imp fun {i j} hij => ?_)
    rw [hline _ _ (h.same i), hline _ _ (h.same j)]
    exact hij.imp_right fun hij => ⟨hij.1, h.keeps_lines i j hij.2 hij.1⟩
  have hperm : (order line l').Perm ((order line l).map place) := by
    refine (order_perm line l').trans ?_
    refine (List.perm_ext_iff_of_nodup (List.nodup_finRange _) ?_).2 fun i => ?_
    · exact (((order_perm line l).nodup_iff.2 (List.nodup_finRange _)).map place.injective)
    · have himage : i ∈ (order line l).map place :=
        List.mem_map.2 ⟨place.symm i, (order_perm line l).mem_iff.2 (List.mem_finRange _), by simp⟩
      simp [himage]
  -- In both lists the places go up by line and then by place, and there is only one such order.
  refine List.Perm.eq_of_pairwise (fun i j _ _ hij hji => ?_) (pairwise_order line l') hsorted
    hperm
  rcases hij with hij | ⟨heq, hij⟩ <;> rcases hji with hji | ⟨heq', hji⟩
  · exact absurd hji (UInt32.lt_asymm hij)
  · exact absurd hij (heq' ▸ UInt32.lt_irrefl _)
  · exact absurd hji (heq ▸ UInt32.lt_irrefl _)
  · exact absurd hji (lt_asymm hij)

end WorkflowPaths.SourceOrder
