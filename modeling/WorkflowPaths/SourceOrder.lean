/-!
# Source order

Calls are put in the order of their source lines; calls on the same line keep the order they
were given in. The sort inserts the elements one by one, from the last to the first, each before
all elements that are not on an earlier line, which makes it stable.

* `perm_sort`: sorting loses and repeats nothing.
* `pairwise_sort`: the lines of a sorted list do not fall.
* `filter_sort`: the elements of one line keep their order.
* `pairwise_sort_of_pairwise`: what holds between the elements of a list in order holds after
  sorting, for elements of one line.
* `sort_concat`: an element at the end that is on no earlier line than the others stays there.
* `sort_filter`: leaving elements out before sorting is leaving them out afterwards.
-/

namespace WorkflowPaths.SourceOrder

variable {α : Type}

/-- Inserts an element before the first one that is not on an earlier line. -/
def insert (line : α → UInt32) (a : α) : List α → List α
  | [] => [a]
  | b :: r => if line a ≤ line b then a :: b :: r else b :: insert line a r

/-- Sorts by line; elements of one line keep their order. -/
def sort (line : α → UInt32) : List α → List α
  | [] => []
  | a :: r => insert line a (sort line r)

theorem perm_insert (line : α → UInt32) (a : α) (l : List α) :
    (insert line a l).Perm (a :: l) := by
  induction l with
  | nil => exact .refl _
  | cons b r ih =>
    rw [insert]
    split
    · exact .refl _
    · exact (ih.cons b).trans (.swap a b r)

theorem perm_sort (line : α → UInt32) (l : List α) : (sort line l).Perm l := by
  induction l with
  | nil => exact .refl _
  | cons a r ih => exact (perm_insert line a _).trans (ih.cons a)

theorem mem_insert {line : α → UInt32} {a x : α} {l : List α} :
    x ∈ insert line a l ↔ x = a ∨ x ∈ l := by
  rw [(perm_insert line a l).mem_iff, List.mem_cons]

theorem pairwise_insert (line : α → UInt32) (a : α) {l : List α}
    (h : l.Pairwise (line · ≤ line ·)) : (insert line a l).Pairwise (line · ≤ line ·) := by
  induction l with
  | nil => simp [insert]
  | cons b r ih =>
    obtain ⟨hb, hr⟩ := List.pairwise_cons.1 h
    rw [insert]
    split
    next hab =>
      refine List.pairwise_cons.2 ⟨fun x hx => ?_, h⟩
      rcases List.mem_cons.1 hx with rfl | hx
      · exact hab
      · exact UInt32.le_trans hab (hb x hx)
    next hab =>
      refine List.pairwise_cons.2 ⟨fun x hx => ?_, ih hr⟩
      rcases mem_insert.1 hx with rfl | hx
      · exact (UInt32.le_total _ _).resolve_left hab
      · exact hb x hx

theorem pairwise_sort (line : α → UInt32) (l : List α) :
    (sort line l).Pairwise (line · ≤ line ·) := by
  induction l with
  | nil => exact .nil
  | cons a r ih => exact pairwise_insert line a ih

theorem filter_insert (line : α → UInt32) (n : UInt32) (a : α) (l : List α) :
    (insert line a l).filter (line · == n) = (a :: l).filter (line · == n) := by
  induction l with
  | nil => rfl
  | cons b r ih =>
    rw [insert]
    split
    · rfl
    next hab =>
      -- `a` passes `b`, so the two are on different lines.
      rw [List.filter_cons, ih]
      by_cases ha : line a = n
      · have hb : line b ≠ n := fun hb => hab (ha ▸ hb ▸ UInt32.le_refl _)
        simp [ha, hb]
      · simp [List.filter_cons, ha]

theorem filter_sort (line : α → UInt32) (n : UInt32) (l : List α) :
    (sort line l).filter (line · == n) = l.filter (line · == n) := by
  induction l with
  | nil => rfl
  | cons a r ih => rw [sort, filter_insert, List.filter_cons, List.filter_cons, ih]

/-- Elements of one line that follow each other in the sorted list follow each other in the list
itself. -/
theorem sublist_of_sublist_sort {line : α → UInt32} {a b : α} {l : List α}
    (h : [a, b].Sublist (sort line l)) (hline : line a = line b) : [a, b].Sublist l := by
  have hfilter := h.filter (line · == line b)
  rw [filter_sort] at hfilter
  simp only [List.filter_cons, hline, beq_self_eq_true, if_true, List.filter_nil] at hfilter
  exact hfilter.trans List.filter_sublist

theorem pairwise_sort_of_pairwise (line : α → UInt32) {R : α → α → Prop} {l : List α}
    (h : l.Pairwise R) :
    (sort line l).Pairwise fun a b => line a < line b ∨ line a = line b ∧ R a b := by
  refine List.pairwise_iff_forall_sublist.2 fun {a b} hab => ?_
  have hle : line a ≤ line b := List.pairwise_iff_forall_sublist.1 (pairwise_sort line l) hab
  by_cases hline : line a = line b
  · exact .inr ⟨hline, List.pairwise_iff_forall_sublist.1 h (sublist_of_sublist_sort hab hline)⟩
  · exact .inl (UInt32.lt_of_le_of_ne hle hline)

theorem insert_concat {line : α → UInt32} {a z : α} (h : line a ≤ line z) (l : List α) :
    insert line a (l ++ [z]) = insert line a l ++ [z] := by
  induction l with
  | nil => simp [insert, h]
  | cons b r ih =>
    rw [List.cons_append, insert, insert, ih]
    split <;> rfl

theorem sort_concat {line : α → UInt32} {z : α} {l : List α} (h : ∀ a ∈ l, line a ≤ line z) :
    sort line (l ++ [z]) = sort line l ++ [z] := by
  induction l with
  | nil => rfl
  | cons a r ih =>
    obtain ⟨ha, hr⟩ := List.forall_mem_cons.1 h
    rw [List.cons_append, sort, ih hr, insert_concat ha, sort]

theorem insert_of_forall_le {line : α → UInt32} {a : α} {l : List α}
    (h : ∀ b ∈ l, line a ≤ line b) : insert line a l = a :: l := by
  cases l with
  | nil => rfl
  | cons b r => rw [insert, if_pos (h b List.mem_cons_self)]

/-- An element finds its place in a sorted list whether or not some of the others are left out. -/
theorem insert_filter {line : α → UInt32} {P : α → Bool} {a : α} {l : List α}
    (h : l.Pairwise (line · ≤ line ·)) (ha : P a = true) :
    insert line a (l.filter P) = (insert line a l).filter P := by
  induction l with
  | nil => simp [insert, ha]
  | cons b r ih =>
    obtain ⟨hb, hr⟩ := List.pairwise_cons.1 h
    rw [insert]
    split
    next hab =>
      rw [List.filter_cons_of_pos ha]
      refine insert_of_forall_le fun x hx => ?_
      rcases List.mem_cons.1 (List.mem_filter.1 hx).1 with rfl | hxr
      · exact hab
      · exact UInt32.le_trans hab (hb x hxr)
    next hab =>
      rw [List.filter_cons, List.filter_cons, ← ih hr]
      split
      · rw [insert, if_neg hab]
      · rfl

theorem filter_insert_of_neg {line : α → UInt32} {P : α → Bool} {a : α} (ha : P a = false)
    (l : List α) : (insert line a l).filter P = l.filter P := by
  induction l with
  | nil => simp [insert, ha]
  | cons b r ih =>
    rw [insert]
    split
    · simp [ha]
    · rw [List.filter_cons, List.filter_cons, ih]

theorem sort_filter (line : α → UInt32) (P : α → Bool) (l : List α) :
    sort line (l.filter P) = (sort line l).filter P := by
  induction l with
  | nil => rfl
  | cons a r ih =>
    cases ha : P a with
    | true =>
      rw [List.filter_cons_of_pos ha, sort, sort, ih, insert_filter (pairwise_sort line r) ha]
    | false =>
      rw [List.filter_cons_of_neg (by simp [ha]), sort, ih, filter_insert_of_neg ha]

end WorkflowPaths.SourceOrder
