import Mathlib.Data.List.Basic
import Mathlib.Data.List.TakeWhile
import WorkflowPaths.Text.Blank

/-!
# What stands between the blanks at the ends

Trimming a text finds its core: what is left when the blanks at the two ends are taken away, and
neither begins nor ends with one (`isCore_iff`).
-/

namespace WorkflowPaths.Text

/-- The characters in front that are to be dropped end where one stands that is not. -/
theorem dropWhile_append_eq {p : Char → Bool} {front cs : List Char}
    (hfront : ∀ c ∈ front, p c = true) (hhead : ∀ c ∈ cs.head?, p c = false) :
    (front ++ cs).dropWhile p = cs := by
  rw [List.dropWhile_append_of_pos hfront]
  cases cs with
  | nil => rfl
  | cons c r => simp [hhead c rfl]

/-- What stands between the blanks at the two ends of a text. -/
structure IsCore (cs core : List Char) : Prop where
  /-- Around it are blanks only. -/
  between : ∃ front back, cs = front ++ core ++ back ∧ (∀ c ∈ front, isBlank c = true) ∧
    ∀ c ∈ back, isBlank c = true
  /-- It does not begin with a blank. -/
  head : ∀ c ∈ core.head?, isBlank c = false
  /-- It does not end with a blank. -/
  last : ∀ c ∈ core.getLast?, isBlank c = false

theorem IsCore.trimChars_eq {cs core : List Char} (h : IsCore cs core) : trimChars cs = core := by
  obtain ⟨⟨front, back, rfl, hfront, hback⟩, hhead, hlast⟩ := h
  cases core with
  | nil =>
    rw [trimChars_eq_nil_iff, List.all_eq_true]
    simp only [List.append_nil, List.mem_append]
    rintro c (hc | hc)
    · exact hfront c hc
    · exact hback c hc
  | cons c r =>
    rw [trimChars, List.append_assoc, dropWhile_append_eq hfront (by simpa using hhead),
      List.reverse_append, dropWhile_append_eq (by simpa using hback), List.reverse_reverse]
    rwa [List.head?_reverse]

theorem head?_dropWhile_isBlank (cs : List Char) :
    ∀ c ∈ (cs.dropWhile isBlank).head?, isBlank c = false := by
  intro c hc
  have := List.head?_dropWhile_not isBlank cs
  rw [Option.mem_def.1 hc] at this
  simpa using this

theorem isCore_trimChars (cs : List Char) : IsCore cs (trimChars cs) := by
  -- Trimming takes the blanks off the front, and then off the back of what is left.
  obtain ⟨front, rest, rfl, hfront, hrest⟩ : ∃ front rest, cs = front ++ rest ∧
      (∀ c ∈ front, isBlank c = true) ∧ rest = cs.dropWhile isBlank :=
    ⟨_, _, List.takeWhile_append_dropWhile.symm, fun _ => List.mem_takeWhile_imp, rfl⟩
  have hcore : trimChars (front ++ rest) ++ (rest.reverse.takeWhile isBlank).reverse = rest := by
    rw [trimChars, ← hrest, ← List.reverse_append, List.takeWhile_append_dropWhile,
      List.reverse_reverse]
  refine ⟨⟨front, (rest.reverse.takeWhile isBlank).reverse, ?_, hfront, ?_⟩, ?_, ?_⟩
  · rw [List.append_assoc, hcore]
  · exact fun c hc => List.mem_takeWhile_imp (List.mem_reverse.1 hc)
  · intro c hc
    refine head?_dropWhile_isBlank (front ++ rest) c ?_
    rw [← hrest, ← hcore]
    exact List.mem_head?_append_of_mem_head? hc
  · intro c hc
    rw [trimChars, List.getLast?_reverse] at hc
    exact head?_dropWhile_isBlank _ c hc

theorem isCore_iff {cs core : List Char} : IsCore cs core ↔ trimChars cs = core := by
  constructor
  · exact IsCore.trimChars_eq
  · rintro rfl
    exact isCore_trimChars cs

end WorkflowPaths.Text
