import WorkflowPaths.Proofs.Text.UpperCase
import WorkflowPaths.Text.Words

/-!
# Names as words, place by place

Pairs of letters are looked for one behind the other, and two pairs never overlap: the second letter
of a pair is in upper case, so no pair begins with it. Therefore no boundary is missed
(`spaceWords_cons`), and what becomes of a character depends only on its place and on the character
right behind it (`capitalize_spaceWords_eq`).

The first character is written in upper case after the spaces are put in. This makes no new boundary,
since an upper case has no lower-case ASCII letter (`isSpaced_capitalize`). Texts without a boundary
whose first character is its own upper case are the ones that stay as they are
(`splitWords_eq_self_iff`), so showing a name as words twice is showing it once
(`splitWords_exact`).
-/

namespace WorkflowPaths.Text

/-- At place `i` stands a lower-case ASCII letter, and right behind it an upper-case one. -/
def IsBoundary (cs : List Char) (i : Nat) : Prop :=
  cs[i]?.any Char.isLower = true ∧ cs[i + 1]?.any Char.isUpper = true

instance (cs : List Char) (i : Nat) : Decidable (IsBoundary cs i) :=
  inferInstanceAs (Decidable (_ ∧ _))

/-- The text has no boundary. -/
def IsSpaced (cs : List Char) : Prop :=
  ∀ i, ¬ IsBoundary cs i

/-- What becomes of the character `c` at place `i` of a name with the characters `cs`: at the
beginning it is written in upper case, and a boundary has a space behind its first letter. -/
def shownAt (cs : List Char) (i : Nat) (c : Char) : List Char :=
  (if i = 0 then upperCase c else [c]) ++ if IsBoundary cs i then [' '] else []

/-! ### Boundaries -/

theorem not_isBoundary_nil (i : Nat) : ¬ IsBoundary [] i := by
  simp [IsBoundary]

theorem isBoundary_zero_iff {c : Char} {cs : List Char} :
    IsBoundary (c :: cs) 0 ↔ c.isLower = true ∧ cs.head?.any Char.isUpper = true := by
  simp [IsBoundary, List.head?_eq_getElem?]

@[simp]
theorem isBoundary_succ_iff {c : Char} {cs : List Char} {i : Nat} :
    IsBoundary (c :: cs) (i + 1) ↔ IsBoundary cs i :=
  Iff.rfl

theorem isSpaced_cons_iff {c : Char} {cs : List Char} :
    IsSpaced (c :: cs) ↔ ¬ IsBoundary (c :: cs) 0 ∧ IsSpaced cs := by
  constructor
  · intro h
    exact ⟨h 0, fun i => h (i + 1)⟩
  · rintro ⟨hzero, hsucc⟩ i
    cases i with
    | zero => exact hzero
    | succ i => exact hsucc i

/-- Only a lower-case letter can begin a boundary. -/
theorem isSpaced_append {front cs : List Char} (hfront : ∀ c ∈ front, c.isLower = false)
    (hcs : IsSpaced cs) : IsSpaced (front ++ cs) := by
  induction front with
  | nil => exact hcs
  | cons c r ih =>
    obtain ⟨hc, hr⟩ := List.forall_mem_cons.1 hfront
    rw [List.cons_append, isSpaced_cons_iff, isBoundary_zero_iff]
    exact ⟨by simp [hc], ih hr⟩

/-! ### Spaces -/

theorem spaceWords_cons_of_not_isLower {c : Char} (h : c.isLower = false) (cs : List Char) :
    spaceWords (c :: cs) = c :: spaceWords cs := by
  cases cs with
  | nil => rfl
  | cons b r => simp [spaceWords, h]

/-- The search may as well go on at the second letter of a pair, and so at every place. -/
theorem spaceWords_cons (c : Char) (cs : List Char) :
    spaceWords (c :: cs) = c :: (if IsBoundary (c :: cs) 0 then [' '] else []) ++ spaceWords cs := by
  cases cs with
  | nil => simp [spaceWords, isBoundary_zero_iff]
  | cons b r =>
    by_cases hpair : c.isLower = true ∧ b.isUpper = true
    · -- behind the pair the search passes over `b`, which begins no pair itself
      have hb : b.isLower = false := isLower_eq_false_of_isUpper hpair.2
      rw [spaceWords_cons_of_not_isLower hb]
      simp [spaceWords, isBoundary_zero_iff, hpair]
    · simp [spaceWords, isBoundary_zero_iff, hpair]

theorem head?_spaceWords (cs : List Char) : (spaceWords cs).head? = cs.head? := by
  cases cs with
  | nil => rfl
  | cons c r => rw [spaceWords_cons, List.cons_append, List.head?_cons, List.head?_cons]

/-- The spaces leave no boundary. -/
theorem isSpaced_spaceWords (cs : List Char) : IsSpaced (spaceWords cs) := by
  induction cs with
  | nil => exact not_isBoundary_nil
  | cons c r ih =>
    rw [spaceWords_cons]
    by_cases hboundary : IsBoundary (c :: r) 0
    · -- the space itself is neither a lower-case nor an upper-case letter
      rw [if_pos hboundary, List.cons_append, List.singleton_append, isSpaced_cons_iff,
        isSpaced_cons_iff, isBoundary_zero_iff, isBoundary_zero_iff]
      exact ⟨by simp, by simp, ih⟩
    · rw [if_neg hboundary, List.cons_append, List.nil_append, isSpaced_cons_iff,
        isBoundary_zero_iff, head?_spaceWords, ← isBoundary_zero_iff]
      exact ⟨hboundary, ih⟩

theorem spaceWords_of_isSpaced {cs : List Char} (h : IsSpaced cs) : spaceWords cs = cs := by
  induction cs with
  | nil => rfl
  | cons c r ih =>
    obtain ⟨hzero, hr⟩ := isSpaced_cons_iff.1 h
    rw [spaceWords_cons, if_neg hzero, ih hr, List.cons_append, List.nil_append]

/-- Every character stays, and exactly the boundaries get a space. -/
theorem spaceWords_eq (cs : List Char) :
    spaceWords cs =
      (cs.mapIdx fun i c => c :: if IsBoundary cs i then [' '] else []).flatten := by
  induction cs with
  | nil => rfl
  | cons c r ih =>
    rw [spaceWords_cons, ih, List.mapIdx_cons, List.flatten_cons]
    simp only [isBoundary_succ_iff]

/-! ### The first character -/

theorem isSpaced_capitalize {cs : List Char} (h : IsSpaced cs) : IsSpaced (capitalize cs) := by
  cases cs with
  | nil => exact h
  | cons c r =>
    exact isSpaced_append (fun _ => isLower_eq_false_of_mem_upperCase) (isSpaced_cons_iff.1 h).2

theorem capitalize_eq_self_iff {cs : List Char} :
    capitalize cs = cs ↔ ∀ c ∈ cs.head?, upperCase c = [c] := by
  cases cs with
  | nil => simp [capitalize]
  | cons c r =>
    rw [capitalize, ← List.singleton_append, List.append_left_inj]
    simp

theorem capitalize_capitalize (cs : List Char) : capitalize (capitalize cs) = capitalize cs := by
  cases cs with
  | nil => rfl
  | cons c r =>
    obtain ⟨d, l, hc, hd⟩ := exists_upperCase_eq_cons c
    rw [capitalize_eq_self_iff, capitalize, hc]
    simpa using hd

theorem shownAt_succ (c : Char) (cs : List Char) (i : Nat) :
    shownAt (c :: cs) (i + 1) = fun b => b :: if IsBoundary cs i then [' '] else [] := by
  funext b
  rw [shownAt, if_neg (Nat.succ_ne_zero i), List.singleton_append]
  simp only [isBoundary_succ_iff]

theorem capitalize_spaceWords_eq (cs : List Char) :
    capitalize (spaceWords cs) = (cs.mapIdx (shownAt cs)).flatten := by
  cases cs with
  | nil => rfl
  | cons c r =>
    rw [spaceWords_cons, List.cons_append, capitalize, spaceWords_eq, List.mapIdx_cons,
      List.flatten_cons, shownAt, if_pos rfl, List.append_assoc]
    simp only [shownAt_succ]

/-! ### Words -/

/-- The names that are words already. -/
theorem splitWords_eq_self_iff {s : String} :
    splitWords s = s ↔
      IsSpaced s.toList ∧ ∀ c ∈ s.toList.head?, upperCase c = [c] := by
  rw [← capitalize_eq_self_iff, ← String.toList_inj, splitWords, String.toList_ofList]
  constructor
  · intro h
    have hspaced : IsSpaced s.toList := h ▸ isSpaced_capitalize (isSpaced_spaceWords s.toList)
    rw [spaceWords_of_isSpaced hspaced] at h
    exact ⟨hspaced, h⟩
  · rintro ⟨hspaced, hfirst⟩
    rw [spaceWords_of_isSpaced hspaced, hfirst]

/-- A name that is shown as words has no boundary left. Its characters are those of the name, the
first one in upper case, with one space at every boundary of the name. Showing it as words again
changes nothing. -/
theorem splitWords_exact (name : String) :
    (∀ i, ¬ IsBoundary (splitWords name).toList i) ∧
    (splitWords name).toList = (name.toList.mapIdx (shownAt name.toList)).flatten ∧
    splitWords (splitWords name) = splitWords name := by
  have hchars : (splitWords name).toList = capitalize (spaceWords name.toList) :=
    String.toList_ofList
  have hspaced : IsSpaced (splitWords name).toList := by
    rw [hchars]
    exact isSpaced_capitalize (isSpaced_spaceWords name.toList)
  refine ⟨hspaced, ?_, ?_⟩
  · rw [hchars, capitalize_spaceWords_eq]
  · rw [splitWords_eq_self_iff, ← capitalize_eq_self_iff, hchars]
    exact ⟨hchars ▸ hspaced, capitalize_capitalize _⟩

example : splitWords "ßaBcDeF" = "SSa Bc De F" := by decide +kernel

end WorkflowPaths.Text
