/-!
# Decimal numerals

The texts that stand for natural numbers on the command line and in references to source lines.

A number written behind a separator can be told from what stands before it, whatever that is
(`separated_inj`): a numeral holds digits only.
-/

namespace WorkflowPaths.Text

/-- The number that a list of decimal digits writes; `none` for the empty list and for a list
with any other character. -/
def decimal? (cs : List Char) : Option Nat :=
  if cs.isEmpty || !cs.all Char.isDigit then none else some (Nat.ofDigitChars 10 cs 0)

/-- A number below `bound`, written in decimal digits with at most one plus sign in front. -/
def boundedNumeral? (bound : Nat) (s : String) : Option Nat :=
  let digits := match s.toList with
    | '+' :: r => r
    | cs => cs
  (decimal? digits).filter (· < bound)

/-- The characters write the number in decimal digits, with at most one plus sign in front. -/
def Writes (cs : List Char) (n : Nat) : Prop :=
  ∃ digits, (cs = digits ∨ cs = '+' :: digits) ∧ digits ≠ [] ∧ (∀ c ∈ digits, c.isDigit) ∧
    Nat.ofDigitChars 10 digits 0 = n

theorem decimal?_eq_some_iff {cs : List Char} {n : Nat} :
    decimal? cs = some n ↔ cs ≠ [] ∧ (∀ c ∈ cs, c.isDigit) ∧ Nat.ofDigitChars 10 cs 0 = n := by
  by_cases hnil : cs = []
  · simp [decimal?, hnil]
  · simp [decimal?, hnil]

theorem boundedNumeral?_eq_some_iff {bound n : Nat} {s : String} :
    boundedNumeral? bound s = some n ↔ n < bound ∧ Writes s.toList n := by
  simp only [boundedNumeral?, Option.filter_eq_some_iff, decide_eq_true_eq]
  rw [and_comm, and_congr_right_iff]
  intro _
  split
  next r hs =>
    rw [decimal?_eq_some_iff, hs]
    constructor
    · intro h
      exact ⟨r, .inr rfl, h⟩
    · rintro ⟨digits, rfl | hdigits, h⟩
      · exact absurd (h.2.1 '+' List.mem_cons_self) (by decide)
      · cases hdigits
        exact h
  next hplus =>
    rw [decimal?_eq_some_iff]
    constructor
    · intro h
      exact ⟨s.toList, .inl rfl, h⟩
    · rintro ⟨digits, hdigits | hdigits, h⟩
      · exact hdigits ▸ h
      · exact absurd hdigits (hplus digits)

theorem Writes.notMem {c : Char} {cs : List Char} {n : Nat} (h : Writes cs n)
    (hdigit : c.isDigit = false) (hplus : c ≠ '+') : c ∉ cs := by
  obtain ⟨digits, hcs, -, hall, -⟩ := h
  intro hmem
  have hdigits : c ∈ digits := by
    rcases hcs with rfl | rfl
    · exact hmem
    · exact (List.mem_cons.1 hmem).resolve_left hplus
  rw [hall c hdigits] at hdigit
  cases hdigit

theorem notMem_toDigits {c : Char} (hc : c.isDigit = false) (n : Nat) :
    c ∉ Nat.toDigits 10 n := by
  intro hmem
  rw [Nat.isDigit_of_mem_toDigits (by decide) (by decide) hmem] at hc
  cases hc

theorem toDigits_inj {m n : Nat} : Nat.toDigits 10 m = Nat.toDigits 10 n ↔ m = n := by
  constructor
  · intro h
    rw [← @Nat.ofDigitChars_ten_toDigits m, h, Nat.ofDigitChars_ten_toDigits]
  · rintro rfl
    rfl

/-- The last separator of a text divides it in one way. -/
theorem separated_inj {separator : Char} {xs ys ds es : List Char} (hds : separator ∉ ds)
    (hes : separator ∉ es) :
    xs ++ separator :: ds = ys ++ separator :: es ↔ xs = ys ∧ ds = es := by
  constructor
  · intro h
    rcases List.append_eq_append_iff.1 h with ⟨as, rfl, hrest⟩ | ⟨as, rfl, hrest⟩
    · cases as with
      | nil => exact ⟨(List.append_nil xs).symm, List.tail_eq_of_cons_eq hrest⟩
      | cons a as => exact absurd (by rw [List.tail_eq_of_cons_eq hrest]; simp) hds
    · cases as with
      | nil => exact ⟨List.append_nil ys, (List.tail_eq_of_cons_eq hrest).symm⟩
      | cons a as => exact absurd (by rw [List.tail_eq_of_cons_eq hrest]; simp) hes
  · rintro ⟨rfl, rfl⟩
    rfl

end WorkflowPaths.Text
