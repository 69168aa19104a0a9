import WorkflowPaths.Text.UpperCase

/-!
# What upper case is made of

The upper case of a code point is found in the table of expansions or on a run, and a code point that
has no other upper case is its own (`upperCaseCode_cases`). Two facts about the data follow:

* an upper case has no lower-case ASCII letter (`isLower_eq_false_of_mem_upperCase`);
* it begins with a character that is its own upper case (`exists_upperCase_eq_cons`).
-/

namespace WorkflowPaths

/-! ### ASCII letters -/

theorem isUpper_iff_toNat {c : Char} : c.isUpper = true ↔ 65 ≤ c.toNat ∧ c.toNat ≤ 90 :=
  decide_eq_true_iff.trans (and_congr UInt32.le_iff_toNat_le UInt32.le_iff_toNat_le)

theorem isLower_iff_toNat {c : Char} : c.isLower = true ↔ 97 ≤ c.toNat ∧ c.toNat ≤ 122 := by
  have hval : c.isLower = true ↔ 'a'.val ≤ c.val ∧ c.val ≤ 'z'.val :=
    Bool.and_eq_true_iff.trans (and_congr decide_eq_true_iff decide_eq_true_iff)
  rw [hval, UInt32.le_iff_toNat_le, UInt32.le_iff_toNat_le]
  rfl

theorem isUpper_eq_false_of_isLower {c : Char} (h : c.isLower = true) : c.isUpper = false := by
  rw [← Bool.not_eq_true, isUpper_iff_toNat]
  have := isLower_iff_toNat.1 h
  omega

theorem isLower_eq_false_of_isUpper {c : Char} (h : c.isUpper = true) : c.isLower = false := by
  rw [← Bool.not_eq_true, isLower_iff_toNat]
  have := isUpper_iff_toNat.1 h
  omega

namespace Text

/-- A number that is no code point stands for the character zero. -/
theorem toNat_ofNat_eq_or (n : Nat) : (Char.ofNat n).toNat = n ∨ (Char.ofNat n).toNat = 0 := by
  by_cases hvalid : n.isValidChar
  · left
    rw [Char.ofNat, dif_pos hvalid]
    rfl
  · right
    rw [Char.ofNat, dif_neg hvalid]
    rfl

/-! ### Sets of numbers as bits -/

/-- The numbers of a list as the bits of one number. -/
def bitSet : List Nat → Nat
  | [] => 0
  | n :: l => 1 <<< n ||| bitSet l

theorem testBit_bitSet {l : List Nat} {n : Nat} : (bitSet l).testBit n = true ↔ n ∈ l := by
  induction l with
  | nil => simp [bitSet]
  | cons m l ih =>
    rw [bitSet, Nat.testBit_or, Bool.or_eq_true, ih, List.mem_cons, Nat.one_shiftLeft,
      Nat.testBit_two_pow, decide_eq_true_eq, eq_comm]

/-- Lists whose sets of bits do not meet have no member in common. -/
theorem notMem_of_bitSet_land {l l' : List Nat} (h : bitSet l &&& bitSet l' = 0) {n : Nat}
    (hn : n ∈ l) : n ∉ l' := by
  intro hn'
  have hbit : (bitSet l &&& bitSet l').testBit n = true := by
    rw [Nat.testBit_and, testBit_bitSet.2 hn, testBit_bitSet.2 hn', Bool.and_self]
  rw [h, Nat.zero_testBit] at hbit
  cases hbit

/-! ### The data -/

namespace CaseRun

/-- The code points of the run. -/
def codes (r : CaseRun) : List Nat :=
  (List.range r.count).map fun k => r.first + k * r.stride

/-- The upper cases of the code points of the run. -/
def images (r : CaseRun) : List Nat :=
  (List.range r.count).map fun k => r.image + k * r.stride

theorem image?_eq_some_iff {r : CaseRun} (hstride : 0 < r.stride) {n m : Nat} :
    r.image? n = some m ↔
      ∃ k < r.count, n = r.first + k * r.stride ∧ m = r.image + k * r.stride := by
  simp only [image?, Option.ite_none_right_eq_some, Bool.and_eq_true, decide_eq_true_eq, beq_iff_eq,
    Option.some.injEq]
  constructor
  · rintro ⟨⟨⟨hfirst, hmod⟩, hcount⟩, rfl⟩
    have hk : (n - r.first) / r.stride * r.stride = n - r.first :=
      Nat.div_mul_cancel (Nat.dvd_of_mod_eq_zero hmod)
    refine ⟨(n - r.first) / r.stride, hcount, ?_, ?_⟩
    · omega
    · rw [hk]
  · rintro ⟨k, hk, rfl, rfl⟩
    rw [Nat.add_sub_cancel_left, Nat.mul_mod_left, Nat.mul_div_cancel _ hstride]
    exact ⟨⟨⟨Nat.le_add_right _ _, rfl⟩, hk⟩, rfl⟩

end CaseRun

/-- The code points that have another upper case than themselves. -/
def casedCodes : List Nat :=
  caseExpansions.map (·.1) ++ caseRuns.flatMap CaseRun.codes

/-- The code points that upper cases in the data begin with. -/
def leadingCodes : List Nat :=
  caseExpansions.flatMap (·.2.take 1) ++ caseRuns.flatMap CaseRun.images

theorem stride_pos {r : CaseRun} (hr : r ∈ caseRuns) : 0 < r.stride := by
  have hall : ∀ r ∈ caseRuns, 0 < r.stride := by decide +kernel
  exact hall r hr

/-- What the upper case of a code point can be. -/
theorem upperCaseCode_cases (n : Nat) :
    (∃ image, (n, image) ∈ caseExpansions ∧ upperCaseCode n = image) ∨
    (∃ r ∈ caseRuns, ∃ k < r.count,
      n = r.first + k * r.stride ∧ upperCaseCode n = [r.image + k * r.stride]) ∨
    n ∉ casedCodes ∧ upperCaseCode n = [n] := by
  unfold upperCaseCode
  cases hlookup : caseExpansions.lookup n with
  | some image =>
    obtain ⟨before, behind, hsplit, -⟩ := List.lookup_eq_some_iff.1 hlookup
    exact .inl ⟨image, by rw [hsplit]; simp, rfl⟩
  | none =>
    cases hrun : caseRuns.findSome? (·.image? n) with
    | some m =>
      obtain ⟨r, hr, hm⟩ := List.exists_of_findSome?_eq_some hrun
      obtain ⟨k, hk, hn, rfl⟩ := (CaseRun.image?_eq_some_iff (stride_pos hr)).1 hm
      exact .inr (.inl ⟨r, hr, k, hk, hn, rfl⟩)
    | none =>
      refine .inr (.inr ⟨?_, rfl⟩)
      intro hmem
      rcases List.mem_append.1 hmem with hexpansion | hcode
      · obtain ⟨x, hx, rfl⟩ := List.mem_map.1 hexpansion
        have hne := List.lookup_eq_none_iff.1 hlookup x hx
        simp at hne
      · obtain ⟨r, hr, hn⟩ := List.mem_flatMap.1 hcode
        obtain ⟨k, hk, rfl⟩ := List.mem_map.1 hn
        have hsome := (CaseRun.image?_eq_some_iff (stride_pos hr)).2
          ⟨k, List.mem_range.1 hk, rfl, rfl⟩
        rw [List.findSome?_eq_none_iff.1 hrun r hr] at hsome
        cases hsome

/-- A code point without another upper case is its own. -/
theorem upperCaseCode_eq_self {n : Nat} (h : n ∉ casedCodes) : upperCaseCode n = [n] := by
  rcases upperCaseCode_cases n with ⟨image, himage, -⟩ | ⟨r, hr, k, hk, rfl, -⟩ | ⟨-, hself⟩
  · exact absurd (List.mem_append_left _ (List.mem_map.2 ⟨_, himage, rfl⟩)) h
  · have hcode : r.first + k * r.stride ∈ r.codes :=
      List.mem_map.2 ⟨k, List.mem_range.2 hk, rfl⟩
    exact absurd (List.mem_append_right _ (List.mem_flatMap.2 ⟨r, hr, hcode⟩)) h
  · exact hself

/-- What an upper case in the data begins with has no other upper case. There are some thousand
numbers in both lists, so they are compared as sets of bits and not one by one. -/
theorem notMem_casedCodes_of_mem_leadingCodes {n : Nat} (h : n ∈ leadingCodes) : n ∉ casedCodes :=
  notMem_of_bitSet_land (by decide +kernel) h

/-! ### Lower-case letters in upper cases -/

/-- The code points of the lower-case ASCII letters are on a run, and no upper case in the data has
one of them. -/
theorem not_lower_of_mem_upperCaseCode {n m : Nat} (h : m ∈ upperCaseCode n) :
    ¬ (97 ≤ m ∧ m ≤ 122) := by
  have hexpansions : ∀ x ∈ caseExpansions, ∀ m ∈ x.2, m < 97 ∨ 122 < m := by decide +kernel
  have hruns : ∀ r ∈ caseRuns, 122 < r.image ∨ r.image + r.count * r.stride ≤ 97 := by
    decide +kernel
  rcases upperCaseCode_cases n with ⟨image, himage, heq⟩ | ⟨r, hr, k, hk, -, heq⟩ | ⟨hcased, heq⟩
  · have := hexpansions _ himage m (heq ▸ h)
    omega
  · rw [heq, List.mem_singleton] at h
    have hrun := hruns r hr
    have hlt : k * r.stride < r.count * r.stride := Nat.mul_lt_mul_of_pos_right hk (stride_pos hr)
    omega
  · rw [heq, List.mem_singleton] at h
    subst h
    rintro ⟨hlow, hhigh⟩
    have hletters : ∀ k < 26, 97 + k ∈ casedCodes := by
      intro k hk
      refine List.mem_append_right _ (List.mem_flatMap.2 ⟨⟨0x61, 26, 1, 0x41⟩, ?_, ?_⟩)
      · exact List.mem_cons_self
      · exact List.mem_map.2 ⟨k, List.mem_range.2 hk, by simp⟩
    have hm := hletters (m - 97) (by omega)
    rw [Nat.add_sub_cancel' hlow] at hm
    exact hcased hm

/-- An upper case has no lower-case ASCII letter. -/
theorem isLower_eq_false_of_mem_upperCase {c d : Char} (h : d ∈ upperCase c) :
    d.isLower = false := by
  obtain ⟨m, hm, rfl⟩ := List.mem_map.1 h
  have hcode := not_lower_of_mem_upperCaseCode hm
  rw [← Bool.not_eq_true, isLower_iff_toNat]
  rcases toNat_ofNat_eq_or m with hnat | hnat <;> omega

/-! ### The first character of an upper case -/

theorem exists_upperCaseCode_eq_cons (n : Nat) :
    ∃ m l, upperCaseCode n = m :: l ∧ upperCaseCode m = [m] := by
  have hexpansions : ∀ x ∈ caseExpansions, x.2 ≠ [] := by decide +kernel
  rcases upperCaseCode_cases n with ⟨image, himage, heq⟩ | ⟨r, hr, k, hk, -, heq⟩ | ⟨-, heq⟩
  · obtain ⟨m, l, rfl⟩ := List.exists_cons_of_ne_nil (hexpansions _ himage)
    have hm : m ∈ leadingCodes :=
      List.mem_append_left _ (List.mem_flatMap.2 ⟨_, himage, by simp⟩)
    exact ⟨m, l, heq, upperCaseCode_eq_self (notMem_casedCodes_of_mem_leadingCodes hm)⟩
  · have himage : r.image + k * r.stride ∈ r.images :=
      List.mem_map.2 ⟨k, List.mem_range.2 hk, rfl⟩
    have hm : r.image + k * r.stride ∈ leadingCodes :=
      List.mem_append_right _ (List.mem_flatMap.2 ⟨r, hr, himage⟩)
    exact ⟨_, [], heq, upperCaseCode_eq_self (notMem_casedCodes_of_mem_leadingCodes hm)⟩
  · exact ⟨n, [], heq, heq⟩

/-- An upper case begins with a character that is its own upper case. -/
theorem exists_upperCase_eq_cons (c : Char) :
    ∃ d l, upperCase c = d :: l ∧ upperCase d = [d] := by
  obtain ⟨m, l, hcode, hself⟩ := exists_upperCaseCode_eq_cons c.toNat
  have hchar : upperCaseCode (Char.ofNat m).toNat = [(Char.ofNat m).toNat] := by
    rcases toNat_ofNat_eq_or m with hnat | hnat <;> rw [hnat]
    · exact hself
    · decide +kernel
  refine ⟨Char.ofNat m, l.map Char.ofNat, ?_, ?_⟩
  · rw [upperCase, hcode, List.map_cons]
  · rw [upperCase, hchar, List.map_singleton, Char.ofNat_toNat]

end Text

end WorkflowPaths
