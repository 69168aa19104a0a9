import WorkflowPaths.Proofs.Text.UpperCase
import WorkflowPaths.Text.Decimal
import WorkflowPaths.Text.Words

/-!
# Lines

A text that is put together from lines, each with a newline behind it, falls apart into these lines
exactly when none of them has a newline of its own (`splitLines_join_eq_iff`). It has as many lines
as were put together exactly then, too (`length_splitLines_join_eq_iff`).

Names that are shown as words keep their newlines (`isOneLine_splitWords`).
-/

namespace WorkflowPaths.Text

/-- What stands between the newlines of a text, what stands before the first one and behind the last
one included. -/
def splitLines (s : String) : List String :=
  (s.toList.splitOn '\n').map String.ofList

/-- The text has no newline. -/
def IsOneLine (s : String) : Prop :=
  '\n' ∉ s.toList

instance (s : String) : Decidable (IsOneLine s) :=
  inferInstanceAs (Decidable ('\n' ∉ s.toList))

/-! ### Texts without newlines -/

theorem isOneLine_append {s t : String} : IsOneLine (s ++ t) ↔ IsOneLine s ∧ IsOneLine t := by
  simp [IsOneLine, String.toList_append]

theorem isOneLine_ofList {cs : List Char} : IsOneLine (String.ofList cs) ↔ '\n' ∉ cs := by
  rw [IsOneLine, String.toList_ofList]

theorem isOneLine_repr (n : Nat) : IsOneLine n.repr := by
  rw [IsOneLine, Nat.toList_repr]
  exact notMem_toDigits (by decide) n

theorem isOneLine_intercalate {separator : String} (h : IsOneLine separator) {l : List String} :
    IsOneLine (separator.intercalate l) ↔ ∀ s ∈ l, IsOneLine s := by
  induction l with
  | nil =>
    rw [String.intercalate_nil]
    simp [IsOneLine]
  | cons s r ih =>
    by_cases hr : r = []
    · subst hr
      simp
    · rw [String.intercalate_cons_of_ne_nil hr, isOneLine_append, isOneLine_append, ih]
      simp [h]

/-! ### Falling apart -/

theorem splitLines_of_isOneLine {s : String} (h : IsOneLine s) : splitLines s = [s] := by
  rw [splitLines, List.splitOn_eq_singleton h, List.map_singleton, String.ofList_toList]

theorem splitLines_append_newline (s t : String) :
    splitLines (s ++ "\n" ++ t) = splitLines s ++ splitLines t := by
  have hchars : (s ++ "\n" ++ t).toList = s.toList ++ '\n' :: t.toList := by
    simp [String.toList_append]
  rw [splitLines, hchars, List.splitOn_append_cons_self, List.map_append]
  rfl

theorem length_splitLines_pos (s : String) : 0 < (splitLines s).length := by
  rw [splitLines, List.length_map]
  exact List.length_pos_iff.2 (List.splitOn_ne_nil _ _)

/-- Only a text without newlines is one line. -/
theorem length_splitLines_eq_one_iff {s : String} :
    (splitLines s).length = 1 ↔ IsOneLine s := by
  constructor
  · intro hlength hmem
    obtain ⟨before, behind, hsplit⟩ := List.append_of_mem hmem
    have hs : s = String.ofList before ++ "\n" ++ String.ofList behind := by
      rw [← String.toList_inj, hsplit]
      simp [String.toList_append]
    rw [hs, splitLines_append_newline, List.length_append] at hlength
    have hbefore := length_splitLines_pos (String.ofList before)
    have hbehind := length_splitLines_pos (String.ofList behind)
    omega
  · intro h
    rw [splitLines_of_isOneLine h, List.length_singleton]

/-- Lines that are put together fall apart one by one. -/
theorem splitLines_join (lines : List String) :
    splitLines (String.join (lines.map (· ++ "\n"))) = lines.flatMap splitLines ++ [""] := by
  induction lines with
  | nil => rfl
  | cons l r ih =>
    rw [List.map_cons, String.join_cons, splitLines_append_newline, ih, List.flatMap_cons,
      List.append_assoc]

theorem length_le_length_flatMap_splitLines (lines : List String) :
    lines.length ≤ (lines.flatMap splitLines).length := by
  induction lines with
  | nil => exact Nat.zero_le _
  | cons l r ih =>
    have hpos := length_splitLines_pos l
    rw [List.flatMap_cons, List.length_append, List.length_cons]
    omega

/-- There are as many lines as were put together exactly when none of them has a newline. -/
theorem length_flatMap_splitLines_eq_iff {lines : List String} :
    (lines.flatMap splitLines).length = lines.length ↔ ∀ l ∈ lines, IsOneLine l := by
  induction lines with
  | nil => simp
  | cons l r ih =>
    have hpos := length_splitLines_pos l
    have hle := length_le_length_flatMap_splitLines r
    rw [List.forall_mem_cons, ← ih, ← length_splitLines_eq_one_iff, List.flatMap_cons,
      List.length_append, List.length_cons]
    omega

theorem flatMap_splitLines_of_forall {lines : List String} (h : ∀ l ∈ lines, IsOneLine l) :
    lines.flatMap splitLines = lines := by
  induction lines with
  | nil => rfl
  | cons l r ih =>
    obtain ⟨hl, hr⟩ := List.forall_mem_cons.1 h
    rw [List.flatMap_cons, splitLines_of_isOneLine hl, ih hr, List.singleton_append]

theorem length_splitLines_join_eq_iff {lines : List String} :
    (splitLines (String.join (lines.map (· ++ "\n")))).length = lines.length + 1 ↔
      ∀ l ∈ lines, IsOneLine l := by
  rw [splitLines_join, List.length_append, List.length_singleton, Nat.add_right_cancel_iff]
  exact length_flatMap_splitLines_eq_iff

/-- A text falls apart into the lines that were put together, each with a newline behind it, exactly
when none of them has a newline. -/
theorem splitLines_join_eq_iff {lines : List String} :
    splitLines (String.join (lines.map (· ++ "\n"))) = lines ++ [""] ↔
      ∀ l ∈ lines, IsOneLine l := by
  constructor
  · intro h
    apply length_splitLines_join_eq_iff.1
    rw [h, List.length_append, List.length_singleton]
  · intro h
    rw [splitLines_join, flatMap_splitLines_of_forall h]

/-! ### Words -/

theorem ofNat_eq_newline_iff {n : Nat} : Char.ofNat n = '\n' ↔ n = 10 := by
  constructor
  · intro h
    have hten : (Char.ofNat n).toNat = 10 := congrArg Char.toNat h
    rcases toNat_ofNat_eq_or n with hnat | hnat <;> omega
  · intro h
    rw [h]

/-- Only the newline itself has a newline as its upper case: the characters that have another upper
case, and these upper cases, are all above it. -/
theorem mem_upperCaseCode_iff {n : Nat} : 10 ∈ upperCaseCode n ↔ n = 10 := by
  have hexpansions : ∀ x ∈ caseExpansions, x.1 ≠ 10 ∧ 10 ∉ x.2 := by decide +kernel
  have hruns : ∀ r ∈ caseRuns, 10 < r.first ∧ 10 < r.image := by decide +kernel
  rcases upperCaseCode_cases n with ⟨image, hx, heq⟩ | ⟨r, hr, k, -, hn, heq⟩ | ⟨-, heq⟩
  · obtain ⟨hn, himage⟩ := hexpansions _ hx
    rw [heq]
    exact ⟨fun h => absurd h himage, fun h => absurd h hn⟩
  · obtain ⟨hfirst, himage⟩ := hruns r hr
    rw [heq, List.mem_singleton]
    omega
  · rw [heq, List.mem_singleton, eq_comm]

theorem newline_mem_upperCase_iff {c : Char} : '\n' ∈ upperCase c ↔ c = '\n' := by
  simp only [upperCase, List.mem_map, ofNat_eq_newline_iff, exists_eq_right, mem_upperCaseCode_iff]
  rw [← Char.toNat_inj]
  rfl

theorem newline_mem_spaceWords_iff {cs : List Char} : '\n' ∈ spaceWords cs ↔ '\n' ∈ cs := by
  fun_induction spaceWords cs with
  | case1 a b r _ ih => simp [ih]
  | case2 a b r _ ih => simp [ih]
  | case3 => rfl

/-- A name has the same newlines as a name and as words. -/
theorem isOneLine_splitWords {s : String} : IsOneLine (splitWords s) ↔ IsOneLine s := by
  have hcapital (cs : List Char) : '\n' ∈ capitalize cs ↔ '\n' ∈ cs := by
    cases cs with
    | nil => rfl
    | cons c r => simp [capitalize, newline_mem_upperCase_iff, eq_comm]
  rw [splitWords, isOneLine_ofList, hcapital, newline_mem_spaceWords_iff, IsOneLine]

end WorkflowPaths.Text
