/-!
# Blank text

A character is blank when it has the Unicode property `White_Space`. Names and labels are
compared and stored without the blank characters around them; a name that holds nothing else
counts as missing.
-/

namespace WorkflowPaths.Text

/-- The 25 characters with the Unicode property `White_Space`. The zero-width space, the byte
order mark and the information separators are not among them. -/
def isBlank (c : Char) : Bool :=
  let n := c.toNat
  (0x09 ≤ n && n ≤ 0x0D) || n == 0x20 || n == 0x85 || n == 0xA0 || n == 0x1680
    || (0x2000 ≤ n && n ≤ 0x200A) || n == 0x2028 || n == 0x2029 || n == 0x202F
    || n == 0x205F || n == 0x3000

/-- The characters between the first and the last one that is not blank. -/
def trimChars (cs : List Char) : List Char :=
  ((cs.dropWhile isBlank).reverse.dropWhile isBlank).reverse

/-- The text without the blank characters at its two ends. -/
def trim (s : String) : String :=
  String.ofList (trimChars s.toList)

/-- A text of blank characters only, the empty text among them. -/
def isBlankText (s : String) : Bool :=
  s.toList.all isBlank

/-- Dropping the leading blanks leaves nothing exactly when all of the list is blank. -/
theorem dropWhile_isBlank_eq_nil_iff (cs : List Char) :
    cs.dropWhile isBlank = [] ↔ cs.all isBlank = true := by
  induction cs with
  | nil => simp
  | cons c r ih => by_cases h : isBlank c <;> simp [h, ih]

/-- What is left after the leading blanks is blank only if nothing is left. -/
theorem all_dropWhile_isBlank (cs : List Char) (h : (cs.dropWhile isBlank).all isBlank = true) :
    cs.dropWhile isBlank = [] := by
  induction cs with
  | nil => rfl
  | cons c r ih => by_cases hc : isBlank c <;> simp_all

/-- Trimming leaves nothing of a list exactly when all of it is blank. -/
theorem trimChars_eq_nil_iff (cs : List Char) :
    trimChars cs = [] ↔ cs.all isBlank = true := by
  rw [trimChars, List.reverse_eq_nil_iff, dropWhile_isBlank_eq_nil_iff, List.all_reverse,
    ← dropWhile_isBlank_eq_nil_iff cs]
  exact ⟨all_dropWhile_isBlank cs, fun h => by simp [h]⟩

/-- A text is blank exactly when trimming empties it. -/
theorem trim_eq_empty_iff (s : String) : trim s = "" ↔ isBlankText s = true := by
  rw [isBlankText, ← trimChars_eq_nil_iff, trim]
  constructor
  · intro h
    have := congrArg String.toList h
    simpa using this
  · intro h
    simp [h]

end WorkflowPaths.Text
