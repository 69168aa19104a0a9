import WorkflowPaths.Json.Basic

/-!
# Writing JSON

A value is written in a layout, which says how its parts are set apart. There are two: `compact` on
one line without blanks, and `pretty` with one item or member to a line, indented by two spaces for
each level. A string escapes the quote, the backslash and the control characters below the space,
and nothing else.
-/

namespace WorkflowPaths.Json

/-- The hexadecimal digit for a number below sixteen, in lower case. -/
def hexDigit (n : Nat) : Char :=
  if n < 10 then Char.ofNat (48 + n) else Char.ofNat (87 + n)

/-- A character as it stands inside a string. -/
def escapeChar (c : Char) : List Char :=
  if c = '"' then ['\\', '"']
  else if c = '\\' then ['\\', '\\']
  else if 0x20 ≤ c.toNat then [c]
  else if c = '\n' then ['\\', 'n']
  else if c = '\r' then ['\\', 'r']
  else if c = '\t' then ['\\', 't']
  else if c.toNat = 0x08 then ['\\', 'b']
  else if c.toNat = 0x0C then ['\\', 'f']
  else ['\\', 'u', '0', '0', hexDigit (c.toNat / 16), hexDigit (c.toNat % 16)]

/-- A string literal, quotes included. -/
def quote (s : String) : List Char :=
  '"' :: s.toList.flatMap escapeChar ++ ['"']

/-! ### Layouts -/

/-- How the parts of a value are set apart. -/
structure Layout where
  /-- What stands before an item, a member or a closing bracket on the given level. -/
  gap : Nat → List Char
  /-- What stands between the colon of a member and its value. -/
  afterColon : List Char
  /-- Gaps are made of spaces and line ends. -/
  gap_blank : ∀ level, ∀ c ∈ gap level, c = ' ' ∨ c = '\n'
  /-- So is what stands behind a colon. -/
  afterColon_blank : ∀ c ∈ afterColon, c = ' ' ∨ c = '\n'

/-- A new line, indented by two spaces for each level. -/
def newline (level : Nat) : List Char :=
  '\n' :: List.replicate (2 * level) ' '

namespace Layout

/-- All on one line, without blanks. -/
def oneLine : Layout where
  gap _ := []
  afterColon := []
  gap_blank := by simp
  afterColon_blank := by simp

/-- One item or member to a line. -/
def manyLines : Layout where
  gap := newline
  afterColon := [' ']
  gap_blank := by
    intro level c hc
    rcases List.mem_cons.1 hc with rfl | hc
    · exact .inr rfl
    · exact .inl (List.eq_of_mem_replicate hc)
  afterColon_blank := by simp

mutual

/-- The characters of a value that stands on the given level. -/
def chars (l : Layout) (level : Nat) : Json → List Char
  | .null => "null".toList
  | .bool true => "true".toList
  | .bool false => "false".toList
  | .nat n => Nat.toDigits 10 n
  | .real text => text.toList
  | .string s => quote s
  | .array [] => ['[', ']']
  | .array (v :: r) => '[' :: l.itemChars (level + 1) (v :: r) ++ l.gap level ++ [']']
  | .object [] => ['{', '}']
  | .object (m :: r) => '{' :: l.memberChars (level + 1) (m :: r) ++ l.gap level ++ ['}']
  | .unusable => "null".toList

/-- The characters of items, with commas between them. -/
def itemChars (l : Layout) (level : Nat) : List Json → List Char
  | [] => []
  | [v] => l.gap level ++ l.chars level v
  | v :: w :: r => l.gap level ++ l.chars level v ++ ',' :: l.itemChars level (w :: r)

/-- The characters of members, with commas between them. -/
def memberChars (l : Layout) (level : Nat) : List (String × Json) → List Char
  | [] => []
  | [(k, v)] => l.gap level ++ quote k ++ ':' :: l.afterColon ++ l.chars level v
  | (k, v) :: m :: r =>
    l.gap level ++ quote k ++ ':' :: l.afterColon ++ l.chars level v
      ++ ',' :: l.memberChars level (m :: r)

end

end Layout

/-- A value on one line, without blanks. -/
def compact (v : Json) : String :=
  String.ofList (Layout.oneLine.chars 0 v)

/-- A value over several lines. -/
def pretty (v : Json) : String :=
  String.ofList (Layout.manyLines.chars 0 v)

end WorkflowPaths.Json
