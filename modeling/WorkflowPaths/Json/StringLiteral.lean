/-!
# String literals

Strings between quotes, as JSON texts write them. A character stands for itself or is written
with a backslash; behind `\u` stand four hexadecimal digits for one UTF-16 code unit, so that
characters beyond 16 bits take a pair of units. A literal with half of such a pair is well formed
and spells no string.
-/

namespace WorkflowPaths.Json

/-- A part of a string literal. -/
inductive Piece where
  /-- A character that stands for itself or has an escape of its own. -/
  | char (c : Char)
  /-- A UTF-16 code unit, written with four hexadecimal digits. -/
  | unit (n : Nat)
deriving Repr, DecidableEq

/-- The value of a hexadecimal digit of either case. -/
def hexValue? (c : Char) : Option Nat :=
  if '0' ≤ c ∧ c ≤ '9' then some (c.toNat - 48)
  else if 'a' ≤ c ∧ c ≤ 'f' then some (c.toNat - 87)
  else if 'A' ≤ c ∧ c ≤ 'F' then some (c.toNat - 55)
  else none

/-- The code unit that four hexadecimal digits write. -/
def codeUnit? (a b c d : Char) : Option Nat :=
  match hexValue? a, hexValue? b, hexValue? c, hexValue? d with
  | some a, some b, some c, some d => some (((a * 16 + b) * 16 + c) * 16 + d)
  | _, _, _, _ => none

/-- The character behind a backslash that stands for one character. -/
def shortEscape? (c : Char) : Option Char :=
  if c = '"' ∨ c = '\\' ∨ c = '/' then some c
  else if c = 'n' then some '\n'
  else if c = 'r' then some '\r'
  else if c = 't' then some '\t'
  else if c = 'b' then some (Char.ofNat 0x08)
  else if c = 'f' then some (Char.ofNat 0x0C)
  else none

/-- Reads a string literal from behind its opening quote; `acc` holds the pieces read so far,
the last one first. -/
def readPieces (acc : List Piece) : List Char → Option (List Piece × List Char)
  | [] => none
  | '"' :: r => some (acc.reverse, r)
  | '\\' :: 'u' :: a :: b :: c :: d :: r =>
    match codeUnit? a b c d with
    | some n => readPieces (.unit n :: acc) r
    | none => none
  | '\\' :: e :: r =>
    match shortEscape? e with
    | some c => readPieces (.char c :: acc) r
    | none => none
  | c :: r => if c.toNat < 0x20 then none else readPieces (.char c :: acc) r

/-- The first unit of a surrogate pair. -/
def isHighSurrogate (n : Nat) : Bool := 0xD800 ≤ n && n < 0xDC00

/-- The second unit of a surrogate pair. -/
def isLowSurrogate (n : Nat) : Bool := 0xDC00 ≤ n && n < 0xE000

/-- The characters that the pieces spell, behind those of `acc`, which holds the last one first;
`none` if half of a surrogate pair stands alone. -/
def assemble? (acc : List Char) : List Piece → Option String
  | [] => some (String.ofList acc.reverse)
  | .char c :: r => assemble? (c :: acc) r
  | .unit n :: r =>
    if isHighSurrogate n then
      match r with
      | .unit m :: r =>
        if isLowSurrogate m then
          assemble? (Char.ofNat (0x10000 + (n - 0xD800) * 0x400 + (m - 0xDC00)) :: acc) r
        else none
      | _ => none
    else if isLowSurrogate n then none
    else assemble? (Char.ofNat n :: acc) r

/-- Reads a string literal from behind its opening quote. The string is missing when the literal
is well formed and spells no string. -/
def readString (cs : List Char) : Option (Option String × List Char) :=
  match readPieces [] cs with
  | some (pieces, r) => some (assemble? [] pieces, r)
  | none => none

end WorkflowPaths.Json
