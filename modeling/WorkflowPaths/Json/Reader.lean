import WorkflowPaths.Json.Numeral
import WorkflowPaths.Json.StringLiteral

/-!
# Reading JSON

A reader of strict JSON texts: no comments, no trailing commas, no leading zeros, no control
characters inside strings, and nothing but blanks after the value.

The readers of single parts take the characters that are left and give what they read together
with the rest. The reader of values spends one unit of fuel for each value, item and member;
every one of these takes at least one character, so the length of the text is fuel enough.
-/

namespace WorkflowPaths.Json

/-- The characters that may stand between the parts of a text. -/
def isSpace (c : Char) : Bool :=
  c == ' ' || c == '\n' || c == '\r' || c == '\t'

/-- The characters from the first one on that is no space. -/
def skipSpaces (cs : List Char) : List Char :=
  cs.dropWhile isSpace

mutual

/-- Reads a value, with the spaces in front of it. -/
def readValue : Nat → List Char → Option (Json × List Char)
  | 0, _ => none
  | fuel + 1, cs =>
    match skipSpaces cs with
    | '"' :: r =>
      match readString r with
      | some (some s, r) => some (.string s, r)
      | some (none, r) => some (.unusable, r)
      | none => none
    | '[' :: r =>
      match skipSpaces r with
      | ']' :: r => some (.array [], r)
      | r => readItems fuel [] r
    | '{' :: r =>
      match skipSpaces r with
      | '}' :: r => some (.object [], r)
      | r => readMembers fuel (some []) r
    | 'n' :: 'u' :: 'l' :: 'l' :: r => some (.null, r)
    | 't' :: 'r' :: 'u' :: 'e' :: r => some (.bool true, r)
    | 'f' :: 'a' :: 'l' :: 's' :: 'e' :: r => some (.bool false, r)
    | r => readNumber r

/-- Reads the items of an array up to its closing bracket; `acc` holds those before, the last
one first. -/
def readItems : Nat → List Json → List Char → Option (Json × List Char)
  | 0, _, _ => none
  | fuel + 1, acc, cs =>
    match readValue fuel cs with
    | none => none
    | some (v, r) =>
      match skipSpaces r with
      | ',' :: r => readItems fuel (v :: acc) r
      | ']' :: r => some (.array (v :: acc).reverse, r)
      | _ => none

/-- Reads the members of an object up to its closing brace; `acc` holds those before, the last
one first, and is missing when one of their keys spells no string. -/
def readMembers :
    Nat → Option (List (String × Json)) → List Char → Option (Json × List Char)
  | 0, _, _ => none
  | fuel + 1, acc, cs =>
    match skipSpaces cs with
    | '"' :: r =>
      match readString r with
      | none => none
      | some (key, r) =>
        match skipSpaces r with
        | ':' :: r =>
          match readValue fuel r with
          | none => none
          | some (v, r) =>
            let acc := match key, acc with
              | some k, some ms => some ((k, v) :: ms)
              | _, _ => none
            match skipSpaces r with
            | ',' :: r => readMembers fuel acc r
            | '}' :: r =>
              match acc with
              | some ms => some (.object ms.reverse, r)
              | none => some (.unusable, r)
            | _ => none
        | _ => none
    | _ => none

end

/-- The value that a text writes; `none` if it is no JSON text. -/
def read? (s : String) : Option Json :=
  let cs := s.toList
  match readValue (cs.length + 1) cs with
  | some (v, r) => if (skipSpaces r).isEmpty then some v else none
  | none => none

end WorkflowPaths.Json
