import WorkflowPaths.Json.Basic
import WorkflowPaths.Json.Double

/-!
# Numerals

Numbers as JSON texts write them: a minus sign, digits without a leading zero, a fraction and an
exponent, of which only the digits have to be there. A number too large for double precision is
well formed and stands for no value.

Size is judged in double precision too. Of the digits, those count that fit into 64 bits
(`takeDigits`); the number is the double next to them, times the double next to a power of ten
(`isFinite`). Both are rounded before they are multiplied, so close to the bound a number can fall
on the other side of it than its exact value.
-/

namespace WorkflowPaths.Json

/-- Takes digits behind a significand as long as it fits into 64 bits. Returns the significand and
how many digits were left out. -/
def takeDigits (significand : Nat) : List Char → Nat × Nat
  | [] => (significand, 0)
  | d :: ds =>
    let longer := 10 * significand + (d.toNat - '0'.toNat)
    if longer < UInt64.size then takeDigits longer ds else (significand, ds.length + 1)

/-- Further digits never make a number smaller. -/
theorem le_ofDigitChars (n : Nat) (ds : List Char) : n ≤ Nat.ofDigitChars 10 ds n := by
  induction ds generalizing n with
  | nil => exact Nat.le_refl n
  | cons d ds ih =>
    rw [Nat.ofDigitChars_cons]
    exact Nat.le_trans (by omega) (ih _)

/-- A number that fits into 64 bits keeps all its digits. -/
theorem takeDigits_of_lt {significand : Nat} {ds : List Char}
    (h : Nat.ofDigitChars 10 ds significand < UInt64.size) :
    takeDigits significand ds = (Nat.ofDigitChars 10 ds significand, 0) := by
  induction ds generalizing significand with
  | nil => rfl
  | cons d ds ih =>
    rw [Nat.ofDigitChars_cons] at h ⊢
    have hle := le_ofDigitChars (10 * significand + (d.toNat - '0'.toNat)) ds
    rw [takeDigits, if_pos (Nat.lt_of_le_of_lt hle h), ih h]

/-- The double next to `significand`, times the double next to `10 ^ exponent`, is finite. Doubles
hold no power of ten beyond `10 ^ 308`. -/
def isFinite (significand : Nat) (exponent : Int) : Bool :=
  if significand = 0 ∨ exponent ≤ 0 then true
  else if 308 < exponent then false
  else nearestDouble significand * nearestDouble (Nat.pow 10 exponent.toNat) < overflowBound

/-- The digits at the head of a text, and the rest. -/
def readDigits (cs : List Char) : List Char × List Char :=
  (cs.takeWhile Char.isDigit, cs.dropWhile Char.isDigit)

/-- Reads the fraction of a number, if there is one: a point and at least one digit. -/
def readFraction : List Char → Option (List Char × List Char)
  | '.' :: r =>
    let (digits, r) := readDigits r
    if digits.isEmpty then none else some (digits, r)
  | cs => some ([], cs)

/-- Reads an exponent behind its mark: a sign, if there is one, and at least one digit. -/
def readExponent (cs : List Char) : Option (Int × List Char) :=
  let (negative, cs) := match cs with
    | '+' :: r => (false, r)
    | '-' :: r => (true, r)
    | _ => (false, cs)
  let (digits, r) := readDigits cs
  if digits.isEmpty then none
  else
    let n : Int := Nat.ofDigitChars 10 digits 0
    some (if negative then -n else n, r)

/-- Reads the exponent of a number, if there is one. -/
def readScale : List Char → Option (Option Int × List Char)
  | c :: r =>
    if c = 'e' ∨ c = 'E' then (readExponent r).map fun (n, r) => (some n, r)
    else some (none, c :: r)
  | [] => some (none, [])

/-- Reads a number. -/
def readNumber (cs : List Char) : Option (Json × List Char) :=
  let (negative, unsigned) := match cs with
    | '-' :: r => (true, r)
    | _ => (false, cs)
  let (whole, r) := readDigits unsigned
  match whole with
  | [] => none
  | '0' :: _ :: _ => none
  | _ =>
    match readFraction r with
    | none => none
    | some (fraction, r) =>
      match readScale r with
      | none => none
      | some (scale, r) =>
        let (leading, wholeLeft) := takeDigits 0 whole
        let (significand, fractionLeft) := takeDigits leading fraction
        let exponent : Int := scale.getD 0 + wholeLeft - (fraction.length - fractionLeft : Nat)
        if !isFinite significand exponent then some (.unusable, r)
        else if negative || !fraction.isEmpty || scale.isSome then
          some (.real (String.ofList (cs.take (cs.length - r.length))), r)
        else some (.nat (Nat.ofDigitChars 10 whole 0), r)

end WorkflowPaths.Json
