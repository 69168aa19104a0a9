/-!
# Counting runs

Every branch point doubles the number of runs. The number is kept in a 64-bit word, and what does
not fit into the word never wraps: a number of branch points, a product or a power that is too large
is no number at all, and the largest word stands for it in the end.
-/

namespace WorkflowPaths

/-- The number as a 32-bit word, if it fits. -/
def narrow? (n : Nat) : Option UInt32 :=
  if n < UInt32.size then some (.ofNat n) else none

/-- The number as a 64-bit word, if it fits. -/
def word? (n : Nat) : Option UInt64 :=
  if n < UInt64.size then some (.ofNat n) else none

/-- The product, if it fits. -/
def checkedMul (a b : UInt64) : Option UInt64 :=
  word? (a.toNat * b.toNat)

/-- The accumulator with the base multiplied in, where the exponent is odd. -/
def accumulate (acc base : UInt64) (exponent : UInt32) : Option UInt64 :=
  if exponent % 2 = 1 then checkedMul acc base else some acc

/-- The product of `acc` and a power of `base`, if all products on the way fit. Each round halves
the exponent and squares the base. -/
def checkedPowFrom (acc base : UInt64) (exponent : UInt32) : Option UInt64 := do
  let acc ← accumulate acc base exponent
  if h : exponent ≤ 1 then
    return acc
  else
    checkedPowFrom acc (← checkedMul base base) (exponent / 2)
termination_by exponent.toNat
decreasing_by
  have hlt : 1 < exponent.toNat := Nat.lt_of_not_le fun hle => h (UInt32.le_iff_toNat_le.2 hle)
  rw [UInt32.toNat_div]
  exact Nat.div_lt_self (Nat.lt_trans Nat.zero_lt_one hlt) Nat.one_lt_two

/-- The power, if it fits. -/
def checkedPow (base : UInt64) (exponent : UInt32) : Option UInt64 :=
  checkedPowFrom 1 base exponent

/-- The number of runs over `n` branch points, or the largest number that can be counted. -/
def runCount (n : Nat) : UInt64 :=
  ((narrow? n).bind (checkedPow 2)).getD 0xFFFFFFFFFFFFFFFF

end WorkflowPaths
