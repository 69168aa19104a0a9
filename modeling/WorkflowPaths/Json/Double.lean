/-!
# Double precision

Which whole numbers a double can hold, on natural numbers alone: `nearestDouble` drops the digits
behind the 53 leading binary ones, and a product of doubles is finite below `overflowBound`.
-/

namespace WorkflowPaths.Json

/-- The least magnitude that rounds to infinity in double precision. -/
def overflowBound : Nat := Nat.pow 2 1024 - Nat.pow 2 970

/-- The multiple of `unit` next to `n`; of two equally near ones, the even multiple. -/
def nearestMultiple (unit n : Nat) : Nat :=
  let quotient := n / unit
  let twice := 2 * (n % unit)
  if twice < unit ∨ (twice = unit ∧ quotient % 2 = 0) then quotient * unit
  else (quotient + 1) * unit

/-- The whole number with at most 53 leading binary digits next to `n`; of two equally near ones,
the one whose last digit is zero. -/
def nearestDouble (n : Nat) : Nat := nearestMultiple (Nat.pow 2 (n.log2 - 52)) n

end WorkflowPaths.Json
