import Mathlib.Algebra.Order.Ring.Nat
import WorkflowPaths.Counting

/-!
# The number of runs is counted exactly

A power is computed by squaring, and every product on the way is checked. All of these products
divide the power, so one of them is too large for a word exactly when the power is
(`checkedPowFrom_eq`). It follows that a count is the number of runs, or the largest number there is
(`runCount_eq_min`), also where the number of branch points does not fit into 32 bits, and that more
branch points never count less (`runCount_mono`).
-/

namespace WorkflowPaths

theorem word?_of_lt {n : Nat} (h : n < 2 ^ 64) : word? n = some (.ofNat n) :=
  if_pos h

theorem word?_of_le {n : Nat} (h : 2 ^ 64 ≤ n) : word? n = none :=
  if_neg (Nat.not_lt.2 h)

theorem word?_toNat (a : UInt64) : word? a.toNat = some a := by
  rw [word?_of_lt a.toNat_lt, UInt64.ofNat_toNat]

/-- What is too large for a word stays too large: a computation that goes on with a number that fits,
and never gets below it, may stop where the number does not fit. -/
theorem bind_word?_eq {m k : Nat} {f : UInt64 → Option UInt64} (hle : m ≤ k)
    (hf : ∀ a : UInt64, a.toNat = m → f a = word? k) : (word? m).bind f = word? k := by
  rcases Nat.lt_or_ge m (2 ^ 64) with hfits | hlarge
  · rw [word?_of_lt hfits, Option.bind_some]
    exact hf _ (UInt64.toNat_ofNat_of_lt' hfits)
  · rw [word?_of_le hlarge, word?_of_le (hlarge.trans hle), Option.bind_none]

/-! ### Powers -/

/-- The accumulator takes in the lowest binary digit of the exponent. -/
theorem accumulate_eq (acc base : UInt64) (exponent : UInt32) :
    accumulate acc base exponent = word? (acc.toNat * base.toNat ^ (exponent.toNat % 2)) := by
  have hodd : exponent % 2 = 1 ↔ exponent.toNat % 2 = 1 := by
    rw [← UInt32.toNat_inj, UInt32.toNat_mod]
    rfl
  rcases Nat.mod_two_eq_zero_or_one exponent.toNat with hmod | hmod
  · have hne : ¬ exponent % 2 = 1 := by
      rw [hodd, hmod]
      decide
    rw [accumulate, if_neg hne, hmod, Nat.pow_zero, Nat.mul_one, word?_toNat]
  · rw [accumulate, if_pos (hodd.2 hmod), hmod, Nat.pow_one, checkedMul]

/-- The digits of the exponent but for the lowest one are left to the square of the base. -/
theorem pow_eq_mul_square_pow (base n : Nat) :
    base ^ n = base ^ (n % 2) * (base * base) ^ (n / 2) := by
  calc base ^ n = base ^ (n % 2 + 2 * (n / 2)) := by rw [Nat.mod_add_div]
    _ = base ^ (n % 2) * (base * base) ^ (n / 2) := by rw [Nat.pow_add, Nat.pow_mul, Nat.pow_two]

/-- A power is computed exactly when it fits. -/
theorem checkedPowFrom_eq (exponent : UInt32) {acc base : UInt64} (hacc : 0 < acc.toNat)
    (hbase : 0 < base.toNat) :
    checkedPowFrom acc base exponent = word? (acc.toNat * base.toNat ^ exponent.toNat) := by
  -- Accumulator and base stay positive, so no product on the way is larger than the result.
  induction hn : exponent.toNat using Nat.strong_induction_on generalizing exponent acc base with
  | _ n ih =>
    have hle (m : Nat) (h : m ≤ n) : acc.toNat * base.toNat ^ m ≤ acc.toNat * base.toNat ^ n :=
      Nat.mul_le_mul_left _ (Nat.pow_le_pow_right hbase h)
    rw [checkedPowFrom, accumulate_eq, hn]
    refine bind_word?_eq (hle _ (Nat.mod_le n 2)) fun acc' hacc' => ?_
    split
    next hone =>
      rw [UInt32.le_iff_toNat_le, hn] at hone
      have hmod : n % 2 = n := Nat.mod_eq_of_lt (Nat.lt_succ_of_le hone)
      rw [hmod] at hacc'
      rw [← hacc', word?_toNat]
      rfl
    next hone =>
      rw [UInt32.le_iff_toNat_le, hn] at hone
      have htwo : 2 ≤ n := Nat.lt_of_not_le hone
      have hsquare : base.toNat * base.toNat ≤ acc.toNat * base.toNat ^ n := by
        calc base.toNat * base.toNat = base.toNat ^ 2 := (Nat.pow_two _).symm
          _ ≤ acc.toNat * base.toNat ^ 2 := Nat.le_mul_of_pos_left _ hacc
          _ ≤ acc.toNat * base.toNat ^ n := hle 2 htwo
      refine bind_word?_eq hsquare fun base' hbase' => ?_
      have hhalf : (exponent / 2).toNat = n / 2 := by
        rw [UInt32.toNat_div, hn]
        rfl
      have hlt : n / 2 < n := by omega
      have hpos : 0 < acc'.toNat := hacc' ▸ Nat.mul_pos hacc (Nat.pow_pos hbase)
      have hpos' : 0 < base'.toNat := hbase' ▸ Nat.mul_pos hbase hbase
      rw [ih _ hlt _ hpos hpos' hhalf, hacc', hbase', Nat.mul_assoc, ← pow_eq_mul_square_pow]

/-- Two to the number of branch points is computed exactly when it fits, and so does the number of
branch points. -/
theorem bind_checkedPow_eq (n : Nat) : (narrow? n).bind (checkedPow 2) = word? (2 ^ n) := by
  rcases Nat.lt_or_ge n UInt32.size with hn | hn
  · have htoNat : (UInt32.ofNat n).toNat = n := UInt32.toNat_ofNat_of_lt' hn
    rw [narrow?, if_pos hn, Option.bind_some, checkedPow,
      checkedPowFrom_eq _ (by decide) (by decide), htoNat]
    exact congrArg word? (Nat.one_mul _)
  · -- A number of branch points that does not fit gives a power that does not either.
    have hlarge : 2 ^ 64 ≤ 2 ^ n :=
      Nat.pow_le_pow_right Nat.zero_lt_two ((show 64 ≤ UInt32.size by decide).trans hn)
    rw [narrow?, if_neg (Nat.not_lt.2 hn), word?_of_le hlarge]
    rfl

/-! ### Runs -/

/-- The number of runs is counted exactly, up to the largest 64-bit number. -/
theorem runCount_eq_min (n : Nat) : (runCount n).toNat = min (2 ^ n) (2 ^ 64 - 1) := by
  rw [runCount, bind_checkedPow_eq]
  rcases Nat.lt_or_ge (2 ^ n) (2 ^ 64) with hfits | hlarge
  · rw [word?_of_lt hfits, min_eq_left (Nat.le_sub_one_of_lt hfits)]
    exact UInt64.toNat_ofNat_of_lt' hfits
  · rw [word?_of_le hlarge, min_eq_right ((Nat.sub_le _ 1).trans hlarge)]
    rfl

example : runCount 63 = 9223372036854775808 ∧ runCount 64 = 18446744073709551615 ∧
    runCount 4294967296 = 18446744073709551615 := by decide +kernel

/-- More branch points never count less. -/
theorem runCount_mono {m n : Nat} (h : m ≤ n) : (runCount m).toNat ≤ (runCount n).toNat := by
  rw [runCount_eq_min, runCount_eq_min]
  exact min_le_min_right _ (Nat.pow_le_pow_right (by decide) h)

end WorkflowPaths
