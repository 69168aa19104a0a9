import WorkflowPaths.Proofs.Path.Enumeration

/-!
# The limits are exact

Numbers of runs are counted up to the largest 64-bit number (`runCount_eq_min`), so the limits
compare numbers that may have been cut off. This module shows that no such number decides whether
paths are enumerated.

* `le_pathLimit_of_maxPaths_eq_none`: more branch points never count less, so the number of paths can
  only be too large where a limit for it is given.
* `checkLimits_eq_ok_iff`, `checkLimits_eq_tooManyBranches_iff`, `checkLimits_eq_tooManyPaths_iff`:
  what the limits say, for all options.
* `limits_exact`: for valid options the comparison is one of exact numbers, since they allow for at
  most 63 branch points.
-/

namespace WorkflowPaths

namespace Workflow

variable {o : Options} {w : Workflow}

theorem runs_eq_min (w : Workflow) : w.runs = min (2 ^ w.branches.length) (2 ^ 64 - 1) :=
  runCount_eq_min _

/-- Where no limit for the number of paths is given, the limit for branch points is the only one. -/
theorem le_pathLimit_of_maxPaths_eq_none (hnone : o.maxPaths = none)
    (h : w.branches.length ≤ o.maxDecisionPoints.toNat) : w.runs ≤ o.pathLimit := by
  rw [Options.pathLimit, hnone]
  exact runCount_mono h

/-- The number of paths is too large exactly where it is above a limit that is given for it. -/
theorem pathLimit_lt_iff (h : w.branches.length ≤ o.maxDecisionPoints.toNat) :
    o.pathLimit < w.runs ↔ ∃ limit, o.maxPaths = some limit ∧ limit.toNat < w.runs := by
  cases hmax : o.maxPaths with
  | none =>
    have hle := le_pathLimit_of_maxPaths_eq_none hmax h
    simp [Nat.not_lt.2 hle]
  | some limit => simp [Options.pathLimit, hmax]

theorem checkLimits_eq_tooManyBranches_iff {branches runs limit : Nat} :
    w.checkLimits o = .error (.tooManyBranches branches runs limit) ↔
      o.maxDecisionPoints.toNat < w.branches.length ∧ branches = w.branches.length ∧
        runs = w.runs ∧ limit = o.maxDecisionPoints.toNat := by
  rw [checkLimits]
  split
  next hlt => simp [hlt, eq_comm]
  next hle =>
    split <;> simp [hle]

theorem checkLimits_eq_tooManyPaths_iff {runs limit : Nat} :
    w.checkLimits o = .error (.tooManyPaths runs limit) ↔
      w.branches.length ≤ o.maxDecisionPoints.toNat ∧ runs = w.runs ∧ limit < runs ∧
        ∃ given, o.maxPaths = some given ∧ limit = given.toNat := by
  rw [checkLimits]
  split
  next hlt => simp [Nat.not_le.2 hlt]
  next hle =>
    have hle' := Nat.le_of_not_lt hle
    split
    next hpaths =>
      obtain ⟨given, hmax, hlt⟩ := (pathLimit_lt_iff hle').1 hpaths
      have hlimit : o.pathLimit = given.toNat := by rw [Options.pathLimit, hmax]
      simp only [Except.error.injEq, EnumerationError.tooManyPaths.injEq, hlimit]
      constructor
      · rintro ⟨rfl, rfl⟩
        exact ⟨hle', rfl, hlt, given, hmax, rfl⟩
      · rintro ⟨-, rfl, -, given', hmax', rfl⟩
        cases hmax.symm.trans hmax'
        exact ⟨rfl, rfl⟩
    next hpaths =>
      simp only [reduceCtorEq, false_iff]
      rintro ⟨-, rfl, hlt, given, hmax, rfl⟩
      exact hpaths ((pathLimit_lt_iff hle').2 ⟨given, hmax, hlt⟩)

theorem checkLimits_eq_ok_iff :
    w.checkLimits o = .ok () ↔ w.branches.length ≤ o.maxDecisionPoints.toNat ∧
      ∀ limit, o.maxPaths = some limit → w.runs ≤ limit.toNat := by
  rw [checkLimits]
  split
  next hlt => simp [Nat.not_le.2 hlt]
  next hle =>
    have hle' := Nat.le_of_not_lt hle
    have hlimit : ¬ o.pathLimit < w.runs ↔
        ∀ limit, o.maxPaths = some limit → w.runs ≤ limit.toNat := by
      rw [pathLimit_lt_iff hle']
      simp
    split
    next hpaths =>
      simp only [reduceCtorEq, false_iff, not_and]
      exact fun _ hall => hlimit.2 hall hpaths
    next hpaths =>
      simp only [true_iff]
      exact ⟨hle', hlimit.1 hpaths⟩

/-- **The limits are exact.** Paths are enumerated exactly for valid options and a valid workflow
with no more branch points and no more paths than the options allow, the number of paths being
exact. For all options, also for those that are not valid, too many branch points are reported
exactly where there are more than allowed, too many paths only where a limit is given for them, and
the number that is reported is that of all paths, or the largest 64-bit number. -/
theorem limits_exact (o : Options) (w : Workflow) :
    ((∃ paths, w.paths o = .ok paths) ↔
      o.check = .ok () ∧ w.branches.length ≤ o.maxDecisionPoints.toNat ∧
        (∀ limit, o.maxPaths = some limit → 2 ^ w.branches.length ≤ limit.toNat) ∧
        w.check = .ok ()) ∧
    ((∃ branches runs limit, w.checkLimits o = .error (.tooManyBranches branches runs limit)) ↔
      o.maxDecisionPoints.toNat < w.branches.length) ∧
    (o.maxPaths = none → ∀ runs limit, w.checkLimits o ≠ .error (.tooManyPaths runs limit)) ∧
    (∀ branches runs limit, w.checkLimits o = .error (.tooManyBranches branches runs limit) →
      branches = w.branches.length ∧ runs = min (2 ^ w.branches.length) (2 ^ 64 - 1) ∧
        limit = o.maxDecisionPoints.toNat) ∧
    ∀ runs limit, w.checkLimits o = .error (.tooManyPaths runs limit) →
      runs = min (2 ^ w.branches.length) (2 ^ 64 - 1) ∧ limit < runs ∧
        ∃ given, o.maxPaths = some given ∧ limit = given.toNat := by
  refine ⟨?_, ?_, ?_, ?_, ?_⟩
  · simp only [paths_eq_ok_iff, exists_and_left, exists_eq, and_true, checkLimits_eq_ok_iff,
      and_assoc]
    refine and_congr_right fun ho => and_congr_right fun hle => ?_
    rw [runs_eq_of_check ho hle]
  · simp [checkLimits_eq_tooManyBranches_iff]
  · intro hnone runs limit h
    obtain ⟨-, -, -, given, hgiven, -⟩ := checkLimits_eq_tooManyPaths_iff.1 h
    cases hnone.symm.trans hgiven
  · intro branches runs limit h
    obtain ⟨-, hbranches, hruns, hlimit⟩ := checkLimits_eq_tooManyBranches_iff.1 h
    exact ⟨hbranches, hruns.trans w.runs_eq_min, hlimit⟩
  · intro runs limit h
    obtain ⟨-, hruns, hlt, hgiven⟩ := checkLimits_eq_tooManyPaths_iff.1 h
    exact ⟨hruns.trans w.runs_eq_min, hlt, hgiven⟩

/-- A workflow with more decisions than a number of runs has digits. -/
def crowded : Workflow := ⟨"Crowded", [], List.replicate 70 aboveLimit⟩

/-- The number of runs is reported as the largest number, and where there is no limit for the number
of paths, the largest limit for branch points lets all of them pass. -/
theorem limits_exact_crowded :
    crowded.checkLimits {} = .error (.tooManyBranches 70 18446744073709551615 10) ∧
      18446744073709551615 = min (2 ^ 70) (2 ^ 64 - 1) ∧
      crowded.checkLimits { maxDecisionPoints := 0xFFFFFFFFFFFFFFFF } = .ok () ∧
      ∀ runs limit, crowded.checkLimits { maxDecisionPoints := 0xFFFFFFFFFFFFFFFF }
        ≠ .error (.tooManyPaths runs limit) := by
  have h : crowded.checkLimits {} = .error (.tooManyBranches 70 18446744073709551615 10) := by
    decide +kernel
  obtain ⟨-, -, -, hbranches, -⟩ := limits_exact {} crowded
  obtain ⟨-, -, hpaths, -, -⟩ := limits_exact { maxDecisionPoints := 0xFFFFFFFFFFFFFFFF } crowded
  exact ⟨h, (hbranches _ _ _ h).2.1, by decide +kernel, hpaths rfl⟩

end Workflow

end WorkflowPaths
