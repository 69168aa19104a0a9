import Mathlib.Data.List.Induction
import WorkflowPaths.Draft.Basic

/-!
# What a draft holds

A draft is made by calls that register steps and branch points and set labels. This module reads
off the calls what was registered, without a draft: the steps (`stepCalls`) and the branch points
(`branchCalls`), each with the labels that were set last. Labels count only behind the call that
registers the branch point, and only for waits. The draft holds exactly these
(`ofRegistrations_eq`).
-/

namespace WorkflowPaths

namespace Registration

/-- The step that a call registers. -/
def step? : Registration → Option (Registered Action)
  | .step action name line guard => some ⟨action, name, line, guard⟩
  | .decision .. | .signalWait .. | .labels .. => none

/-- The branch point that a call registers, without labels of its own. -/
def branch? : Registration → Option (Registered Test)
  | .decision name line guard => some ⟨.decision, name, line, guard⟩
  | .signalWait name line condition timeout guard =>
    some ⟨.signalWait condition timeout none none, name, line, guard⟩
  | .step .. | .labels .. => none

/-- The labels that a call gives to the branch point with the given number. -/
def labelsFor? (branch : Nat) : Registration → Option (String × String)
  | .labels number trueLabel falseLabel =>
    if number = branch then some (trueLabel, falseLabel) else none
  | .step .. | .decision .. | .signalWait .. => none

end Registration

/-- The registered branch point with other labels, if any are given. Decisions have none. -/
def Registered.labelled (r : Registered Test) : Option (String × String) → Registered Test
  | none => r
  | some labels => { r with what := Draft.relabel labels.1 labels.2 r.what }

/-- Of two labellings the later one counts. -/
theorem Registered.labelled_labelled (r : Registered Test) (old new : Option (String × String)) :
    (r.labelled old).labelled new = r.labelled (new.or old) := by
  cases new with
  | none => rfl
  | some new =>
    cases old with
    | none => rfl
    | some old => cases hwhat : r.what <;> simp [labelled, Draft.relabel, hwhat]

namespace Draft

/-- The steps that the calls register. -/
def stepCalls (calls : List Registration) : List (Registered Action) :=
  calls.filterMap Registration.step?

/-- The calls behind the one that registers the branch point with the given number. -/
def callsBehind : Nat → List Registration → List Registration
  | _, [] => []
  | branch, call :: rest =>
    if call.branch?.isNone then callsBehind branch rest
    else if branch = 0 then rest
    else callsBehind (branch - 1) rest

/-- The labels that were set last for the branch point with the given number. -/
def lastLabels? (calls : List Registration) (branch : Nat) : Option (String × String) :=
  (callsBehind branch calls).reverse.findSome? (Registration.labelsFor? branch)

/-- The branch points that the calls register, with the labels that were set last. -/
def branchCalls (calls : List Registration) : List (Registered Test) :=
  (calls.filterMap Registration.branch?).mapIdx fun i r => r.labelled (lastLabels? calls i)

variable {calls : List Registration} {branch : Nat}

theorem callsBehind_concat_of_lt (h : branch < (calls.filterMap Registration.branch?).length)
    (call : Registration) :
    callsBehind branch (calls ++ [call]) = callsBehind branch calls ++ [call] := by
  induction calls generalizing branch with
  | nil => simp at h
  | cons c rest ih =>
    rw [List.cons_append, callsBehind, callsBehind]
    cases hc : c.branch? with
    | none => exact ih (by simpa [hc] using h)
    | some r =>
      by_cases hzero : branch = 0
      · simp [hzero]
      · simp only [List.filterMap_cons_some hc, List.length_cons] at h
        simpa [hzero] using @ih (branch - 1) (by omega)

theorem callsBehind_concat_of_le (h : (calls.filterMap Registration.branch?).length ≤ branch)
    (call : Registration) : callsBehind branch (calls ++ [call]) = [] := by
  induction calls generalizing branch with
  | nil => simp [callsBehind]
  | cons c rest ih =>
    rw [List.cons_append, callsBehind]
    cases hc : c.branch? with
    | none => exact ih (by simpa [hc] using h)
    | some r =>
      simp only [List.filterMap_cons_some hc, List.length_cons] at h
      have hpos : branch ≠ 0 := by omega
      simpa [hpos] using @ih (branch - 1) (by omega)

/-- One more call sets the labels of a branch point that is there, or leaves them. -/
theorem lastLabels?_concat_of_lt (h : branch < (calls.filterMap Registration.branch?).length)
    (call : Registration) :
    lastLabels? (calls ++ [call]) branch =
      (call.labelsFor? branch).or (lastLabels? calls branch) := by
  rw [lastLabels?, callsBehind_concat_of_lt h, List.reverse_append, List.reverse_singleton,
    List.singleton_append, List.findSome?_cons]
  cases call.labelsFor? branch <;> rfl

/-- A branch point that was just registered, or that is not there, has no labels. -/
theorem lastLabels?_concat_of_le (h : (calls.filterMap Registration.branch?).length ≤ branch)
    (call : Registration) : lastLabels? (calls ++ [call]) branch = none := by
  rw [lastLabels?, callsBehind_concat_of_le h]
  rfl

/-- One more call sets labels of the branch points that are there, and may register one. -/
theorem branchCalls_concat (calls : List Registration) (call : Registration) :
    branchCalls (calls ++ [call]) =
      ((branchCalls calls).mapIdx fun i r => r.labelled (call.labelsFor? i)) ++
        call.branch?.toList := by
  have hregistered : ((calls ++ [call]).filterMap Registration.branch?) =
      calls.filterMap Registration.branch? ++ call.branch?.toList := by
    cases hc : call.branch? <;> simp [hc]
  rw [branchCalls, hregistered, List.mapIdx_append]
  congr 1
  · rw [branchCalls]
    apply List.ext_getElem
    · simp
    · intro i h₁ h₂
      have hi : i < (calls.filterMap Registration.branch?).length := by simpa using h₁
      simp only [List.getElem_mapIdx]
      rw [lastLabels?_concat_of_lt hi, Registered.labelled_labelled]
  · cases hc : call.branch? with
    | none => rfl
    | some r =>
      rw [Option.toList_some, List.mapIdx_singleton, lastLabels?_concat_of_le (by omega)]
      rfl

theorem stepCalls_concat (calls : List Registration) (call : Registration) :
    stepCalls (calls ++ [call]) = stepCalls calls ++ call.step?.toList := by
  cases hc : call.step? <;> simp [stepCalls, hc]

/-- What one call does to a draft. -/
theorem register_eq (d : Draft) (call : Registration) :
    d.register call = {
      name := d.name
      steps := d.steps ++ call.step?.toList
      branches := (d.branches.mapIdx fun i r => r.labelled (call.labelsFor? i)) ++
        call.branch?.toList } := by
  have hkept : (d.branches.mapIdx fun _ r => r.labelled none) = d.branches :=
    List.mapIdx_eq_iff.2 fun i => by cases d.branches[i]? <;> rfl
  cases call with
  | step action name line guard =>
    simp [register, addStep, Registration.step?, Registration.branch?, Registration.labelsFor?,
      hkept]
  | decision name line guard =>
    simp [register, addDecision, addBranch, Registration.step?, Registration.branch?,
      Registration.labelsFor?, hkept]
  | signalWait name line condition timeout guard =>
    simp [register, addSignalWait, addBranch, Registration.step?, Registration.branch?,
      Registration.labelsFor?, hkept]
  | labels branch trueLabel falseLabel =>
    have hmodify : (d.branches.mapIdx fun i r =>
        r.labelled (if branch = i then some (trueLabel, falseLabel) else none)) =
        d.branches.modify branch fun r =>
          { r with what := relabel trueLabel falseLabel r.what } := by
      refine List.mapIdx_eq_iff.2 fun i => ?_
      rw [List.getElem?_modify]
      by_cases hi : branch = i <;> cases d.branches[i]? <;> simp [hi, Registered.labelled]
    simp [register, setLabels, Registration.step?, Registration.branch?, Registration.labelsFor?,
      hmodify]

/-- **A draft holds what was registered**: the steps, and the branch points with the labels that
were set last, in the order of the calls. -/
theorem ofRegistrations_eq (name : String) (calls : List Registration) :
    ofRegistrations name calls = ⟨name, stepCalls calls, branchCalls calls⟩ := by
  induction calls using List.reverseRecOn with
  | nil => rfl
  | append_singleton calls call ih =>
    have hregister : ofRegistrations name (calls ++ [call]) =
        (ofRegistrations name calls).register call := by
      simp [ofRegistrations, List.foldl_append]
    rw [hregister, ih, register_eq, stepCalls_concat, branchCalls_concat]

end Draft

end WorkflowPaths
