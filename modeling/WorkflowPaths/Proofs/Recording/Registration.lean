import WorkflowPaths.Proofs.Draft.Contents
import WorkflowPaths.Proofs.Recording.References
import WorkflowPaths.Proofs.Target

/-!
# What recorded calls register

A call of a recording registers one step or one branch point, with a guard on the branch points
before it. `Registers` says which, `register_eq_ok_iff` that this is what registering a call does,
and `toDraft_eq_ok_iff` what a draft holds when all calls of a recording are registered: each call
is kept together with what it registers, and what stands before it in this list is all that its
references can refer to. Since calls are registered in source order, none of that is behind the call
(`line_le_of_foldlM_register`).
-/

namespace WorkflowPaths

/-- The step, if one was registered. -/
def Registered.step? (r : Registered (Action ⊕ Test)) : Option (Registered Action) :=
  r.what.getLeft?.map fun action => ⟨action, r.name, r.line, r.guard⟩

/-- The branch point, if one was registered. -/
def Registered.branch? (r : Registered (Action ⊕ Test)) : Option (Registered Test) :=
  r.what.getRight?.map fun test => ⟨test, r.name, r.line, r.guard⟩

theorem Registered.line_of_step? {r : Registered (Action ⊕ Test)} {x : Registered Action}
    (h : r.step? = some x) : x.line = r.line := by
  obtain ⟨action, -, rfl⟩ := Option.map_eq_some_iff.1 h
  rfl

theorem Registered.line_of_branch? {r : Registered (Action ⊕ Test)} {x : Registered Test}
    (h : r.branch? = some x) : x.line = r.line := by
  obtain ⟨test, -, rfl⟩ := Option.map_eq_some_iff.1 h
  rfl

/-- The draft with one more step or branch point. -/
def Draft.add (d : Draft) (r : Registered (Action ⊕ Test)) : Draft :=
  { d with steps := d.steps ++ r.step?.toList, branches := d.branches ++ r.branch?.toList }

theorem Draft.add_inl (d : Draft) (action : Action) (name : String) (line : UInt32)
    (guard : Guard) :
    d.add ⟨.inl action, name, line, guard⟩ = d.addStep action name line guard := by
  simp [add, addStep, Registered.step?, Registered.branch?]

theorem Draft.add_inr (d : Draft) (test : Test) (name : String) (line : UInt32) (guard : Guard) :
    d.add ⟨.inr test, name, line, guard⟩ = d.addBranch test name line guard := by
  simp [add, addBranch, Registered.step?, Registered.branch?]

/-- A guard with the given conditions. -/
def Guard.ofConditions : List (Nat × Bool) → Guard
  | [] => .always
  | conditions => .when conditions

theorem Guard.foldl_and_when (conditions more : List (Nat × Bool)) :
    more.foldl (fun g x => and g x.1 x.2) (Guard.when conditions) =
      Guard.when (conditions ++ more) := by
  induction more generalizing conditions with
  | nil => simp
  | cons x more ih => rw [List.foldl_cons, Guard.and, ih, List.append_assoc, List.singleton_append]

theorem Guard.foldl_and_always (conditions : List (Nat × Bool)) :
    conditions.foldl (fun g x => and g x.1 x.2) Guard.always = ofConditions conditions := by
  cases conditions with
  | nil => rfl
  | cons x more => exact foldl_and_when [x] more

namespace Call

/-- The argument is there and is not blank. -/
def IsGiven (value : Option String) (s : String) : Prop :=
  value = some s ∧ Text.isBlankText s = false

/-- The labels of a wait count only when both are given. -/
def labels (c : Call) : Option String × Option String :=
  match c.trueLabel, c.falseLabel with
  | some t, some f => (some t, some f)
  | _, _ => (none, none)

/-- What the call does, as its kind and its arguments say. -/
def Does (c : Call) (what : Action ⊕ Test) : Prop :=
  match c.kind with
  | .activity => what = .inl .activity
  | .childWorkflow => what = .inl .childWorkflow
  | .externalSignal => ∃ target, Target.IsNamedBy c.target target ∧
      what = .inl (.externalSignal target)
  | .decision => what = .inr .decision
  | .signalWait => ∃ condition timeout, IsGiven c.condition condition ∧
      IsGiven c.timeout timeout ∧
      what = .inr (.signalWait condition timeout c.labels.1 c.labels.2)

/-- What the call registers behind the given branch points. -/
structure Registers (branches : List (Registered Test)) (c : Call)
    (r : Registered (Action ⊕ Test)) : Prop where
  /-- It does what the call does. -/
  does : c.Does r.what
  /-- It has the name of the call. -/
  name : IsGiven c.name r.name
  /-- It is on the line of the call. -/
  line_eq : r.line = c.line
  /-- The guard is on branch points before the call. -/
  guard_eq : c.guard branches = .ok r.guard

variable {c : Call} {d d' : Draft} {branches : List (Registered Test)} {e : Recording.Error}

theorem require_eq_ok_iff {argument : String} {value : Option String} {s : String} :
    c.require argument value = .ok s ↔ IsGiven value s := by
  cases value with
  | none => simp [require, IsGiven]
  | some v =>
    rw [require, IsGiven]
    split
    next hblank =>
      simp only [reduceCtorEq, Option.some.injEq, false_iff, not_and]
      rintro rfl
      simpa using hblank
    next hblank =>
      simp only [Except.ok.injEq, Option.some.injEq]
      constructor
      · rintro rfl
        exact ⟨rfl, by simpa using hblank⟩
      · exact fun h => h.1

/-- Labels can be given at once to the branch point that was registered last. -/
theorem setLabels_addBranch (d : Draft) (test : Test) (name : String) (line : UInt32)
    (guard : Guard) (trueLabel falseLabel : String) :
    (d.addBranch test name line guard).setLabels d.branches.length trueLabel falseLabel =
      d.addBranch (Draft.relabel trueLabel falseLabel test) name line guard := by
  simp only [Draft.setLabels, Draft.addBranch]
  rw [List.modify_eq_take_cons_drop (by simp)]
  simp

theorem exists_registers_iff :
    (∃ r, c.Registers branches r ∧ d.add r = d') ↔
      ∃ name, IsGiven c.name name ∧ ∃ guard, c.guard branches = .ok guard ∧
        ∃ what, c.Does what ∧ d.add ⟨what, name, c.line, guard⟩ = d' := by
  constructor
  · rintro ⟨⟨what, name, line, guard⟩, ⟨hdoes, hname, rfl, hguard⟩, rfl⟩
    exact ⟨name, hname, guard, hguard, what, hdoes, rfl⟩
  · rintro ⟨name, hname, guard, hguard, what, hdoes, rfl⟩
    exact ⟨⟨what, name, c.line, guard⟩, ⟨hdoes, hname, rfl, hguard⟩, rfl⟩

/-- What registering one call does. -/
theorem register_eq_ok_iff :
    register d c = .ok d' ↔ ∃ r, c.Registers d.branches r ∧ d.add r = d' := by
  simp only [exists_registers_iff, register, bind_eq_ok_iff, require_eq_ok_iff]
  refine exists_congr fun name => and_congr_right fun _ => exists_congr fun guard =>
    and_congr_right fun _ => ?_
  cases hkind : c.kind with
  | activity => simp [Does, hkind, pure_eq_ok_iff, Draft.add_inl]
  | childWorkflow => simp [Does, hkind, pure_eq_ok_iff, Draft.add_inl]
  | externalSignal => simp [Does, hkind, pure_eq_ok_iff, Draft.add_inl, ← Target.classify_eq_iff]
  | decision => simp [Does, hkind, pure_eq_ok_iff, Draft.add_inr, Draft.addDecision]
  | signalWait =>
    have hwait : (∃ what, c.Does what ∧ d.add ⟨what, name, c.line, guard⟩ = d') ↔
        ∃ condition, IsGiven c.condition condition ∧ ∃ timeout, IsGiven c.timeout timeout ∧
          d.addBranch (.signalWait condition timeout c.labels.1 c.labels.2) name c.line guard =
            d' := by
      simp only [Does, hkind]
      constructor
      · rintro ⟨_, ⟨condition, timeout, hcondition, htimeout, rfl⟩, rfl⟩
        exact ⟨condition, hcondition, timeout, htimeout, (Draft.add_inr ..).symm⟩
      · rintro ⟨condition, hcondition, timeout, htimeout, rfl⟩
        exact ⟨_, ⟨condition, timeout, hcondition, htimeout, rfl⟩, Draft.add_inr ..⟩
    simp only [hwait, bind_eq_ok_iff, require_eq_ok_iff]
    refine exists_congr fun condition => and_congr_right fun _ => exists_congr fun timeout =>
      and_congr_right fun _ => ?_
    cases htrue : c.trueLabel <;> cases hfalse : c.falseLabel <;>
      simp [labels, htrue, hfalse, pure_eq_ok_iff, Draft.addSignalWait, setLabels_addBranch,
        Draft.relabel]

/-- What the guard of a call is: one condition for each reference, in order. -/
theorem guard_eq_ok_iff {g : Guard} :
    c.guard branches = .ok g ↔
      (c.membershipUnknown = true ∧ .unknown = g) ∨
      (c.membershipUnknown = false ∧ ∃ conditions,
        List.Forall₂ (fun reference x =>
          Reference.find? reference.branch c.line branches = some x.1 ∧ x.2 = reference.outcome)
          c.conditions conditions ∧
        .ofConditions conditions = g) := by
  cases hunknown : c.membershipUnknown with
  | true => simp [guard, hunknown]
  | false =>
    simp only [guard, hunknown, Bool.false_eq_true, if_false, false_and, false_or, true_and,
      ← Guard.foldl_and_always]
    refine foldlM_eq_ok_iff fun g reference g' => ?_
    cases Reference.find? reference.branch c.line branches with
    | none => simp
    | some n =>
      constructor
      · rintro ⟨⟩
        exact ⟨(n, reference.outcome), ⟨rfl, rfl⟩, rfl⟩
      · rintro ⟨⟨n', outcome⟩, ⟨⟨⟩, rfl⟩, rfl⟩
        rfl

/-- The guard of a call can be found when every reference reaches a branch point. -/
theorem exists_guard_iff (h : c.membershipUnknown = false) :
    (∃ g, c.guard branches = .ok g) ↔
      ∀ x ∈ c.conditions, ∃ b ∈ branches, Reference.Reaches x.branch c.line b := by
  constructor
  · rintro ⟨g, hg⟩ x hx
    rcases guard_eq_ok_iff.1 hg with ⟨hunknown, -⟩ | ⟨-, conditions, hall, -⟩
    · rw [h] at hunknown
      cases hunknown
    · obtain ⟨n, -, hfind, -⟩ := exists_of_forall₂_left hall hx
      exact Reference.exists_find?_iff.1 ⟨n.1, hfind⟩
  · intro hall
    have hfound : ∀ x ∈ c.conditions, ∃ n : Nat × Bool,
        Reference.find? x.branch c.line branches = some n.1 ∧ n.2 = x.outcome := by
      intro x hx
      obtain ⟨n, hn⟩ := Reference.exists_find?_iff.2 (hall x hx)
      exact ⟨(n, x.outcome), hn, rfl⟩
    obtain ⟨conditions, hconditions⟩ := exists_forall₂_iff.2 hfound
    exact ⟨_, guard_eq_ok_iff.2 (.inr ⟨h, conditions, hconditions, rfl⟩)⟩

theorem require_error_cases {argument : String} {value : Option String}
    (h : c.require argument value = .error e) : e = .missingArgument c.line c.kind argument := by
  unfold require at h
  split at h
  next =>
    split at h <;> cases h
    rfl
  next =>
    cases h
    rfl

/-- The guard of a call fails for one of its references. -/
theorem guard_error_cases (h : c.guard branches = .error e) :
    ∃ x ∈ c.conditions, e = .unknownBranch c.line x.branch := by
  unfold guard at h
  split at h
  next => cases h
  next =>
    obtain ⟨before, x, after, g, hconditions, -, hfail⟩ := foldlM_eq_error_iff.1 h
    refine ⟨x, by simp [hconditions], ?_⟩
    split at hfail <;> cases hfail
    rfl

/-- Registering a call fails for an argument that is missing, or for its guard. -/
theorem register_error_cases (h : register d c = .error e) :
    (∃ argument, e = .missingArgument c.line c.kind argument) ∨
      (∃ name, IsGiven c.name name) ∧ c.guard d.branches = .error e := by
  simp only [register, bind_eq_error_iff] at h
  rcases h with hname | ⟨name, hname, hguard | ⟨g, -, h⟩⟩
  · exact .inl ⟨_, require_error_cases hname⟩
  · exact .inr ⟨⟨name, require_eq_ok_iff.1 hname⟩, hguard⟩
  · -- Once the guard is there, only the arguments of a wait can be missing.
    cases hkind : c.kind with
    | signalWait =>
      simp only [hkind, bind_eq_error_iff] at h
      rcases h with hcondition | ⟨condition, -, htimeout | ⟨timeout, -, h⟩⟩
      · exact .inl ⟨_, hkind ▸ require_error_cases hcondition⟩
      · exact .inl ⟨_, hkind ▸ require_error_cases htimeout⟩
      · split at h <;> cases h
    | _ =>
      rw [hkind] at h
      cases h

end Call

namespace Recording

/-- Each call registers what stands beside it, behind the branch points before it. -/
def RegistersAll (rows : List (Call × Registered (Action ⊕ Test))) : Prop :=
  ∀ before row after, rows = before ++ row :: after →
    row.1.Registers (before.filterMap (·.2.branch?)) row.2

variable {rows : List (Call × Registered (Action ⊕ Test))}

theorem RegistersAll.of_mem (h : RegistersAll rows) {row : Call × Registered (Action ⊕ Test)}
    (hrow : row ∈ rows) : ∃ branches, row.1.Registers branches row.2 := by
  obtain ⟨before, after, hrows⟩ := List.append_of_mem hrow
  exact ⟨_, h before row after hrows⟩

/-- Where the calls are not behind a line, neither are the branch points that they register. -/
theorem line_le_of_registers {line : UInt32}
    (h : ∀ row ∈ rows, ∃ branches, row.1.Registers branches row.2)
    (hcalls : ∀ row ∈ rows, row.1.line ≤ line) :
    ∀ x ∈ rows.filterMap (·.2.branch?), x.line ≤ line := by
  intro x hx
  obtain ⟨row, hrow, hbranch⟩ := List.mem_filterMap.1 hx
  obtain ⟨branches, hregisters⟩ := h row hrow
  rw [Registered.line_of_branch? hbranch, hregisters.line_eq]
  exact hcalls row hrow

theorem registersAll_concat_iff {row : Call × Registered (Action ⊕ Test)} :
    RegistersAll (rows ++ [row]) ↔
      RegistersAll rows ∧ row.1.Registers (rows.filterMap (·.2.branch?)) row.2 := by
  constructor
  · intro h
    refine ⟨fun before row' after hrows => ?_, h rows row [] rfl⟩
    exact h before row' (after ++ [row]) (by rw [hrows]; simp)
  · rintro ⟨hrows, hrow⟩ before row' after h
    rcases concat_eq_append_cons_iff.1 h with ⟨rfl, rfl, -⟩ | ⟨rest, hrest, -⟩
    · exact hrow
    · exact hrows before row' rest hrest

/-- A draft with what the rows hold. -/
def draftOf (name : String) (rows : List (Call × Registered (Action ⊕ Test))) : Draft :=
  ⟨name, rows.filterMap (·.2.step?), rows.filterMap (·.2.branch?)⟩

theorem draftOf_concat (name : String) (rows : List (Call × Registered (Action ⊕ Test)))
    (row : Call × Registered (Action ⊕ Test)) :
    draftOf name (rows ++ [row]) = (draftOf name rows).add row.2 := by
  simp only [draftOf, Draft.add, List.filterMap_append]
  cases hstep : row.2.step? <;> cases hbranch : row.2.branch? <;> simp [hstep, hbranch]

/-- What a draft holds when calls are registered one after the other. -/
theorem foldlM_register_eq_ok_iff {name : String} {calls : List Call} {d : Draft} :
    calls.foldlM Call.register { name } = .ok d ↔
      ∃ rows, rows.map (·.1) = calls ∧ RegistersAll rows ∧ draftOf name rows = d := by
  -- The last call sees what all others have registered, so the induction takes calls off the end.
  induction calls using List.reverseRecOn generalizing d with
  | nil =>
    simp only [List.foldlM_nil, pure_eq_ok_iff, List.map_eq_nil_iff, exists_eq_left]
    simp [RegistersAll, draftOf]
  | append_singleton calls c ih =>
    simp only [List.foldlM_append, List.foldlM_cons, List.foldlM_nil, bind_pure, bind_eq_ok_iff, ih,
      Call.register_eq_ok_iff]
    constructor
    · rintro ⟨_, ⟨rows, rfl, hrows, rfl⟩, r, hr, rfl⟩
      refine ⟨rows ++ [(c, r)], by simp, registersAll_concat_iff.2 ⟨hrows, hr⟩, ?_⟩
      rw [draftOf_concat]
    · rintro ⟨_, hcalls, hrows, rfl⟩
      obtain ⟨rows, last, rfl, rfl, hlast⟩ := List.map_eq_append_iff.1 hcalls
      obtain ⟨row, rfl, rfl⟩ := List.map_eq_singleton_iff.1 hlast
      rw [registersAll_concat_iff] at hrows
      exact ⟨_, ⟨rows, rfl, hrows.1, rfl⟩, row.2, hrows.2, (draftOf_concat _ _ _).symm⟩

/-- **References look only upwards.** When a call is registered, in source order, no branch point is
there that is behind the line of the call, so none is passed over for its line. -/
theorem line_le_of_foldlM_register {name : String} {before after : List Call} {c : Call} {d : Draft}
    (hcalls : (before ++ c :: after).Pairwise (·.line ≤ ·.line))
    (hd : before.foldlM Call.register { name } = .ok d) : ∀ x ∈ d.branches, x.line ≤ c.line := by
  obtain ⟨rows, rfl, hrows, rfl⟩ := foldlM_register_eq_ok_iff.1 hd
  obtain ⟨-, -, hbefore⟩ := List.pairwise_append.1 hcalls
  refine line_le_of_registers (fun row hrow => hrows.of_mem hrow) fun row hrow => ?_
  exact hbefore row.1 (List.mem_map_of_mem hrow) c List.mem_cons_self

/-- **What a draft holds when a recording is registered**: one step or branch point for each call,
in source order. -/
theorem toDraft_eq_ok_iff {r : Recording} {d : Draft} :
    r.toDraft = .ok d ↔
      ∃ rows, rows.map (·.1) = r.orderedCalls ∧ RegistersAll rows ∧ draftOf r.workflow rows = d :=
  foldlM_register_eq_ok_iff

theorem toWorkflow_eq_ok_iff {r : Recording} {w : Workflow} :
    r.toWorkflow = .ok w ↔ ∃ d, r.toDraft = .ok d ∧ d.finish = .ok w := by
  simp only [toWorkflow, bind_eq_ok_iff, mapError_eq_ok_iff]

end Recording

end WorkflowPaths
