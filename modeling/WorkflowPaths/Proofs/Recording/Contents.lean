import WorkflowPaths.Proofs.Recording.Registration

/-!
# What becomes of recorded calls

A call is followed from a recording to the entry of the workflow that comes from it. On the way its
place changes three times: the calls are sorted by line, what they register is counted, and the
draft is sorted and given ids. The entries therefore stand in rows beside their calls, in source
order (`ConsistsOf`), and a reference is followed upwards in these rows (`RefersTo`).

* `exists_rows`: the steps and the branch points of a workflow can be put beside the calls that they
  come from.
* `refersTo_of_find?`: the number that a reference is resolved to is that of a branch point above.
* `exists_consistsOf`: the rows of a workflow from a recording.
* `toWorkflow_follows_references`: every reference ends at the last branch point that it asks for.
-/

namespace WorkflowPaths

/-- What the entry does. -/
def Entry.what : Entry → Action ⊕ Test
  | .step s => .inl s.action
  | .branch b => .inr b.test

/-- The step, if the entry is one. -/
def Entry.step? : Entry → Option Step
  | .step s => some s
  | .branch _ => none

/-- The branch point, if the entry is one. -/
def Entry.branch? : Entry → Option Branch
  | .step _ => none
  | .branch b => some b

/-- The call is for a branch point. -/
def Call.IsBranch (c : Call) : Prop := c.kind = .decision ∨ c.kind = .signalWait

/-- The call is for a branch point that the reference asks for. -/
def Call.IsAskedFor (c : Call) (text : String) : Prop :=
  c.IsBranch ∧ ∃ name, c.name = some name ∧ Reference.AsksFor text name c.line

/-- Behind the given rows, the text refers to the branch point with the id: the last one that it
asks for. -/
def RefersTo (before : List (Call × Entry)) (text id : String) : Prop :=
  ∃ above c b between, before = above ++ (c, Entry.branch b) :: between ∧
    c.IsAskedFor text ∧ b.id = id ∧ ∀ row ∈ between, ¬ row.1.IsAskedFor text

/-- The entry comes from the call, which stands behind the given rows. -/
structure Entry.ComesFrom (before : List (Call × Entry)) (c : Call) (e : Entry) : Prop where
  /-- The entry does what the call does. -/
  does : c.Does e.what
  /-- The name is kept. -/
  name_eq : c.name = some e.name
  /-- The line is kept. -/
  line_eq : e.line = c.line
  /-- What is not known stays so. -/
  unknown : c.membershipUnknown = true → e.membership = .unknown
  /-- Otherwise each reference is a condition on the branch point that it refers to. -/
  known : c.membershipUnknown = false → ∃ conditions, e.membership = .known conditions ∧
    List.Forall₂ (fun reference condition =>
      RefersTo before reference.branch condition.branch ∧ condition.outcome = reference.outcome)
      c.conditions conditions

/-- The workflow consists of the entries that come from the calls beside them. -/
structure Workflow.ConsistsOf (w : Workflow) (rows : List (Call × Entry)) : Prop where
  /-- The steps are those of the rows, in order. -/
  steps_eq : w.steps = rows.filterMap (·.2.step?)
  /-- The branch points are those of the rows, in order. -/
  branches_eq : w.branches = rows.filterMap (·.2.branch?)
  /-- Each entry comes from its call. -/
  comes_from : ∀ before row after, rows = before ++ row :: after →
    row.2.ComesFrom before row.1

/-- The entry is what becomes of the registered call. -/
def Entry.Realizes (named : Nat → String → Prop) (r : Registered (Action ⊕ Test)) (e : Entry) :
    Prop :=
  r.Becomes named e.what e.name e.line e.membership

theorem Entry.Realizes.isSome_branch? {named : Nat → String → Prop}
    {r : Registered (Action ⊕ Test)} {e : Entry} (h : e.Realizes named r) :
    e.branch?.isSome = r.branch?.isSome := by
  rw [Registered.branch?, ← h.what_eq]
  cases e <;> rfl

theorem Guard.Becomes.eq_unknown {named : Nat → String → Prop} {m : Membership}
    (h : Becomes named .unknown m) : m = .unknown := by
  cases h
  rfl

theorem Guard.becomes_ofConditions_iff {named : Nat → String → Prop}
    {conditions : List (Nat × Bool)} {m : Membership} :
    (ofConditions conditions).Becomes named m ↔ ∃ resolved, m = .known resolved ∧
      List.Forall₂ (fun x c => named x.1 c.branch ∧ c.outcome = x.2) conditions resolved := by
  cases conditions with
  | nil =>
    constructor
    · rintro ⟨⟩
      exact ⟨[], rfl, .nil⟩
    · rintro ⟨resolved, rfl, ⟨⟩⟩
      exact .always
  | cons x more =>
    constructor
    · intro h
      cases h with
      | when hall => exact ⟨_, rfl, hall⟩
    · rintro ⟨resolved, rfl, hall⟩
      exact .when hall

namespace Call

variable {c : Call} {text : String}

theorem Does.isBranch_iff {what : Action ⊕ Test} (h : c.Does what) :
    c.IsBranch ↔ ∃ test, what = .inr test := by
  unfold Does at h
  cases hkind : c.kind with
  | activity => simp_all [IsBranch]
  | childWorkflow => simp_all [IsBranch]
  | externalSignal =>
    rw [hkind] at h
    obtain ⟨target, -, rfl⟩ := h
    simp [IsBranch, hkind]
  | decision => simp_all [IsBranch]
  | signalWait =>
    rw [hkind] at h
    obtain ⟨condition, timeout, -, -, rfl⟩ := h
    simp [IsBranch, hkind]

/-- A reference asks for a call when it asks for what the call registers. -/
theorem Registers.isAskedFor_iff {branches : List (Registered Test)}
    {r : Registered (Action ⊕ Test)} (h : c.Registers branches r) :
    c.IsAskedFor text ↔
      ∃ x, r.branch? = some x ∧ Reference.AsksFor text x.name x.line := by
  obtain ⟨what, name, line, guard⟩ := r
  obtain ⟨hdoes, ⟨hname, -⟩, rfl, -⟩ := h
  rw [IsAskedFor, hdoes.isBranch_iff]
  cases what <;> simp [hname, Registered.branch?]

/-- What becomes of the guard of a call, where `named n id` says that the branch point with the
number `n` has the id. -/
theorem membership_of_guard {branches : List (Registered Test)} {named : Nat → String → Prop}
    {g : Guard} {m : Membership} (hguard : c.guard branches = .ok g) (h : g.Becomes named m) :
    (c.membershipUnknown = true → m = .unknown) ∧
      (c.membershipUnknown = false → ∃ conditions, m = .known conditions ∧
        List.Forall₂ (fun reference condition =>
          (∃ n, Reference.find? reference.branch c.line branches = some n ∧
            named n condition.branch) ∧
            condition.outcome = reference.outcome)
          c.conditions conditions) := by
  rcases guard_eq_ok_iff.1 hguard with ⟨hunknown, rfl⟩ | ⟨hknown, numbers, hall, rfl⟩
  · simpa [hunknown] using h.eq_unknown
  · obtain ⟨conditions, hm, hconditions⟩ := Guard.becomes_ofConditions_iff.1 h
    refine ⟨by simp [hknown], fun _ => ⟨conditions, hm, forall₂_comp hall hconditions ?_⟩⟩
    rintro reference x condition ⟨hfind, houtcome⟩ ⟨hnamed, hcondition⟩
    exact ⟨⟨x.1, hfind, hnamed⟩, hcondition.trans houtcome⟩

end Call

namespace Recording

variable {named : Nat → String → Prop} {rows : List (Call × Registered (Action ⊕ Test))}

/-- The steps and the branch points can be put beside the calls that they come from. -/
theorem exists_rows {steps : List Step} {branches : List Branch}
    (hsteps : List.Forall₂ (fun r s => s.Realizes named r) (rows.filterMap (·.2.step?)) steps)
    (hbranches : List.Forall₂ (fun r b => b.Realizes named r) (rows.filterMap (·.2.branch?))
      branches) :
    ∃ wide : List ((Call × Registered (Action ⊕ Test)) × Entry), wide.map (·.1) = rows ∧
      (∀ row ∈ wide, row.2.Realizes named row.1.2) ∧
      steps = wide.filterMap (·.2.step?) ∧ branches = wide.filterMap (·.2.branch?) := by
  induction rows generalizing steps branches with
  | nil =>
    cases hsteps
    cases hbranches
    exact ⟨[], rfl, by simp, rfl, rfl⟩
  | cons row rows ih =>
    obtain ⟨c, what, name, line, guard⟩ := row
    cases what with
    | inl action =>
      obtain ⟨s, rest, hs, hrest, rfl⟩ := List.forall₂_cons_left_iff.1 hsteps
      obtain ⟨wide, rfl, hall, rfl, rfl⟩ := ih hrest hbranches
      refine ⟨((c, ⟨.inl action, name, line, guard⟩), .step s) :: wide, rfl,
        List.forall_mem_cons.2 ⟨?_, hall⟩, rfl, rfl⟩
      exact ⟨congrArg Sum.inl hs.what_eq, hs.name_eq, hs.line_eq, hs.membership⟩
    | inr test =>
      obtain ⟨b, rest, hb, hrest, rfl⟩ := List.forall₂_cons_left_iff.1 hbranches
      obtain ⟨wide, rfl, hall, rfl, rfl⟩ := ih hsteps hrest
      refine ⟨((c, ⟨.inr test, name, line, guard⟩), .branch b) :: wide, rfl,
        List.forall_mem_cons.2 ⟨?_, hall⟩, rfl, rfl⟩
      exact ⟨congrArg Sum.inr hb.what_eq, hb.name_eq, hb.line_eq, hb.membership⟩

section

variable {wide : List ((Call × Registered (Action ⊕ Test)) × Entry)} {text : String}

/-- The branch points are as many as the calls that register them. -/
theorem length_filterMap_branch? (hrealizes : ∀ row ∈ wide, row.2.Realizes named row.1.2) :
    (wide.filterMap (·.2.branch?)).length = (wide.filterMap (·.1.2.branch?)).length := by
  rw [List.length_filterMap_eq_countP, List.length_filterMap_eq_countP]
  refine List.countP_congr fun row hrow => ?_
  rw [(hrealizes row hrow).isSome_branch?]

/-- The number that a reference is resolved to is that of a branch point above, the last one that
the reference asks for: the calls above are not behind the line of the reference. -/
theorem refersTo_of_find? {line : UInt32} (hcalls : ∀ row ∈ wide, row.1.1.line ≤ line)
    (hregisters : ∀ row ∈ wide, ∃ branches, row.1.1.Registers branches row.1.2)
    (hrealizes : ∀ row ∈ wide, row.2.Realizes named row.1.2) {n : Nat} {id : String}
    (hfind : Reference.find? text line (wide.filterMap (·.1.2.branch?)) = some n)
    {more : List Branch}
    (hid : (wide.filterMap (·.2.branch?) ++ more)[n]?.map Branch.id = some id) :
    RefersTo (wide.map fun row => (row.1.1, row.2)) text id := by
  have hlines : ∀ x ∈ wide.filterMap (·.1.2.branch?), x.line ≤ line := by
    have h : ∀ x ∈ (wide.map (·.1)).filterMap (·.2.branch?), x.line ≤ line :=
      line_le_of_registers (List.forall_mem_map.2 hregisters) (List.forall_mem_map.2 hcalls)
    rwa [List.filterMap_map] at h
  obtain ⟨before, x, after, hsplit, rfl, ⟨-, hasks⟩, hafter⟩ :=
    Reference.find?_eq_some_iff.1 hfind
  obtain ⟨first, second, rfl, hfirst, hsecond⟩ := List.filterMap_eq_append_iff.1 hsplit
  obtain ⟨skipped, row, between, rfl, hskipped, hx, rfl⟩ := List.filterMap_eq_cons_iff.1 hsecond
  rw [← List.append_assoc] at hid hregisters hrealizes ⊢
  -- The number counts the branch points above, as registered and as they are in the workflow.
  have hlength : before.length = ((first ++ skipped).filterMap (·.2.branch?)).length := by
    rw [length_filterMap_branch? fun row hrow => hrealizes row (List.mem_append_left _ hrow),
      List.filterMap_append, hfirst, List.filterMap_eq_nil_iff.2 hskipped, List.append_nil]
  obtain ⟨b, hb⟩ : ∃ b, row.2 = .branch b := by
    have hsome : row.2.branch?.isSome = true := by
      rw [(hrealizes row (by simp)).isSome_branch?, hx, Option.isSome_some]
    cases hrow : row.2 with
    | step s => simp [hrow, Entry.branch?] at hsome
    | branch b => exact ⟨b, rfl⟩
  refine ⟨_, row.1.1, b, _, by rw [List.map_append, List.map_cons, hb], ?_, ?_, ?_⟩
  · obtain ⟨branches, hrow⟩ := hregisters row (by simp)
    exact hrow.isAskedFor_iff.2 ⟨x, hx, hasks⟩
  · rw [List.filterMap_append, List.append_assoc, hlength, List.getElem?_append_right le_rfl] at hid
    simpa [hb, Entry.branch?] using hid
  · rintro _ hmem
    obtain ⟨row', hrow', rfl⟩ := List.mem_map.1 hmem
    obtain ⟨branches, hregistered⟩ := hregisters row' (by simp [hrow'])
    rw [hregistered.isAskedFor_iff]
    rintro ⟨x', hx', hasks'⟩
    have hmem : x' ∈ between.filterMap (·.1.2.branch?) := List.mem_filterMap.2 ⟨row', hrow', hx'⟩
    have hline : x'.line ≤ line := hlines x' (by simp [hsplit, hmem])
    exact hafter x' hmem ((Reference.reaches_iff_of_le hline).2 hasks')

/-- Each entry comes from its call. -/
theorem comesFrom_of_realizes (hcalls : (wide.map (·.1.1)).Pairwise (·.line ≤ ·.line))
    (hregisters : RegistersAll (wide.map (·.1)))
    (hrealizes : ∀ row ∈ wide, row.2.Realizes
      (fun n id => (wide.filterMap (·.2.branch?))[n]?.map Branch.id = some id) row.1.2)
    {before after : List ((Call × Registered (Action ⊕ Test)) × Entry)}
    {row : (Call × Registered (Action ⊕ Test)) × Entry} (hwide : wide = before ++ row :: after) :
    row.2.ComesFrom (before.map fun row => (row.1.1, row.2)) row.1.1 := by
  have hbefore {row' : (Call × Registered (Action ⊕ Test)) × Entry} (hrow' : row' ∈ before) :
      row' ∈ wide := hwide ▸ List.mem_append_left _ hrow'
  have hlines : ∀ row' ∈ before, row'.1.1.line ≤ row.1.1.line := by
    rw [hwide, List.pairwise_map, List.pairwise_append] at hcalls
    exact fun row' hrow' => hcalls.2.2 row' hrow' row List.mem_cons_self
  have hregistered : ∀ row ∈ before, ∃ branches, row.1.1.Registers branches row.1.2 :=
    fun row hrow => hregisters.of_mem (List.mem_map_of_mem (hbefore hrow))
  have hrow : row.1.1.Registers (before.filterMap (·.1.2.branch?)) row.1.2 := by
    have h := hregisters (before.map (·.1)) row.1 (after.map (·.1)) (by rw [hwide]; simp)
    rwa [List.filterMap_map] at h
  have hentry := hrealizes row (by simp [hwide])
  obtain ⟨hunknown, hknown⟩ := Call.membership_of_guard hrow.guard_eq hentry.membership
  refine ⟨?_, ?_, ?_, hunknown, fun h => ?_⟩
  · rw [hentry.what_eq]
    exact hrow.does
  · rw [hentry.name_eq]
    exact hrow.name.1
  · rw [hentry.line_eq]
    exact hrow.line_eq
  · obtain ⟨conditions, hmembership, hall⟩ := hknown h
    refine ⟨conditions, hmembership, hall.imp ?_⟩
    rintro reference condition ⟨⟨n, hfind, hid⟩, houtcome⟩
    rw [hwide, List.filterMap_append] at hid
    exact ⟨refersTo_of_find? hlines hregistered (fun row hrow => hrealizes row (hbefore hrow)) hfind
      hid, houtcome⟩

end

/-! ### Calls in source order -/

/-- What is registered in source order is in source order. -/
theorem RegistersAll.pairwise_line (h : RegistersAll rows)
    (hcalls : (rows.map (·.1)).Pairwise (·.line ≤ ·.line)) :
    rows.Pairwise fun row row' => row.2.line ≤ row'.2.line := by
  refine (List.pairwise_map.1 hcalls).imp_of_mem fun {row row'} hrow hrow' hle => ?_
  obtain ⟨_, hregisters⟩ := h.of_mem hrow
  obtain ⟨_, hregisters'⟩ := h.of_mem hrow'
  rwa [hregisters.line_eq, hregisters'.line_eq]

theorem pairwise_line_filterMap {α : Type}
    {f : Call × Registered (Action ⊕ Test) → Option (Registered α)}
    (hf : ∀ row x, f row = some x → x.line = row.2.line)
    (h : rows.Pairwise fun row row' => row.2.line ≤ row'.2.line) :
    (rows.filterMap f).Pairwise (·.line ≤ ·.line) := by
  refine h.filterMap _ fun row row' hle x hx x' hx' => ?_
  rwa [hf row x hx, hf row' x' hx']

/-- Where everything is registered in source order, the numbers of the branch points are their
places in the workflow. -/
theorem realizes_of_assemble_in_order {d : Draft} {w : Workflow} (h : d.assemble = .ok w)
    (hsteps : d.steps.Pairwise (·.line ≤ ·.line))
    (hbranches : d.branches.Pairwise (·.line ≤ ·.line)) :
    List.Forall₂ (fun r s => s.Realizes (fun n id => w.branches[n]?.map Branch.id = some id) r)
        d.steps w.steps ∧
      List.Forall₂ (fun r b => b.Realizes (fun n id => w.branches[n]?.map Branch.id = some id) r)
        d.branches w.branches := by
  have hordered : d.orderedBranches = d.branches.zipIdx := by
    rw [← List.zipIdx_map_fst 0 d.branches, List.pairwise_map] at hbranches
    exact SourceOrder.sort_eq_self hbranches
  have hgives (n : Nat) (id : String) (hid : w.GivesId d.branches.zipIdx n id) :
      w.branches[n]?.map Branch.id = some id := by
    obtain ⟨x, hx, rfl, rfl⟩ := hid
    obtain ⟨i, hi⟩ := List.mem_iff_getElem?.1 hx
    obtain ⟨hnumber, hbranch⟩ := List.getElem?_zip_eq_some.1 hi
    rw [List.getElem?_zipIdx] at hnumber
    obtain ⟨_, -, hx⟩ := Option.map_eq_some_iff.1 hnumber
    rw [← hx, Nat.zero_add, hbranch, Option.map_some]
  have hrealizes := Draft.realizes_of_assemble h
  rw [hordered, Draft.orderedSteps, SourceOrder.sort_eq_self hsteps] at hrealizes
  refine ⟨hrealizes.steps_realized.imp fun r s hs => hs.imp hgives, ?_⟩
  have hmap := hrealizes.branches_realized.imp fun x b hb => hb.imp hgives
  rw [← List.zipIdx_map_fst 0 d.branches, List.forall₂_map_left_iff]
  exact hmap

/-- The entries of a workflow, valid or not, can be put beside the calls in source order. -/
theorem exists_consistsOf_of_assemble {r : Recording} {d : Draft} {w : Workflow}
    (hd : r.toDraft = .ok d) (h : d.assemble = .ok w) :
    ∃ rows : List (Call × Entry), rows.map (·.1) = r.orderedCalls ∧ w.ConsistsOf rows := by
  obtain ⟨rows, hcalls, hregisters, rfl⟩ := toDraft_eq_ok_iff.1 hd
  have hordered : r.orderedCalls.Pairwise (·.line ≤ ·.line) := SourceOrder.pairwise_sort _ _
  have hlines := hregisters.pairwise_line (hcalls ▸ hordered)
  obtain ⟨hsteps, hbranches⟩ := realizes_of_assemble_in_order h
    (pairwise_line_filterMap (fun _ _ hx => Registered.line_of_step? hx) hlines)
    (pairwise_line_filterMap (fun _ _ hx => Registered.line_of_branch? hx) hlines)
  obtain ⟨wide, rfl, hrealizes, hwsteps, hwbranches⟩ := exists_rows hsteps hbranches
  rw [hwbranches] at hrealizes
  refine ⟨wide.map fun row => (row.1.1, row.2), ?_, ?_, ?_, ?_⟩
  · rw [List.map_map] at hcalls ⊢
    exact hcalls
  · rw [List.filterMap_map]
    exact hwsteps
  · rw [List.filterMap_map]
    exact hwbranches
  · intro before row after hrows
    obtain ⟨first, second, hwide, rfl, hsecond⟩ := List.map_eq_append_iff.1 hrows
    obtain ⟨wideRow, rest, rfl, rfl, rfl⟩ := List.map_eq_cons_iff.1 hsecond
    rw [List.map_map] at hcalls
    exact comesFrom_of_realizes (hcalls ▸ hordered) hregisters hrealizes hwide

/-- The entries of the workflow can be put beside the calls in source order. -/
theorem exists_consistsOf {r : Recording} {w : Workflow} (h : r.toWorkflow = .ok w) :
    ∃ rows : List (Call × Entry), rows.map (·.1) = r.orderedCalls ∧ w.ConsistsOf rows := by
  obtain ⟨d, hd, hfinish⟩ := toWorkflow_eq_ok_iff.1 h
  exact exists_consistsOf_of_assemble hd (Draft.finish_eq_ok_iff.1 hfinish).1

/-- **References end at the branch points that they ask for.** The steps and the branch points of
the workflow come from the calls in source order, one from each. An entry has the conditions that
its call names, each on the id of the last branch point before the call that is asked for. -/
theorem toWorkflow_follows_references {r : Recording} {w : Workflow} (h : r.toWorkflow = .ok w) :
    w.name = r.workflow ∧ ∃ rows : List (Call × Entry),
      SourceOrder.StablySorted Call.line r.calls (rows.map (·.1)) ∧ w.ConsistsOf rows := by
  obtain ⟨d, hd, hfinish⟩ := toWorkflow_eq_ok_iff.1 h
  obtain ⟨_, -, -, rfl⟩ := toDraft_eq_ok_iff.1 hd
  obtain ⟨rows, hcalls, hrows⟩ := exists_consistsOf h
  refine ⟨(Draft.assemble_eq_ok_iff.1 (Draft.finish_eq_ok_iff.1 hfinish).1).1, rows, ?_, hrows⟩
  rw [hcalls]
  exact SourceOrder.stablySorted_sort _ _

/-- The calls of a review, as a detector may come across them. There are two decisions of one name,
the second of which is conditional on the first and on one line with a wait that is conditional on
the second. -/
def review : Recording where
  workflow := "Review"
  calls := [
    { kind := .activity, line := 50, name := some "Publish", conditions := [⟨"Approved", true⟩] },
    { kind := .activity, line := 60, name := some "Archive",
      conditions := [⟨"Approved@10", false⟩, ⟨"Signed", false⟩] },
    { kind := .decision, line := 30, name := some "Approved", conditions := [⟨"Approved", true⟩] },
    { kind := .signalWait, line := 30, name := some "Signed", condition := some "signed",
      timeout := some "1d", conditions := [⟨"Approved@+30", true⟩], trueLabel := some "in time" },
    { kind := .decision, line := 10, name := some "Approved" },
    { kind := .externalSignal, line := 70, name := some "Done", membershipUnknown := true,
      conditions := [⟨"Closed", true⟩], target := some " archive-\x7b*\x7d" }]

/-- The workflow of a review. -/
def reviewed : Workflow where
  name := "Review"
  steps := [
    ⟨.activity, "Publish", "1", 50, .known [⟨"d1", true⟩]⟩,
    ⟨.activity, "Archive", "2", 60, .known [⟨"d0", false⟩, ⟨"sig_signed_30", false⟩]⟩,
    ⟨.externalSignal (.wildcard "archive-\x7b*\x7d"), "Done", "ext_sig_done_70", 70, .unknown⟩]
  branches := [
    ⟨.decision, "Approved", "d0", 10, .known []⟩,
    ⟨.decision, "Approved", "d1", 30, .known [⟨"d0", true⟩]⟩,
    ⟨.signalWait "signed" "1d" none none, "Signed", "sig_signed_30", 30, .known [⟨"d1", true⟩]⟩]

theorem toWorkflow_follows_references_review :
    review.toWorkflow = .ok reviewed ∧ ∃ rows : List (Call × Entry),
      SourceOrder.StablySorted Call.line review.calls (rows.map (·.1)) ∧
        reviewed.ConsistsOf rows := by
  have h : review.toWorkflow = .ok reviewed := by decide +kernel
  exact ⟨h, (toWorkflow_follows_references h).2⟩

end Recording

end WorkflowPaths
