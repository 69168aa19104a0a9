import WorkflowPaths.Proofs.Draft.Finish
import WorkflowPaths.Proofs.Draft.Registrations
import WorkflowPaths.Proofs.NodeId
import WorkflowPaths.Proofs.SourceOrder

/-!
# What becomes of registered calls

Finishing a draft turns each registered call into one entry of the workflow. The branch points are
sorted together with the numbers they were registered under, so a guard can be followed through the
sort: `GivesId` says which id the workflow gives to the branch point of a number, and
`Registered.Becomes` says what has to become of a call.

* `resolve_eq_ok_iff`: what becomes of a guard, given a table of ids.
* `lookup_idTable_iff`: the table of a draft holds the ids that the workflow gives.
* `ids_of_numbering`: entries that go by name and line have ids of their own making, and the others
  are numbered in order.
* `finish_keeps_calls`: nothing is lost, repeated or put under the wrong branch point.
-/

namespace WorkflowPaths

/-- What becomes of a guard, where `named n id` says that the branch point with the number `n` has
the id. -/
inductive Guard.Becomes (named : Nat → String → Prop) : Guard → Membership → Prop where
  /-- A call that always takes part has no conditions. -/
  | always : Becomes named .always (.known [])
  /-- What is not known stays so. -/
  | unknown : Becomes named .unknown .unknown
  /-- Each condition is kept in its place, with the id of its branch point. -/
  | when {conditions : List (Nat × Bool)} {resolved : List Condition} :
      List.Forall₂ (fun x c => named x.1 c.branch ∧ c.outcome = x.2) conditions resolved →
      Becomes named (.when conditions) (.known resolved)

/-- What becomes of a registered call: an entry with these properties. -/
structure Registered.Becomes {α : Type} (named : Nat → String → Prop) (r : Registered α) (what : α)
    (name : String) (line : UInt32) (membership : Membership) : Prop where
  /-- The entry does what the call does. -/
  what_eq : what = r.what
  /-- The name is kept. -/
  name_eq : name = r.name
  /-- The line is kept. -/
  line_eq : line = r.line
  /-- The membership is what becomes of the guard. -/
  membership : r.guard.Becomes named membership

/-- The branch point is what becomes of the call. -/
def Branch.Realizes (named : Nat → String → Prop) (r : Registered Test) (b : Branch) : Prop :=
  r.Becomes named b.test b.name b.line b.membership

/-- The step is what becomes of the call. -/
def Step.Realizes (named : Nat → String → Prop) (r : Registered Action) (s : Step) : Prop :=
  r.Becomes named s.action s.name s.line s.membership

/-- The kind of node that shows a branch point. -/
def Test.kind : Test → NodeKind
  | .decision => .decision
  | .signalWait .. => .signalWait

theorem Branch.kind_eq (b : Branch) : b.kind = b.test.kind := by
  cases htest : b.test <;> simp [Branch.kind, Test.kind, htest]

/-- The ids of the workflow are made for its entries, in order. -/
structure Workflow.HasMadeIds (w : Workflow) : Prop where
  /-- The decisions are numbered from zero. -/
  decisions : (w.branchesOf .decision).map Branch.id =
    (List.range (w.branchesOf .decision).length).map fun n => "d" ++ toString n
  /-- The activities are numbered from one. -/
  activities : (w.stepsOf .activity).map Step.id =
    (List.range' 1 (w.stepsOf .activity).length).map fun n => toString n
  /-- The other entries go by name and line. -/
  named : ∀ e ∈ w.entries, ∀ seed, e.kind.seed? e.name e.line = some seed → e.id = seed.id

/-- The workflow gives the id to the branch point with the given number, where `branches` are the
registered branch points with their numbers, in the order of the workflow. -/
def Workflow.GivesId (w : Workflow) (branches : List (Registered Test × Nat)) (number : Nat)
    (id : String) : Prop :=
  ∃ x ∈ branches.zip w.branches, x.1.2 = number ∧ x.2.id = id

/-- The workflow is what becomes of the registered calls, given in the order of the workflow. -/
structure Workflow.Realizes (w : Workflow) (branches : List (Registered Test × Nat))
    (steps : List (Registered Action)) : Prop where
  /-- Each branch point is what becomes of its call. -/
  branches_realized :
    List.Forall₂ (fun x b => b.Realizes (w.GivesId branches) x.1) branches w.branches
  /-- Each step is what becomes of its call. -/
  steps_realized : List.Forall₂ (fun r s => s.Realizes (w.GivesId branches) r) steps w.steps
  /-- The ids are made for the entries. -/
  ids_made : w.HasMadeIds

theorem Guard.Becomes.imp {named named' : Nat → String → Prop} {g : Guard} {m : Membership}
    (h : g.Becomes named m) (himp : ∀ n id, named n id → named' n id) : g.Becomes named' m := by
  cases h with
  | always => exact .always
  | unknown => exact .unknown
  | when h => exact .when (h.imp fun x c hc => ⟨himp _ _ hc.1, hc.2⟩)

theorem Registered.Becomes.imp {α : Type} {named named' : Nat → String → Prop} {r : Registered α}
    {what : α} {name : String} {line : UInt32} {m : Membership}
    (h : r.Becomes named what name line m) (himp : ∀ n id, named n id → named' n id) :
    r.Becomes named' what name line m :=
  ⟨h.what_eq, h.name_eq, h.line_eq, h.membership.imp himp⟩

/-- The id of an entry is made for a node of the entry's kind. -/
theorem Workflow.HasMadeIds.exists_seed {w : Workflow} (h : w.HasMadeIds) {e : Entry}
    (he : e ∈ w.entries) : ∃ seed : NodeSeed, seed.id = e.id ∧ seed.kind = e.kind := by
  cases hseed : e.kind.seed? e.name e.line with
  | some seed => exact ⟨seed, (h.named e he seed hseed).symm, NodeKind.kind_of_seed? hseed⟩
  | none =>
    cases e with
    | step s =>
      have hkind : s.kind = .activity := by
        cases haction : s.action <;>
          simp_all [Entry.kind, Step.kind, Action.kind, NodeKind.seed?]
      have hmem : s.id ∈ (w.stepsOf .activity).map Step.id :=
        List.mem_map_of_mem (List.mem_filter.2 ⟨step_mem_entries.1 he, by simp [hkind]⟩)
      rw [h.activities] at hmem
      obtain ⟨n, -, hn⟩ := List.mem_map.1 hmem
      exact ⟨.activity n, hn, hkind.symm⟩
    | branch b =>
      have hkind : b.kind = .decision := by
        cases htest : b.test <;> simp_all [Entry.kind, Branch.kind, NodeKind.seed?]
      have hmem : b.id ∈ (w.branchesOf .decision).map Branch.id :=
        List.mem_map_of_mem (List.mem_filter.2 ⟨branch_mem_entries.1 he, by simp [hkind]⟩)
      rw [h.decisions] at hmem
      obtain ⟨n, -, hn⟩ := List.mem_map.1 hmem
      exact ⟨.decision n, hn, hkind.symm⟩

namespace Draft

variable {d : Draft} {w : Workflow} {ids : List (Nat × String)} {id : String} {next : Nat}

/-! ### Entries of registered calls -/

theorem resolve_eq_ok_iff {line : UInt32} {g : Guard} {m : Membership} :
    resolve ids line g = .ok m ↔ g.Becomes (fun n id => ids.lookup n = some id) m := by
  cases g with
  | always =>
    constructor
    · rintro ⟨⟩
      exact .always
    · rintro ⟨⟩
      rfl
  | unknown =>
    constructor
    · rintro ⟨⟩
      exact .unknown
    · rintro ⟨⟩
      rfl
  | when conditions =>
    simp only [resolve, bind_eq_ok_iff, mapM_eq_ok_iff, pure_eq_ok_iff]
    constructor
    · rintro ⟨resolved, hall, rfl⟩
      refine .when (hall.imp fun x c hc => ?_)
      split at hc
      next id hid =>
        cases hc
        exact ⟨hid, rfl⟩
      next => cases hc
    · intro h
      cases h with
      | when hall =>
        refine ⟨_, hall.imp fun x c hc => ?_, rfl⟩
        rw [hc.1, ← hc.2]

theorem toBranch_eq_ok_iff_realizes {r : Registered Test} {b : Branch} :
    toBranch ids r id = .ok b ↔
      b.id = id ∧ b.Realizes (fun n id => ids.lookup n = some id) r := by
  simp only [toBranch_eq_ok_iff, resolve_eq_ok_iff]
  constructor
  · rintro ⟨m, hm, rfl⟩
    exact ⟨rfl, rfl, rfl, rfl, hm⟩
  · rintro ⟨rfl, h⟩
    exact ⟨_, h.membership, by rw [← h.what_eq, ← h.name_eq, ← h.line_eq]⟩

theorem toStep_eq_ok_iff_realizes {r : Registered Action} {s : Step} :
    toStep ids r id = .ok s ↔
      s.id = id ∧ s.Realizes (fun n id => ids.lookup n = some id) r := by
  simp only [toStep_eq_ok_iff, resolve_eq_ok_iff]
  constructor
  · rintro ⟨m, hm, rfl⟩
    exact ⟨rfl, rfl, rfl, rfl, hm⟩
  · rintro ⟨rfl, h⟩
    exact ⟨_, h.membership, by rw [← h.what_eq, ← h.name_eq, ← h.line_eq]⟩

/-- Calls that are turned into entries together with their ids. -/
theorem forall₂_zip_iff {ρ ε : Type} {idOf : ε → String} {R : ρ → ε → Prop} {l : List ρ}
    {made : List String} {es : List ε} (hlength : made.length = l.length) :
    List.Forall₂ (fun x e => idOf e = x.2 ∧ R x.1 e) (l.zip made) es ↔
      es.map idOf = made ∧ List.Forall₂ R l es := by
  induction l generalizing made es with
  | nil =>
    cases List.length_eq_zero_iff.1 hlength
    cases es <;> simp
  | cons r l ih =>
    obtain ⟨id, made, rfl⟩ := List.exists_cons_of_length_eq_add_one hlength
    cases es with
    | nil => simp
    | cons e es =>
      rw [List.zip_cons_cons, List.forall₂_cons, ih (by simpa using hlength), List.map_cons,
        List.cons.injEq, List.forall₂_cons]
      tauto

theorem length_stepIds (next : Nat) (l : List (Registered Action)) :
    (stepIds next l).length = l.length := by
  induction l generalizing next with
  | nil => rfl
  | cons r rest ih =>
    rw [stepIds]
    split <;> simp [ih]

/-- The workflow holds what becomes of the calls in source order, with the ids that are made for
them. -/
theorem assemble_eq_ok_iff_realizes :
    d.assemble = .ok w ↔ w.name = d.name ∧
      (w.branches.map Branch.id = branchIds 0 (d.orderedBranches.map (·.1)) ∧
        List.Forall₂ (Branch.Realizes fun n id => d.idTable.lookup n = some id)
          (d.orderedBranches.map (·.1)) w.branches) ∧
      w.steps.map Step.id = stepIds 1 d.orderedSteps ∧
        List.Forall₂ (Step.Realizes fun n id => d.idTable.lookup n = some id)
          d.orderedSteps w.steps := by
  simp only [assemble_eq_ok_iff, toBranch_eq_ok_iff_realizes, toStep_eq_ok_iff_realizes]
  exact and_congr_right' (and_congr (forall₂_zip_iff (length_branchIds _ _))
    (forall₂_zip_iff (length_stepIds _ _)))

/-! ### The ids that branch points are referred to by -/

theorem exists_lookup_idTable_iff {n : Nat} :
    (∃ id, d.idTable.lookup n = some id) ↔ n < d.branches.length := by
  have hkeys : n ∈ d.idTable.map Prod.fst ↔ n < d.branches.length := by
    rw [map_fst_idTable, (map_snd_orderedBranches_perm d).mem_iff, List.mem_range]
  simp only [← hkeys, lookup_eq_some_iff (nodup_map_fst_idTable d), List.mem_map, Prod.exists,
    exists_and_right, exists_eq_right]

/-- The table of ids holds what the workflow gives. -/
theorem lookup_idTable_iff
    (h : w.branches.map Branch.id = branchIds 0 (d.orderedBranches.map (·.1))) {n : Nat} :
    d.idTable.lookup n = some id ↔ w.GivesId d.orderedBranches n id := by
  have htable : d.idTable = (d.orderedBranches.zip w.branches).map fun x => (x.1.2, x.2.id) := by
    rw [idTable, ← h, List.zip_map]
    rfl
  rw [lookup_eq_some_iff (nodup_map_fst_idTable d), htable]
  simp [Workflow.GivesId]

/-! ### Ids made in order -/

/-- Ids are made one after the other, for entries that go by name and line from what they are made
from, and for all others from the next number. Then the former have the ids that belong to them, and
the latter are numbered in order. -/
theorem ids_of_numbering {ρ ε : Type} {number : Nat → List ρ → List String}
    {numbered : Nat → NodeSeed} {seedOf? : ρ → Option NodeSeed} {idOf : ε → String}
    (seed? : ε → Option NodeSeed)
    (hnamed : ∀ next r rest seed, seedOf? r = some seed →
      number next (r :: rest) = seed.id :: number next rest)
    (hnumbered : ∀ next r rest, seedOf? r = none →
      number next (r :: rest) = (numbered next).id :: number (next + 1) rest)
    {l : List ρ} {es : List ε} (hsame : List.Forall₂ (fun r e => seed? e = seedOf? r) l es)
    (hids : es.map idOf = number next l) :
    (∀ e ∈ es, ∀ seed, seed? e = some seed → idOf e = seed.id) ∧
      (es.filter fun e => (seed? e).isNone).map idOf =
        (List.range' next (es.filter fun e => (seed? e).isNone).length).map
          fun n => (numbered n).id := by
  induction hsame generalizing next with
  | nil => simp
  | @cons r e l es hre _ ih =>
    cases hr : seedOf? r with
    | some seed =>
      rw [List.map_cons, hnamed _ _ _ _ hr, List.cons.injEq] at hids
      obtain ⟨hall, hfilter⟩ := ih hids.2
      rw [hr] at hre
      refine ⟨List.forall_mem_cons.2 ⟨fun seed' hseed' => ?_, hall⟩, by simpa [hre] using hfilter⟩
      cases hre.symm.trans hseed'
      exact hids.1
    | none =>
      rw [List.map_cons, hnumbered _ _ _ hr, List.cons.injEq] at hids
      obtain ⟨hall, hfilter⟩ := ih hids.2
      rw [hr] at hre
      refine ⟨List.forall_mem_cons.2 ⟨fun seed' hseed' => ?_, hall⟩,
        by simpa [hre, hids.1, List.range'_succ] using hfilter⟩
      cases hre.symm.trans hseed'

theorem branchIds_of_seed (next : Nat) (r : Registered Test) (rest : List (Registered Test))
    (seed : NodeSeed) (h : r.what.kind.seed? r.name r.line = some seed) :
    branchIds next (r :: rest) = seed.id :: branchIds next rest := by
  rw [branchIds]
  cases hwhat : r.what with
  | decision => simp [hwhat, Test.kind, NodeKind.seed?] at h
  | signalWait condition timeout trueLabel falseLabel =>
    rw [hwhat] at h
    cases h
    rfl

theorem branchIds_of_no_seed (next : Nat) (r : Registered Test) (rest : List (Registered Test))
    (h : r.what.kind.seed? r.name r.line = none) :
    branchIds next (r :: rest) = (NodeSeed.decision next).id :: branchIds (next + 1) rest := by
  rw [branchIds]
  cases hwhat : r.what with
  | decision => rfl
  | signalWait condition timeout trueLabel falseLabel =>
    simp [hwhat, Test.kind, NodeKind.seed?] at h

theorem stepIds_of_seed (next : Nat) (r : Registered Action) (rest : List (Registered Action))
    (seed : NodeSeed) (h : r.what.kind.seed? r.name r.line = some seed) :
    stepIds next (r :: rest) = seed.id :: stepIds next rest := by
  rw [stepIds]
  cases hwhat : r.what with
  | activity => simp [hwhat, Action.kind, NodeKind.seed?] at h
  | childWorkflow =>
    rw [hwhat] at h
    cases h
    rfl
  | externalSignal target =>
    rw [hwhat] at h
    cases h
    rfl

theorem stepIds_of_no_seed (next : Nat) (r : Registered Action) (rest : List (Registered Action))
    (h : r.what.kind.seed? r.name r.line = none) :
    stepIds next (r :: rest) = (NodeSeed.activity next).id :: stepIds (next + 1) rest := by
  rw [stepIds]
  cases hwhat : r.what with
  | activity => rfl
  | childWorkflow => simp [hwhat, Action.kind, NodeKind.seed?] at h
  | externalSignal target => simp [hwhat, Action.kind, NodeKind.seed?] at h

theorem branchesOf_decision (w : Workflow) :
    w.branchesOf .decision = w.branches.filter fun b => (b.kind.seed? b.name b.line).isNone := by
  refine List.filter_congr fun b _ => ?_
  cases htest : b.test <;> simp [Branch.kind, htest, NodeKind.seed?]

theorem stepsOf_activity (w : Workflow) :
    w.stepsOf .activity = w.steps.filter fun s => (s.kind.seed? s.name s.line).isNone := by
  refine List.filter_congr fun s _ => ?_
  cases haction : s.action <;> simp [Step.kind, Action.kind, haction, NodeKind.seed?]

/-! ### Finished drafts -/

/-- A workflow that is put together from a draft is what becomes of the registered calls. -/
theorem realizes_of_assemble (h : d.assemble = .ok w) :
    w.Realizes d.orderedBranches d.orderedSteps := by
  obtain ⟨-, ⟨hbranchIds, hbranches⟩, hstepIds, hsteps⟩ := assemble_eq_ok_iff_realizes.1 h
  have hnamed (n : Nat) (id : String) (hid : d.idTable.lookup n = some id) :
      w.GivesId d.orderedBranches n id := (lookup_idTable_iff hbranchIds).1 hid
  obtain ⟨hwaits, hdecisions⟩ := ids_of_numbering (fun b : Branch => b.kind.seed? b.name b.line)
    branchIds_of_seed branchIds_of_no_seed
    (hbranches.imp fun r b hb => by rw [b.kind_eq, hb.what_eq, hb.name_eq, hb.line_eq]) hbranchIds
  obtain ⟨hcalls, hactivities⟩ := ids_of_numbering (fun s : Step => s.kind.seed? s.name s.line)
    stepIds_of_seed stepIds_of_no_seed
    (hsteps.imp fun r s hs => by rw [Step.kind, hs.what_eq, hs.name_eq, hs.line_eq]) hstepIds
  refine ⟨?_, hsteps.imp fun r s hs => hs.imp hnamed, ?_, ?_, ?_⟩
  · exact (List.forall₂_map_left_iff.1 hbranches).imp fun x b hb => hb.imp hnamed
  · rw [branchesOf_decision, List.range_eq_range']
    exact hdecisions
  · rw [stepsOf_activity]
    exact hactivities
  · intro e he seed hseed
    cases e with
    | step s => exact hcalls s (Workflow.step_mem_entries.1 he) seed hseed
    | branch b => exact hwaits b (Workflow.branch_mem_entries.1 he) seed hseed

theorem realizes_of_finish (h : d.finish = .ok w) : w.Realizes d.orderedBranches d.orderedSteps :=
  realizes_of_assemble (finish_eq_ok_iff.1 h).1

theorem exists_seed_of_finish (h : d.finish = .ok w) {e : Entry} (he : e ∈ w.entries) :
    ∃ seed : NodeSeed, seed.id = e.id ∧ seed.kind = e.kind :=
  (realizes_of_finish h).ids_made.exists_seed he

/-- **Finishing a draft loses, repeats and misroutes nothing.** The branch points and the steps of
the workflow are the registered calls, stably sorted by line, with the labels that were set last.
Their ids are made in that order, and the conditions of each are those of its guard, in their
places, each on the id that the workflow gives to the branch point with the number in the guard. -/
theorem finish_keeps_calls {name : String} {calls : List Registration} {w : Workflow}
    (h : (ofRegistrations name calls).finish = .ok w) :
    w.name = name ∧ ∃ branches steps,
      SourceOrder.StablySorted (fun x => x.1.line) (branchCalls calls).zipIdx branches ∧
      SourceOrder.StablySorted (fun r => r.line) (stepCalls calls) steps ∧
      w.Realizes branches steps := by
  rw [ofRegistrations_eq] at h
  refine ⟨(assemble_eq_ok_iff.1 (finish_eq_ok_iff.1 h).1).1, _, _, ?_, ?_, realizes_of_finish h⟩
  · exact SourceOrder.stablySorted_sort _ _
  · exact SourceOrder.stablySorted_sort _ _

/-- The calls of a workflow that ships an order, as a detector may come across them: the shipping
is registered before the branch points that it is conditional on, and the wait before the decision
that it is conditional on. -/
def shippingCalls : List Registration := [
  .step .activity "Ship" 30 (.when [(1, true), (0, false)]),
  .signalWait "Paid" 20 "paid" "1h" (.when [(1, true)]),
  .labels 0 "paid" "unpaid",
  .decision "InStock" 10 .always,
  .labels 0 "in time" "late",
  .labels 1 "yes" "no",
  .step .childWorkflow "Restock" 10 (.when [(1, false)]),
  .step .activity "Reserve" 10 .always,
  .step (.externalSignal .dynamic) "Done" 40 .unknown]

/-- The workflow that ships an order. -/
def shipping : Workflow where
  name := "Shipping"
  steps := [
    ⟨.childWorkflow, "Restock", "child_restock_10", 10, .known [⟨"d0", false⟩]⟩,
    ⟨.activity, "Reserve", "1", 10, .known []⟩,
    ⟨.activity, "Ship", "2", 30, .known [⟨"d0", true⟩, ⟨"sig_paid_20", false⟩]⟩,
    ⟨.externalSignal .dynamic, "Done", "ext_sig_done_40", 40, .unknown⟩]
  branches := [
    ⟨.decision, "InStock", "d0", 10, .known []⟩,
    ⟨.signalWait "paid" "1h" (some "in time") (some "late"), "Paid", "sig_paid_20", 20,
      .known [⟨"d0", true⟩]⟩]

theorem finish_keeps_calls_shipping :
    (ofRegistrations "Shipping" shippingCalls).finish = .ok shipping ∧ ∃ branches steps,
      SourceOrder.StablySorted (fun x => x.1.line) (branchCalls shippingCalls).zipIdx branches ∧
      SourceOrder.StablySorted (fun r => r.line) (stepCalls shippingCalls) steps ∧
      shipping.Realizes branches steps := by
  have h : (ofRegistrations "Shipping" shippingCalls).finish = .ok shipping := by decide +kernel
  exact ⟨h, (finish_keeps_calls h).2⟩

end Draft

end WorkflowPaths
