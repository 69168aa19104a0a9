import WorkflowPaths.Proofs.Draft.Contents

/-!
# Which drafts can be finished

A draft is checked after its calls are sorted, numbered and resolved, so the check speaks of ids.
This module says which registered calls pass it, in terms of the calls: their names, lines and
guards (`WellFormedCalls`, `exists_finish_iff_wellFormedCalls`).

* `exists_assemble_iff`: a guard can be resolved when it refers to numbers that are in use.
* `HasMadeIds.pairwise_id_eq_iff`: two entries share an id only when both go by name and line, are
  of one kind and on one line, and have names that look the same in an id. Activities and decisions
  are numbered apart.
* `Realizes.acyclic_iff`: branch points depend on each other in a circle when their guards do.
-/

namespace WorkflowPaths

/-- The numbers of the branch points that a guard refers to. -/
def Guard.numbers : Guard → List Nat
  | .always | .unknown => []
  | .when conditions => conditions.map (·.1)

namespace Guard

variable {named : Nat → String → Prop} {g : Guard} {m : Membership}

theorem Becomes.exists_condition (h : g.Becomes named m) {n : Nat} (hn : n ∈ g.numbers) :
    ∃ c, m.Requires c ∧ named n c.branch := by
  cases h with
  | always | unknown => cases hn
  | when h =>
    obtain ⟨x, hx, rfl⟩ := List.mem_map.1 hn
    obtain ⟨c, hc, hxc⟩ := exists_of_forall₂_left h hx
    exact ⟨c, .known hc, hxc.1⟩

theorem Becomes.exists_number (h : g.Becomes named m) {c : Condition} (hc : m.Requires c) :
    ∃ n ∈ g.numbers, named n c.branch := by
  obtain ⟨hc⟩ := hc
  cases h with
  | always => cases hc
  | when h =>
    obtain ⟨x, hx, hxc⟩ := exists_of_forall₂_right h hc
    exact ⟨x.1, List.mem_map.2 ⟨x, hx, rfl⟩, hxc.1⟩

/-- A guard becomes something when all that it refers to has ids. -/
theorem exists_becomes_iff : (∃ m, g.Becomes named m) ↔ ∀ n ∈ g.numbers, ∃ id, named n id := by
  constructor
  · rintro ⟨m, h⟩ n hn
    obtain ⟨c, -, hc⟩ := h.exists_condition hn
    exact ⟨_, hc⟩
  · intro h
    cases g with
    | always => exact ⟨_, .always⟩
    | unknown => exact ⟨_, .unknown⟩
    | when conditions =>
      obtain ⟨resolved, hresolved⟩ : ∃ resolved : List Condition, List.Forall₂
          (fun x c => named x.1 c.branch ∧ c.outcome = x.2) conditions resolved := by
        refine exists_forall₂_iff.2 fun x hx => ?_
        obtain ⟨id, hid⟩ := h x.1 (List.mem_map.2 ⟨x, hx, rfl⟩)
        exact ⟨⟨id, x.2⟩, hid, rfl⟩
      exact ⟨_, .when hresolved⟩

end Guard

/-! ### Guards that can be resolved -/

namespace Draft

variable {d : Draft} {w : Workflow} {id : String}

theorem map_fst_orderedBranches_perm (d : Draft) :
    (d.orderedBranches.map (·.1)).Perm d.branches := by
  have hperm := (SourceOrder.perm_sort (fun x => x.1.line) d.branches.zipIdx).map (·.1)
  rwa [List.zipIdx_map_fst] at hperm

theorem orderedSteps_perm (d : Draft) : d.orderedSteps.Perm d.steps :=
  SourceOrder.perm_sort _ _

theorem exists_resolve_iff {line : UInt32} {g : Guard} :
    (∃ m, resolve d.idTable line g = .ok m) ↔ ∀ n ∈ g.numbers, n < d.branches.length := by
  simp only [resolve_eq_ok_iff, Guard.exists_becomes_iff, exists_lookup_idTable_iff]

/-- What holds of all calls that are turned into entries holds of all calls. -/
theorem forall_mem_zip_iff {ρ : Type} (P : ρ → Prop) {l l' : List ρ} {made : List String}
    (hperm : l.Perm l') (hlength : made.length = l.length) :
    (∀ x ∈ l.zip made, P x.1) ↔ ∀ r ∈ l', P r := by
  have hmap : (l.zip made).map Prod.fst = l := List.map_fst_zip (by omega)
  calc (∀ x ∈ l.zip made, P x.1)
      ↔ ∀ r ∈ (l.zip made).map Prod.fst, P r := List.forall_mem_map.symm
    _ ↔ ∀ r ∈ l', P r := by rw [hmap]; exact forall_congr' fun r => by rw [hperm.mem_iff]

/-- The calls of a draft make a workflow, valid or not, when their guards refer to numbers that are
in use. -/
theorem exists_assemble_iff :
    (∃ w, d.assemble = .ok w) ↔
      (∀ r ∈ d.branches, ∀ n ∈ r.guard.numbers, n < d.branches.length) ∧
      ∀ r ∈ d.steps, ∀ n ∈ r.guard.numbers, n < d.branches.length := by
  have hbranches : (∃ bs, List.Forall₂ (fun x b => toBranch d.idTable x.1 x.2 = .ok b)
      ((d.orderedBranches.map (·.1)).zip (branchIds 0 (d.orderedBranches.map (·.1)))) bs) ↔
      ∀ r ∈ d.branches, ∀ n ∈ r.guard.numbers, n < d.branches.length := by
    simp only [exists_forall₂_iff, toBranch_eq_ok_iff, exists_comm, exists_and_left,
      exists_eq', and_true, exists_resolve_iff]
    exact forall_mem_zip_iff (fun r => ∀ n ∈ r.guard.numbers, n < d.branches.length)
      (map_fst_orderedBranches_perm d) (length_branchIds _ _)
  have hsteps : (∃ ss, List.Forall₂ (fun x s => toStep d.idTable x.1 x.2 = .ok s)
      (d.orderedSteps.zip (stepIds 1 d.orderedSteps)) ss) ↔
      ∀ r ∈ d.steps, ∀ n ∈ r.guard.numbers, n < d.branches.length := by
    simp only [exists_forall₂_iff, toStep_eq_ok_iff, exists_comm, exists_and_left,
      exists_eq', and_true, exists_resolve_iff]
    exact forall_mem_zip_iff (fun r => ∀ n ∈ r.guard.numbers, n < d.branches.length)
      (orderedSteps_perm d) (length_stepIds _ _)
  simp only [← hbranches, ← hsteps, assemble_eq_ok_iff]
  constructor
  · rintro ⟨w, -, hbs, hss⟩
    exact ⟨⟨_, hbs⟩, _, hss⟩
  · rintro ⟨⟨bs, hbs⟩, ss, hss⟩
    exact ⟨⟨d.name, ss, bs⟩, rfl, hbs, hss⟩

end Draft

/-! ### Ids that two entries share -/

/-- The kinds of entries that go by name and line. -/
def namedKinds : List NodeKind := [.signalWait, .childWorkflow, .externalSignal]

theorem exists_seed?_iff {kind : NodeKind} {name : String} {line : UInt32} :
    (∃ seed, kind.seed? name line = some seed) ↔ kind ∈ namedKinds := by
  cases kind <;> simp [NodeKind.seed?, namedKinds]

/-- The line of an entry and its name as ids show it. -/
def Entry.place (e : Entry) : UInt32 × String := (e.line, idName e.name)

/-- The line of a registered call and its name as ids show it. -/
def Registered.place {α : Type} (r : Registered α) : UInt32 × String := (r.line, idName r.name)

/-- The two entries go by name and line, and have these and the kind in common. -/
def Entry.Clash (a b : Entry) : Prop :=
  a.kind = b.kind ∧ a.kind ∈ namedKinds ∧ a.place = b.place

namespace Workflow

variable {w : Workflow} {a b : Entry}

theorem HasMadeIds.kind_eq_of_id_eq (h : w.HasMadeIds) (ha : a ∈ w.entries) (hb : b ∈ w.entries)
    (hid : a.id = b.id) : a.kind = b.kind := by
  obtain ⟨seed, hseed, hkind⟩ := h.exists_seed ha
  obtain ⟨seed', hseed', hkind'⟩ := h.exists_seed hb
  rw [← hkind, ← hkind']
  exact NodeSeed.kind_eq_of_id_eq (hseed.trans (hid.trans hseed'.symm))

theorem kind_step_ne_kind_branch (s : Step) (b : Branch) : s.kind ≠ b.kind := by
  rw [b.kind_eq, Step.kind]
  cases s.action <;> cases b.test <;> simp [Action.kind, Test.kind]

/-- No two entries that are numbered have the same id. -/
theorem HasMadeIds.pairwise_numbered (h : w.HasMadeIds) : w.entries.Pairwise fun a b =>
    a.kind ∉ namedKinds → b.kind ∉ namedKinds → a.id ≠ b.id := by
  have hactivity (s : Step) (hs : s.kind ∉ namedKinds) : (s.kind == .activity) = true := by
    cases haction : s.action <;> simp_all [Step.kind, Action.kind, namedKinds]
  have hdecision (b : Branch) (hb : b.kind ∉ namedKinds) : (b.kind == .decision) = true := by
    cases htest : b.test <;> simp_all [Branch.kind, namedKinds]
  have hactivities : ((w.stepsOf .activity).map Step.id).Nodup := by
    rw [h.activities]
    exact List.Nodup.map (fun m n hmn => NodeSeed.activity_id_inj.1 hmn) (List.nodup_range' 1)
  have hdecisions : ((w.branchesOf .decision).map Branch.id).Nodup := by
    rw [h.decisions]
    exact List.Nodup.map (fun m n hmn => NodeSeed.decision_id_inj.1 hmn) List.nodup_range
  refine List.pairwise_append.2 ⟨?_, ?_, fun a ha b hb _ _ hid => ?_⟩
  · have hpairs := List.pairwise_filter.1 (List.pairwise_map.1 hactivities)
    exact List.pairwise_map.2 (hpairs.imp fun hst hs ht => hst (hactivity _ hs) (hactivity _ ht))
  · have hpairs := List.pairwise_filter.1 (List.pairwise_map.1 hdecisions)
    exact List.pairwise_map.2 (hpairs.imp fun hbc hb hc => hbc (hdecision _ hb) (hdecision _ hc))
  · have hkind := h.kind_eq_of_id_eq (List.mem_append_left _ ha) (List.mem_append_right _ hb) hid
    obtain ⟨s, -, rfl⟩ := List.mem_map.1 ha
    obtain ⟨b, -, rfl⟩ := List.mem_map.1 hb
    exact kind_step_ne_kind_branch s b hkind

/-- Two entries share an id exactly when they go by name and line, and have these and the kind in
common. -/
theorem HasMadeIds.pairwise_id_eq_iff (h : w.HasMadeIds) :
    w.entries.Pairwise fun a b => a.id = b.id ↔ a.Clash b := by
  refine h.pairwise_numbered.imp_of_mem fun {a b} ha hb hnumbered => ?_
  by_cases hkind : a.kind = b.kind
  · by_cases hnamed : a.kind ∈ namedKinds
    · obtain ⟨seed, hseed⟩ := (@exists_seed?_iff a.kind a.name a.line).2 hnamed
      obtain ⟨seed', hseed'⟩ := (@exists_seed?_iff b.kind b.name b.line).2 (hkind ▸ hnamed)
      rw [h.named a ha seed hseed, h.named b hb seed' hseed']
      rw [← hkind] at hseed'
      rw [NodeKind.id_eq_id_iff hseed hseed', Entry.Clash, Entry.place, Entry.place, Prod.mk.injEq]
      simp [hkind, hkind ▸ hnamed]
    · have hid : a.id ≠ b.id := hnumbered hnamed (hkind ▸ hnamed)
      simp [Entry.Clash, hid, hnamed]
  · have hid : a.id ≠ b.id := fun hid => hkind (h.kind_eq_of_id_eq ha hb hid)
    simp [Entry.Clash, hid, hkind]

/-- No two entries have the same id when, among the entries of each kind that goes by name and line,
no two have both in common. -/
theorem HasMadeIds.nodup_ids_iff (h : w.HasMadeIds) :
    (w.entries.map Entry.id).Nodup ↔
      ∀ kind ∈ namedKinds, ((w.entries.filter (·.kind == kind)).map Entry.place).Nodup := by
  have hclash : (w.entries.map Entry.id).Nodup ↔ w.entries.Pairwise fun a b => ¬ a.Clash b := by
    rw [List.Nodup, List.pairwise_map]
    constructor
    · intro hids
      exact (hids.and h.pairwise_id_eq_iff).imp fun hab => mt hab.2.2 hab.1
    · intro hclash
      exact (hclash.and h.pairwise_id_eq_iff).imp fun hab => mt hab.2.1 hab.1
  rw [hclash]
  simp only [List.Nodup, List.pairwise_map, List.pairwise_filter]
  simp only [List.pairwise_iff_forall_sublist]
  constructor
  · intro hall kind hkind a b hab ha hb hplace
    rw [beq_iff_eq] at ha hb
    exact hall hab ⟨ha.trans hb.symm, ha ▸ hkind, hplace⟩
  · rintro hall a b hab ⟨hkind, hnamed, hplace⟩
    exact hall a.kind hnamed hab (beq_self_eq_true _) (by simp [hkind]) hplace

end Workflow

/-! ### Circles -/

/-- The branch point with the number `m` is guarded by the one with the number `n`. -/
def GuardedBy (branches : List (Registered Test)) (m n : Nat) : Prop :=
  ∃ r, branches[m]? = some r ∧ n ∈ r.guard.numbers

/-- Where each step of a chain can be followed, the chain can be followed. -/
theorem exists_transGen_of_follows {α β : Type} {r : α → α → Prop} {p : β → β → Prop}
    (follows : α → β → Prop)
    (hstep : ∀ a a' b, r a a' → follows a b → ∃ b', follows a' b' ∧ p b b') {a a' : α}
    (h : Relation.TransGen r a a') {b : β} (hab : follows a b) :
    ∃ b', follows a' b' ∧ Relation.TransGen p b b' := by
  induction h with
  | single hr =>
    obtain ⟨b', hb', hp⟩ := hstep _ _ _ hr hab
    exact ⟨b', hb', .single hp⟩
  | tail _ hr ih =>
    obtain ⟨b', hb', hchain⟩ := ih
    obtain ⟨b'', hb'', hp⟩ := hstep _ _ _ hr hb'
    exact ⟨b'', hb'', .tail hchain hp⟩

namespace Workflow

variable {w : Workflow} {branches : List (Registered Test)} {ordered : List (Registered Test × Nat)}
  {steps : List (Registered Action)}

/-- The branch point is what becomes of the call with the number. -/
def Numbers (w : Workflow) (ordered : List (Registered Test × Nat)) (n : Nat) (b : Branch) : Prop :=
  ∃ x ∈ ordered.zip w.branches, x.1.2 = n ∧ x.2 = b

theorem Realizes.numbers (h : w.Realizes ordered steps) (hperm : ordered.Perm branches.zipIdx)
    {n : Nat} {b : Branch} (hnb : w.Numbers ordered n b) :
    b ∈ w.branches ∧ ∃ r, branches[n]? = some r ∧ b.Realizes (w.GivesId ordered) r := by
  obtain ⟨⟨⟨r, n⟩, b⟩, hx, rfl, rfl⟩ := hnb
  have hmem := List.of_mem_zip hx
  refine ⟨hmem.2, r, ?_, List.forall₂_zip h.branches_realized hx⟩
  exact List.mk_mem_zipIdx_iff_getElem?.1 (hperm.mem_iff.1 hmem.1)

/-- Guards that refer to each other become branch points that depend on each other. -/
theorem Realizes.exists_dependsOn (h : w.Realizes ordered steps)
    (hperm : ordered.Perm branches.zipIdx) {m n : Nat} {b : Branch} (hmn : GuardedBy branches m n)
    (hmb : w.Numbers ordered m b) : ∃ c, w.Numbers ordered n c ∧ w.DependsOn b c := by
  obtain ⟨r, hr, hn⟩ := hmn
  obtain ⟨hb, r', hr', hrealizes⟩ := h.numbers hperm hmb
  cases hr.symm.trans hr'
  obtain ⟨c, hc, y, hy, hyn, hyc⟩ := hrealizes.membership.exists_condition hn
  exact ⟨y.2, ⟨y, hy, hyn, rfl⟩, hb, (List.of_mem_zip hy).2, c, hc, hyc.symm⟩

/-- Where no two branch points share an id, those that depend on each other have guards that refer
to each other. -/
theorem Realizes.exists_guardedBy (h : w.Realizes ordered steps)
    (hperm : ordered.Perm branches.zipIdx) (hids : (w.branches.map Branch.id).Nodup) {b c : Branch}
    {m : Nat} (hbc : w.DependsOn b c) (hmb : w.Numbers ordered m b) :
    ∃ n, w.Numbers ordered n c ∧ GuardedBy branches m n := by
  obtain ⟨-, hc, condition, hcondition, hid⟩ := hbc
  obtain ⟨-, r, hr, hrealizes⟩ := h.numbers hperm hmb
  obtain ⟨n, hn, y, hy, hyn, hyc⟩ := hrealizes.membership.exists_number hcondition
  have hyb : y.2 = c :=
    List.inj_on_of_nodup_map hids (List.of_mem_zip hy).2 hc (hyc.trans hid)
  exact ⟨n, ⟨y, hy, hyn, hyb⟩, r, hr, hn⟩

/-- The conditions of the workflow are on its own branch points. -/
theorem Realizes.exists_branch_of_condition (h : w.Realizes ordered steps) {e : Entry}
    (he : e ∈ w.entries) {c : Condition} (hc : e.membership.Requires c) :
    ∃ b ∈ w.branches, b.id = c.branch := by
  obtain ⟨g, hg⟩ : ∃ g : Guard, g.Becomes (w.GivesId ordered) e.membership := by
    cases e with
    | step s =>
      obtain ⟨r, -, hr⟩ := exists_of_forall₂_right h.steps_realized (step_mem_entries.1 he)
      exact ⟨r.guard, hr.membership⟩
    | branch b =>
      obtain ⟨x, -, hx⟩ := exists_of_forall₂_right h.branches_realized (branch_mem_entries.1 he)
      exact ⟨x.1.guard, hx.membership⟩
  obtain ⟨n, -, y, hy, -, hid⟩ := hg.exists_number hc
  exact ⟨y.2, (List.of_mem_zip hy).2, hid⟩

/-- Every registered branch point becomes a branch point of the workflow, and every one of these
comes from one of them. -/
theorem Realizes.exists_numbers (h : w.Realizes ordered steps)
    (hperm : ordered.Perm branches.zipIdx) :
    (∀ n r, branches[n]? = some r → ∃ b, w.Numbers ordered n b) ∧
      ∀ b ∈ w.branches, ∃ n, w.Numbers ordered n b := by
  have hlength := h.branches_realized.length_eq
  constructor
  · intro n r hr
    have hmem : (r, n) ∈ (ordered.zip w.branches).map Prod.fst := by
      rw [List.map_fst_zip hlength.le, hperm.mem_iff]
      exact List.mk_mem_zipIdx_iff_getElem?.2 hr
    obtain ⟨x, hx, hxn⟩ := List.mem_map.1 hmem
    exact ⟨x.2, x, hx, by rw [hxn], rfl⟩
  · intro b hb
    have hmem : b ∈ (ordered.zip w.branches).map Prod.snd := by
      rwa [List.map_snd_zip hlength.ge]
    obtain ⟨x, hx, hxb⟩ := List.mem_map.1 hmem
    exact ⟨x.1.2, x, hx, rfl, hxb⟩

theorem Realizes.numbers_inj (h : w.Realizes ordered steps) (hperm : ordered.Perm branches.zipIdx)
    {n : Nat} {b c : Branch} (hb : w.Numbers ordered n b) (hc : w.Numbers ordered n c) : b = c := by
  have hnodup : ((ordered.zip w.branches).map fun x => x.1.2).Nodup := by
    have hmap : ((ordered.zip w.branches).map fun x => x.1.2) = ordered.map Prod.snd := by
      calc ((ordered.zip w.branches).map fun x => x.1.2)
          = ((ordered.zip w.branches).map Prod.fst).map Prod.snd := by rw [List.map_map]; rfl
        _ = ordered.map Prod.snd := by rw [List.map_fst_zip h.branches_realized.length_eq.le]
    rw [hmap, (hperm.map Prod.snd).nodup_iff, List.zipIdx_map_snd]
    exact List.nodup_range' _
  obtain ⟨x, hx, hxn, rfl⟩ := hb
  obtain ⟨y, hy, hyn, rfl⟩ := hc
  rw [List.inj_on_of_nodup_map hnodup hx hy (hxn.trans hyn.symm)]

theorem Realizes.number_unique (h : w.Realizes ordered steps)
    (hids : (w.branches.map Branch.id).Nodup) {m n : Nat} {b : Branch}
    (hm : w.Numbers ordered m b) (hn : w.Numbers ordered n b) : m = n := by
  have hnodup : ((ordered.zip w.branches).map Prod.snd).Nodup := by
    rw [List.map_snd_zip h.branches_realized.length_eq.ge]
    exact hids.of_map
  obtain ⟨x, hx, rfl, hxb⟩ := hm
  obtain ⟨y, hy, rfl, hyb⟩ := hn
  rw [List.inj_on_of_nodup_map hnodup hx hy (hxb.trans hyb.symm)]

/-- Branch points depend on each other in a circle exactly when their guards refer to each other in
a circle. -/
theorem Realizes.acyclic_iff (h : w.Realizes ordered steps) (hperm : ordered.Perm branches.zipIdx)
    (hids : (w.branches.map Branch.id).Nodup) :
    w.Acyclic ↔ ∀ n, ¬ Relation.TransGen (GuardedBy branches) n n := by
  obtain ⟨hleft, hright⟩ := h.exists_numbers hperm
  constructor
  · intro hacyclic n hn
    obtain ⟨_, ⟨r, hr, -⟩, -⟩ := Relation.TransGen.head'_iff.1 hn
    obtain ⟨b, hb⟩ := hleft n r hr
    obtain ⟨c, hc, hchain⟩ := exists_transGen_of_follows (w.Numbers ordered)
      (fun _ _ _ hmn hmb => h.exists_dependsOn hperm hmn hmb) hn hb
    cases h.numbers_inj hperm hb hc
    exact hacyclic.not_transGen_self b hchain
  · intro hacyclic
    refine acyclic_of_not_isCircular hids fun b hb => Bool.eq_false_iff.2 fun hcircular => ?_
    obtain ⟨m, hm⟩ := hright b hb
    obtain ⟨n, hn, hchain⟩ := exists_transGen_of_follows (fun b n => w.Numbers ordered n b)
      (fun _ _ _ hbc hmb => h.exists_guardedBy hperm hids hbc hmb)
      (transGen_of_isCircular hb hcircular) hm
    cases h.number_unique hids hm hn
    exact hacyclic m hchain

end Workflow

/-! ### Well-formed calls -/

/-- Registered calls that make a workflow. -/
structure WellFormedCalls (name : String) (steps : List (Registered Action))
    (branches : List (Registered Test)) : Prop where
  /-- The workflow has a name. -/
  name_not_blank : Text.trim name ≠ ""
  /-- Every step has a name. -/
  step_names_not_blank : ∀ r ∈ steps, Text.trim r.name ≠ ""
  /-- Every branch point has a name. -/
  branch_names_not_blank : ∀ r ∈ branches, Text.trim r.name ≠ ""
  /-- The guards of steps refer to registered branch points. -/
  step_guards_known : ∀ r ∈ steps, ∀ n ∈ r.guard.numbers, n < branches.length
  /-- The guards of branch points refer to registered branch points. -/
  branch_guards_known : ∀ r ∈ branches, ∀ n ∈ r.guard.numbers, n < branches.length
  /-- No two waits share line and name. -/
  waits_apart : ((branches.filter (·.what.kind == .signalWait)).map Registered.place).Nodup
  /-- No two calls of other workflows share line and name. -/
  children_apart : ((steps.filter (·.what.kind == .childWorkflow)).map Registered.place).Nodup
  /-- No two signals that are sent share line and name. -/
  signals_apart : ((steps.filter (·.what.kind == .externalSignal)).map Registered.place).Nodup
  /-- No branch point is guarded by itself, not even through others. -/
  acyclic : ∀ n, ¬ Relation.TransGen (GuardedBy branches) n n

/-- The kind, name and line of an entry. -/
def Entry.key (e : Entry) : NodeKind × String × UInt32 := (e.kind, e.name, e.line)

/-- The kind, name and line of a registered call. -/
def Registered.key {α : Type} (kind : α → NodeKind) (r : Registered α) :
    NodeKind × String × UInt32 :=
  (kind r.what, r.name, r.line)

namespace Workflow

variable {w : Workflow} {branches : List (Registered Test)} {ordered : List (Registered Test × Nat)}
  {steps orderedSteps : List (Registered Action)}

/-- The workflow has the kinds, names and lines of the registered calls. -/
theorem Realizes.map_key_perm (h : w.Realizes ordered orderedSteps)
    (hbranches : (ordered.map (·.1)).Perm branches) (hsteps : orderedSteps.Perm steps) :
    (w.entries.map Entry.key).Perm
      (steps.map (Registered.key Action.kind) ++ branches.map (Registered.key Test.kind)) := by
  have hs : w.steps.map (fun s => (Entry.step s).key) =
      orderedSteps.map (Registered.key Action.kind) := by
    refine (map_eq_map_of_forall₂ (h.steps_realized.imp fun r s hs => ?_)).symm
    rw [Entry.key, Registered.key, ← hs.what_eq, ← hs.name_eq, ← hs.line_eq]
    rfl
  have hb : w.branches.map (fun b => (Entry.branch b).key) =
      (ordered.map (·.1)).map (Registered.key Test.kind) := by
    rw [List.map_map]
    refine (map_eq_map_of_forall₂ (h.branches_realized.imp fun x b hb => ?_)).symm
    rw [Function.comp, Entry.key, Registered.key, ← hb.what_eq, ← hb.name_eq, ← hb.line_eq,
      ← Branch.kind_eq]
    rfl
  rw [entries, List.map_append, List.map_map, List.map_map]
  exact (List.Perm.of_eq hs).trans (hsteps.map _) |>.append
    ((List.Perm.of_eq hb).trans (hbranches.map _))

theorem Realizes.names_iff (h : w.Realizes ordered orderedSteps)
    (hbranches : (ordered.map (·.1)).Perm branches) (hsteps : orderedSteps.Perm steps)
    (P : String → Prop) :
    (∀ e ∈ w.entries, P e.name) ↔ (∀ r ∈ steps, P r.name) ∧ ∀ r ∈ branches, P r.name := by
  calc (∀ e ∈ w.entries, P e.name)
      ↔ ∀ key ∈ w.entries.map Entry.key, P key.2.1 := by rw [List.forall_mem_map]; rfl
    _ ↔ ∀ key ∈ steps.map (Registered.key Action.kind) ++ branches.map (Registered.key Test.kind),
          P key.2.1 := forall_congr' fun key => by rw [(h.map_key_perm hbranches hsteps).mem_iff]
    _ ↔ (∀ r ∈ steps, P r.name) ∧ ∀ r ∈ branches, P r.name := by
        rw [List.forall_mem_append, List.forall_mem_map, List.forall_mem_map]
        rfl

theorem Realizes.places_perm (h : w.Realizes ordered orderedSteps)
    (hbranches : (ordered.map (·.1)).Perm branches) (hsteps : orderedSteps.Perm steps)
    (kind : NodeKind) :
    ((w.entries.filter (·.kind == kind)).map Entry.place).Perm
      ((steps.filter (·.what.kind == kind)).map Registered.place ++
        (branches.filter (·.what.kind == kind)).map Registered.place) := by
  have hperm := ((h.map_key_perm hbranches hsteps).filter (·.1 == kind)).map
    fun key => (key.2.2, idName key.2.1)
  simp only [List.filter_append, List.filter_map, List.map_append, List.map_map] at hperm
  exact hperm

/-- No two entries have the same id when no two calls of a kind that goes by name and line have both
in common. -/
theorem Realizes.nodup_ids_iff (h : w.Realizes ordered orderedSteps)
    (hbranches : (ordered.map (·.1)).Perm branches) (hsteps : orderedSteps.Perm steps) :
    (w.entries.map Entry.id).Nodup ↔
      ((branches.filter (·.what.kind == .signalWait)).map Registered.place).Nodup ∧
      ((steps.filter (·.what.kind == .childWorkflow)).map Registered.place).Nodup ∧
      ((steps.filter (·.what.kind == .externalSignal)).map Registered.place).Nodup := by
  have hstep (kind : NodeKind) (hkind : ∀ action : Action, action.kind ≠ kind) :
      steps.filter (·.what.kind == kind) = [] := by simp [hkind]
  have hbranch (kind : NodeKind) (hkind : ∀ test : Test, test.kind ≠ kind) :
      branches.filter (·.what.kind == kind) = [] := by simp [hkind]
  rw [h.ids_made.nodup_ids_iff]
  simp only [namedKinds, List.forall_mem_cons, (h.places_perm hbranches hsteps _).nodup_iff]
  rw [hstep .signalWait (by rintro (_ | _ | _) <;> simp [Action.kind]),
    hbranch .childWorkflow (by rintro (_ | _) <;> simp [Test.kind]),
    hbranch .externalSignal (by rintro (_ | _) <;> simp [Test.kind])]
  simp

end Workflow

namespace Draft

variable {d : Draft} {w : Workflow}

/-- A workflow that is put together from a draft is well-formed when the calls are. -/
theorem wellFormed_iff_of_assemble (h : d.assemble = .ok w) :
    w.WellFormed ↔ WellFormedCalls d.name d.steps d.branches := by
  have hname : w.name = d.name := (assemble_eq_ok_iff.1 h).1
  have hrealizes := realizes_of_assemble h
  have hperm : d.orderedBranches.Perm d.branches.zipIdx := SourceOrder.perm_sort _ _
  have hbranches := map_fst_orderedBranches_perm d
  have hsteps := orderedSteps_perm d
  obtain ⟨hbranchGuards, hstepGuards⟩ := exists_assemble_iff.1 ⟨w, h⟩
  constructor
  · intro hw
    obtain ⟨hwaits, hchildren, hsignals⟩ :=
      (hrealizes.nodup_ids_iff hbranches hsteps).1 hw.ids_nodup
    obtain ⟨hstepNames, hbranchNames⟩ :=
      (hrealizes.names_iff hbranches hsteps (Text.trim · ≠ "")).1 hw.names_not_blank
    exact {
      name_not_blank := hname ▸ hw.name_not_blank
      step_names_not_blank := hstepNames
      branch_names_not_blank := hbranchNames
      step_guards_known := hstepGuards
      branch_guards_known := hbranchGuards
      waits_apart := hwaits
      children_apart := hchildren
      signals_apart := hsignals
      acyclic := (hrealizes.acyclic_iff hperm hw.branch_ids_nodup).1 hw.acyclic }
  · intro hcalls
    have hids : (w.entries.map Entry.id).Nodup := (hrealizes.nodup_ids_iff hbranches hsteps).2
      ⟨hcalls.waits_apart, hcalls.children_apart, hcalls.signals_apart⟩
    exact {
      name_not_blank := hname ▸ hcalls.name_not_blank
      names_not_blank := (hrealizes.names_iff hbranches hsteps (Text.trim · ≠ "")).2
        ⟨hcalls.step_names_not_blank, hcalls.branch_names_not_blank⟩
      ids_not_empty := fun e he => by
        obtain ⟨seed, hseed, -⟩ := hrealizes.ids_made.exists_seed he
        exact hseed ▸ seed.id_ne_empty
      ids_nodup := hids
      conditions_known := fun e he c hc => hrealizes.exists_branch_of_condition he hc
      acyclic := (hrealizes.acyclic_iff hperm (Workflow.nodup_branch_ids hids)).2 hcalls.acyclic }

theorem exists_finish_iff :
    (∃ w, d.finish = .ok w) ↔ WellFormedCalls d.name d.steps d.branches := by
  constructor
  · rintro ⟨w, h⟩
    obtain ⟨hassemble, hcheck⟩ := finish_eq_ok_iff.1 h
    exact (wellFormed_iff_of_assemble hassemble).1 (Workflow.wellFormed_of_check hcheck)
  · intro hcalls
    obtain ⟨w, h⟩ := exists_assemble_iff.2 ⟨hcalls.branch_guards_known, hcalls.step_guards_known⟩
    have hw : w.WellFormed := (wellFormed_iff_of_assemble h).2 hcalls
    exact ⟨w, finish_eq_ok_iff.2 ⟨h, hw.check_eq_ok⟩⟩

/-- **A draft can be finished exactly when its calls are well-formed.** An activity or a decision
never has the id of another entry, and neither do entries of different kinds: two entries share an
id exactly when they are waits, calls of other workflows or signals that are sent, both of one kind,
on one line, and with names that look the same in an id. -/
theorem exists_finish_iff_wellFormedCalls (name : String) (calls : List Registration) :
    ((∃ w, (ofRegistrations name calls).finish = .ok w) ↔
      WellFormedCalls name (stepCalls calls) (branchCalls calls)) ∧
    ∀ w, (ofRegistrations name calls).assemble = .ok w →
      w.entries.Pairwise fun a b => a.id = b.id ↔ a.Clash b := by
  rw [ofRegistrations_eq]
  exact ⟨exists_finish_iff, fun w h => (realizes_of_assemble h).ids_made.pairwise_id_eq_iff⟩

/-- Two waits whose names differ in case and blanks only, and a call of another workflow of the same
name, all on one line. -/
def paidTwiceCalls : List Registration := [
  .signalWait "Paid" 4 "paid" "1h" .always,
  .signalWait " paid" 4 "paid" "2h" (.when [(0, false)]),
  .step .childWorkflow "Paid" 4 (.when [(1, true)])]

/-- What becomes of these calls: the waits share an id, and the call has its own. -/
def paidTwice : Workflow where
  name := "Payment"
  steps := [⟨.childWorkflow, "Paid", "child_paid_4", 4, .known [⟨"sig_paid_4", true⟩]⟩]
  branches := [
    ⟨.signalWait "paid" "1h" none none, "Paid", "sig_paid_4", 4, .known []⟩,
    ⟨.signalWait "paid" "2h" none none, " paid", "sig_paid_4", 4, .known [⟨"sig_paid_4", false⟩]⟩]

theorem exists_finish_iff_wellFormedCalls_paidTwice :
    (ofRegistrations "Payment" paidTwiceCalls).assemble = .ok paidTwice ∧
      (paidTwice.entries.Pairwise fun a b => a.id = b.id ↔ a.Clash b) ∧
      ¬ WellFormedCalls "Payment" (stepCalls paidTwiceCalls) (branchCalls paidTwiceCalls) := by
  obtain ⟨hiff, hpairs⟩ := exists_finish_iff_wellFormedCalls "Payment" paidTwiceCalls
  have hassemble : (ofRegistrations "Payment" paidTwiceCalls).assemble = .ok paidTwice := by
    decide +kernel
  have hfinish : (ofRegistrations "Payment" paidTwiceCalls).finish =
      .error (.workflow (.duplicateId (.branch 1) "sig_paid_4")) := by decide +kernel
  refine ⟨hassemble, hpairs _ hassemble, fun hcalls => ?_⟩
  obtain ⟨w, hw⟩ := hiff.2 hcalls
  rw [hfinish] at hw
  cases hw

end Draft

end WorkflowPaths
