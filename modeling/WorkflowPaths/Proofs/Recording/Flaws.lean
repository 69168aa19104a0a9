import WorkflowPaths.Proofs.Draft.Acceptance
import WorkflowPaths.Proofs.Recording.Contents

/-!
# What can be wrong with the workflow of a recording

The references of a call are looked up among the branch points before it, so the workflow of a
recording is guarded from above: a branch point has conditions only on branch points that are listed
before it (`GuardedFromAbove`). Most of what can be wrong with a workflow is then ruled out, also
where branch points share a line, a name or an id.

* `GuardedFromAbove.acyclic`: where ids are different, no branch point depends on itself.
* `GuardedFromAbove.first_flaw`: a branch point with a condition on its own id comes behind another
  one with this id, so the id is reported, and the condition is not.
* `exists_assemble_of_toDraft`: no guard refers to a branch point that is not there.
* `toWorkflow_invalid_exact`: what is left is a blank name of the workflow, and calls that share an
  id.
-/

namespace WorkflowPaths

@[simp] theorem Entry.branch?_eq_some_iff {e : Entry} {b : Branch} :
    e.branch? = some b ↔ e = .branch b := by
  cases e <;> simp [branch?]

@[simp] theorem Entry.step?_eq_some_iff {e : Entry} {s : Step} : e.step? = some s ↔ e = .step s := by
  cases e <;> simp [step?]

/-! ### Workflows that are guarded from above -/

namespace Workflow

/-- Conditions are only on branch points that come before: those of a branch point on branch points
that are listed before it, those of a step on any branch points of the workflow. -/
structure GuardedFromAbove (w : Workflow) : Prop where
  /-- Branch points have conditions on branch points before them. -/
  branches : ∀ before b after, w.branches = before ++ b :: after →
    ∀ c, b.membership.Requires c → ∃ b' ∈ before, b'.id = c.branch
  /-- Steps have conditions on branch points of the workflow. -/
  steps : ∀ s ∈ w.steps, ∀ c, s.membership.Requires c → ∃ b ∈ w.branches, b.id = c.branch

variable {w : Workflow} {earlier : List String} {slot : Slot} {e : Entry} {c : Condition}
  {flaw : Flaw} {before after : List (Slot × Entry)}

theorem GuardedFromAbove.conditions_known (h : w.GuardedFromAbove) (he : e ∈ w.entries)
    (hc : e.membership.Requires c) : ∃ b ∈ w.branches, b.id = c.branch := by
  cases e with
  | step s => exact h.steps s (step_mem_entries.1 he) c hc
  | branch b =>
    obtain ⟨before, after, hsplit⟩ := List.append_of_mem (branch_mem_entries.1 he)
    obtain ⟨b', hb', hid⟩ := h.branches before b after hsplit c hc
    exact ⟨b', hsplit ▸ List.mem_append_left _ hb', hid⟩

/-- The place of a branch point in the list is a rank that falls along dependencies. -/
theorem GuardedFromAbove.acyclic (h : w.GuardedFromAbove) (hids : (w.branches.map Branch.id).Nodup) :
    w.Acyclic := by
  refine ⟨fun b => w.branches.idxOf b, ?_⟩
  intro x y hxy
  obtain ⟨hx, hy, c, hc, hcy⟩ := hxy
  obtain ⟨before, after, hsplit⟩ := List.append_of_mem hx
  obtain ⟨b, hb, hid⟩ := h.branches before x after hsplit c hc
  obtain rfl : b = y := by
    apply List.inj_on_of_nodup_map hids _ hy (hid.trans hcy)
    rw [hsplit]
    exact List.mem_append_left _ hb
  have hnotMem : x ∉ before := by
    have hnodup := hids.of_map
    rw [hsplit, List.nodup_append] at hnodup
    exact fun hmem => hnodup.2.2 x hmem x List.mem_cons_self rfl
  have hlt := List.idxOf_lt_length_of_mem hb
  show w.branches.idxOf b < w.branches.idxOf x
  rw [hsplit, List.idxOf_append_of_mem hb, List.idxOf_append_of_notMem hnotMem]
  omega

/-! ### The first flaw -/

theorem head?_flaws_of_check (h : w.check = .error flaw) : w.flaws.head? = some flaw := by
  unfold check at h
  split at h
  next => cases h
  next first rest hflaws =>
    cases h
    rw [hflaws, List.head?_cons]

theorem mem_entries_of_slots_eq (h : w.slots = before ++ (slot, e) :: after) : e ∈ w.entries := by
  have hmem : (slot, e) ∈ w.slots := by simp [h]
  exact mem_entries_of_entryAt? (mem_slots_iff.1 hmem)

/-- The first flaw of a list of entries is the first flaw of one of them. -/
theorem exists_of_head?_slotFlaws {l : List (Slot × Entry)}
    (h : (w.slotFlaws earlier l).head? = some flaw) :
    ∃ before slot e after, l = before ++ (slot, e) :: after ∧
      (w.entryFlaws ((before.map (·.2.id)).reverse ++ earlier) slot e).head? = some flaw := by
  induction l generalizing earlier with
  | nil => cases h
  | cons x r ih =>
    obtain ⟨slot, e⟩ := x
    rw [slotFlaws, List.head?_append] at h
    cases hfirst : (w.entryFlaws earlier slot e).head? with
    | some first =>
      rw [hfirst] at h
      exact ⟨[], slot, e, r, rfl, hfirst.trans h⟩
    | none =>
      rw [hfirst] at h
      obtain ⟨before, slot', e', after, rfl, hflaw⟩ := ih h
      refine ⟨(slot, e) :: before, slot', e', after, rfl, ?_⟩
      simpa using hflaw

/-- Where an entry has a name and an id, and all is well with its conditions unless the id is taken,
the only flaw that can come first is that the id is taken. -/
theorem eq_duplicateId_of_head?_entryFlaws (hname : Text.trim e.name ≠ "") (hid : e.id ≠ "")
    (hconditions : e.id ∉ earlier → ∀ c, e.membership.Requires c → w.conditionFlaws slot e c = [])
    (h : (w.entryFlaws earlier slot e).head? = some flaw) :
    e.id ∈ earlier ∧ flaw = .duplicateId slot e.id := by
  have hblank : ¬ Text.isBlankText e.name = true := mt (Text.trim_eq_empty_iff _).2 hname
  unfold entryFlaws at h
  rw [if_neg hblank, if_neg hid] at h
  by_cases hearlier : e.id ∈ earlier
  · rw [if_pos hearlier] at h
    simp only [List.nil_append, List.singleton_append, List.head?_cons, Option.some.injEq] at h
    exact ⟨hearlier, h.symm⟩
  · have hnone : e.membership.conditions.flatMap (w.conditionFlaws slot e) = [] :=
      List.flatMap_eq_nil_iff.2 fun c hc => hconditions hearlier c (Membership.mem_conditions_iff.1 hc)
    rw [if_neg hearlier, hnone] at h
    simp at h

theorem filterMap_branch?_slots (w : Workflow) :
    (w.slots.map Prod.snd).filterMap Entry.branch? = w.branches := by
  simp [map_snd_slots, List.filterMap_append, List.filterMap_map, Function.comp_def, Entry.branch?]

theorem branches_eq_of_slots_eq {b : Branch} (h : w.slots = before ++ (slot, .branch b) :: after) :
    w.branches = before.filterMap (·.2.branch?) ++ b :: after.filterMap (·.2.branch?) := by
  rw [← filterMap_branch?_slots, h, List.filterMap_map, List.filterMap_append]
  rfl

/-- Nothing is wrong with the conditions of an entry whose id is not taken. -/
theorem GuardedFromAbove.conditionFlaws_eq_nil (h : w.GuardedFromAbove)
    (hslots : w.slots = before ++ (slot, e) :: after) (hid : e.id ∉ before.map (·.2.id))
    (hc : e.membership.Requires c) : w.conditionFlaws slot e c = [] := by
  obtain ⟨b, hb, hbc⟩ := h.conditions_known (mem_entries_of_slots_eq hslots) hc
  have hknown : ¬ (w.branch? c.branch).isNone = true := by
    rw [Option.isNone_iff_eq_none, branch?_eq_none_iff]
    exact fun hnone => hnone b hb hbc
  unfold conditionFlaws
  rw [if_neg hknown]
  cases e with
  | step s => rfl
  | branch x =>
    -- The condition is on a branch point before, so its id is not that of `x`.
    obtain ⟨b', hb', hid'⟩ := h.branches _ x _ (branches_eq_of_slots_eq hslots) c hc
    obtain ⟨row, hrow, hbranch⟩ := List.mem_filterMap.1 hb'
    have hself : x.id ≠ c.branch := by
      intro hself
      refine hid (List.mem_map.2 ⟨row, hrow, ?_⟩)
      rw [Entry.branch?_eq_some_iff.1 hbranch]
      exact hid'.trans hself.symm
    simp [hself]

/-- **What the check reports first** of a workflow that is guarded from above, and whose entries have
names and ids: that the workflow has no name, or that an id is taken. -/
theorem GuardedFromAbove.first_flaw (h : w.GuardedFromAbove)
    (hnames : ∀ e ∈ w.entries, Text.trim e.name ≠ "") (hids : ∀ e ∈ w.entries, e.id ≠ "")
    (hcheck : w.check = .error flaw) :
    (Text.trim w.name = "" ∧ flaw = .blankName) ∨
      ∃ slot e e', [e, e'].Sublist (w.slots.map Prod.snd) ∧ e.id = e'.id ∧
        flaw = .duplicateId slot e'.id := by
  have hhead := head?_flaws_of_check hcheck
  unfold flaws at hhead
  by_cases hblank : Text.isBlankText w.name = true
  · rw [if_pos hblank] at hhead
    simp only [List.cons_append, List.head?_cons, Option.some.injEq] at hhead
    exact .inl ⟨(Text.trim_eq_empty_iff _).2 hblank, hhead.symm⟩
  · rw [if_neg hblank, List.nil_append, List.head?_append] at hhead
    cases hslots : (w.slotFlaws [] w.slots).head? with
    | none =>
      -- Without a flaw in an entry the ids are different, and then there is no flaw at all.
      obtain ⟨-, hnodup, -⟩ := of_slotFlaws_eq_nil (List.head?_eq_none_iff.1 hslots)
      have hids_nodup := nodup_ids_slots_iff.1 hnodup
      have hw : w.WellFormed := {
        name_not_blank := mt (Text.trim_eq_empty_iff _).1 hblank
        names_not_blank := hnames
        ids_not_empty := hids
        ids_nodup := hids_nodup
        conditions_known := fun e he c hc => h.conditions_known he hc
        acyclic := h.acyclic (nodup_branch_ids hids_nodup) }
      rw [hw.check_eq_ok] at hcheck
      cases hcheck
    | some first =>
      rw [hslots] at hhead
      cases hhead
      obtain ⟨before, slot, e, after, hsplit, hflaw⟩ := exists_of_head?_slotFlaws hslots
      have he := mem_entries_of_slots_eq hsplit
      obtain ⟨htaken, rfl⟩ := eq_duplicateId_of_head?_entryFlaws (hnames e he) (hids e he)
        (fun hfree c hc => h.conditionFlaws_eq_nil hsplit (by simpa using hfree) hc) hflaw
      obtain ⟨other, hother, hid⟩ : ∃ x ∈ before, x.2.id = e.id := by simpa using htaken
      refine .inr ⟨slot, other.2, e, ?_, hid, rfl⟩
      rw [hsplit, List.map_append, List.map_cons]
      exact (List.singleton_sublist.2 (List.mem_map_of_mem hother)).append
        ((List.nil_sublist _).cons_cons e)

/-! ### Workflows of recordings -/

variable {rows : List (Call × Entry)} {row : Call × Entry}

/-- A condition of an entry is on a branch point in a row above. -/
theorem ConsistsOf.exists_row_above (h : w.ConsistsOf rows) {above below : List (Call × Entry)}
    (hrows : rows = above ++ row :: below) (hc : row.2.membership.Requires c) :
    ∃ row' ∈ above, ∃ b, row'.2 = .branch b ∧ b.id = c.branch := by
  have hfrom := h.comes_from above row below hrows
  cases hunknown : row.1.membershipUnknown with
  | true =>
    rw [hfrom.unknown hunknown] at hc
    cases hc
  | false =>
    obtain ⟨conditions, hmembership, hall⟩ := hfrom.known hunknown
    rw [hmembership, Membership.requires_known_iff] at hc
    obtain ⟨reference, -, hrefers, -⟩ := exists_of_forall₂_right hall hc
    obtain ⟨first, call, b, between, rfl, -, hid, -⟩ := hrefers
    exact ⟨(call, .branch b), by simp, b, rfl, hid⟩

theorem ConsistsOf.guardedFromAbove (h : w.ConsistsOf rows) : w.GuardedFromAbove := by
  constructor
  · intro before b after hsplit c hc
    rw [h.branches_eq] at hsplit
    obtain ⟨first, second, rfl, hfirst, hsecond⟩ := List.filterMap_eq_append_iff.1 hsplit
    obtain ⟨skipped, row, below, rfl, hskipped, hb, -⟩ := List.filterMap_eq_cons_iff.1 hsecond
    rw [Entry.branch?_eq_some_iff] at hb
    obtain ⟨row', hrow', b', hbranch, hid⟩ :=
      h.exists_row_above (List.append_assoc first skipped _).symm (c := c) (hb ▸ hc)
    refine ⟨b', ?_, hid⟩
    -- Between `first` and the row of `b` there are no branch points.
    rcases List.mem_append.1 hrow' with hmem | hmem
    · rw [← hfirst]
      exact List.mem_filterMap.2 ⟨row', hmem, Entry.branch?_eq_some_iff.2 hbranch⟩
    · have hnone := hskipped row' hmem
      rw [hbranch] at hnone
      cases hnone
  · intro s hs c hc
    rw [h.steps_eq] at hs
    obtain ⟨row, hrow, hstep⟩ := List.mem_filterMap.1 hs
    rw [Entry.step?_eq_some_iff] at hstep
    obtain ⟨above, below, hrows⟩ := List.append_of_mem hrow
    obtain ⟨row', hrow', b, hbranch, hid⟩ := h.exists_row_above hrows (c := c) (hstep ▸ hc)
    refine ⟨b, ?_, hid⟩
    rw [h.branches_eq, hrows]
    exact List.mem_filterMap.2
      ⟨row', List.mem_append_left _ hrow', Entry.branch?_eq_some_iff.2 hbranch⟩

theorem ConsistsOf.of_mem (h : w.ConsistsOf rows) (hrow : row ∈ rows) :
    ∃ above, row.2.ComesFrom above row.1 := by
  obtain ⟨above, below, hrows⟩ := List.append_of_mem hrow
  exact ⟨above, h.comes_from above row below hrows⟩

theorem ConsistsOf.of_pair (h : w.ConsistsOf rows) {row' : Call × Entry}
    (hpair : [row, row'].Sublist rows) :
    (∃ above, row.2.ComesFrom above row.1) ∧ ∃ above, row'.2.ComesFrom above row'.1 :=
  ⟨h.of_mem (hpair.subset (by simp)), h.of_mem (hpair.subset (by simp))⟩

/-- Every entry of the workflow stands in a row. -/
theorem ConsistsOf.exists_row (h : w.ConsistsOf rows) (he : e ∈ w.entries) :
    ∃ row ∈ rows, row.2 = e := by
  cases e with
  | step s =>
    rw [step_mem_entries, h.steps_eq] at he
    simpa using he
  | branch b =>
    rw [branch_mem_entries, h.branches_eq] at he
    simpa using he

end Workflow

/-! ### Calls that share an id -/

/-- The kind of node that shows what is called. -/
def CallKind.nodeKind : CallKind → NodeKind
  | .activity => .activity
  | .decision => .decision
  | .signalWait => .signalWait
  | .childWorkflow => .childWorkflow
  | .externalSignal => .externalSignal

theorem CallKind.nodeKind_inj {kind kind' : CallKind} :
    kind.nodeKind = kind'.nodeKind ↔ kind = kind' := by
  cases kind <;> cases kind' <;> simp [nodeKind]

namespace Call

/-- The two calls are both waits, both calls of other workflows or both signals that are sent, and
they are on one line and have names that look the same in an id. -/
def Clash (c c' : Call) : Prop :=
  c.kind = c'.kind ∧ c.kind ∈ [CallKind.signalWait, .childWorkflow, .externalSignal] ∧
    c.line = c'.line ∧ c.name.map idName = c'.name.map idName

/-- The id that is made from the name and the line of a call, if its kind goes by these. -/
def namedId? (c : Call) : Option String :=
  c.name.bind fun name => (c.kind.nodeKind.seed? name c.line).map NodeSeed.id

variable {c : Call}

theorem nodeKind_mem_namedKinds : c.kind.nodeKind ∈ namedKinds ↔
    c.kind ∈ [CallKind.signalWait, .childWorkflow, .externalSignal] := by
  cases c.kind <;> simp [CallKind.nodeKind, namedKinds]

theorem Does.kind_eq {what : Action ⊕ Test} (h : c.Does what) :
    what.elim Action.kind Test.kind = c.kind.nodeKind := by
  unfold Does at h
  cases hkind : c.kind with
  | signalWait =>
    rw [hkind] at h
    obtain ⟨condition, timeout, -, -, rfl⟩ := h
    rfl
  | externalSignal =>
    rw [hkind] at h
    obtain ⟨target, -, rfl⟩ := h
    rfl
  | _ =>
    rw [hkind] at h
    cases h
    rfl

end Call

namespace Entry.ComesFrom

variable {c c' : Call} {e e' : Entry} {before before' : List (Call × Entry)}

/-- The entry of a call is of the kind that is called. -/
theorem kind_eq (h : e.ComesFrom before c) : e.kind = c.kind.nodeKind := by
  rw [← h.does.kind_eq]
  cases e with
  | step s => rfl
  | branch b => exact b.kind_eq

/-- Entries clash when their calls do. -/
theorem clash_iff (h : e.ComesFrom before c) (h' : e'.ComesFrom before' c') :
    e.Clash e' ↔ c.Clash c' := by
  unfold Entry.Clash Call.Clash Entry.place
  rw [h.kind_eq, h'.kind_eq, CallKind.nodeKind_inj, Call.nodeKind_mem_namedKinds, h.line_eq,
    h'.line_eq, h.name_eq, h'.name_eq, Prod.mk.injEq, Option.map_some, Option.map_some,
    Option.some.injEq]

/-- An entry that goes by name and line has the id that is made from those of its call. -/
theorem namedId?_eq {w : Workflow} (h : e.ComesFrom before c) (hmade : w.HasMadeIds)
    (he : e ∈ w.entries) (hkind : e.kind ∈ namedKinds) : c.namedId? = some e.id := by
  obtain ⟨seed, hseed⟩ := (@exists_seed?_iff e.kind e.name e.line).2 hkind
  rw [Call.namedId?, h.name_eq, Option.bind_some, ← h.kind_eq, ← h.line_eq, hseed, Option.map_some,
    hmade.named e he seed hseed]

end Entry.ComesFrom

theorem pair_sublist_map_iff {α β : Type} {f : α → β} {l : List α} {b b' : β} :
    [b, b'].Sublist (l.map f) ↔ ∃ a a', [a, a'].Sublist l ∧ f a = b ∧ f a' = b' := by
  rw [List.sublist_map_iff]
  constructor
  · rintro ⟨l', hl', hmap⟩
    obtain ⟨a, rest, rfl, rfl, hrest⟩ := List.map_eq_cons_iff.1 hmap.symm
    obtain ⟨a', rfl, rfl⟩ := List.map_eq_singleton_iff.1 hrest
    exact ⟨a, a', hl', rfl, rfl⟩
  · rintro ⟨a, a', hl, rfl, rfl⟩
    exact ⟨[a, a'], hl, rfl⟩

/-- Two elements that a part of a list is made of follow each other in every list with that part. -/
theorem pair_sublist_of_filterMap_eq {α β : Type} {f : α → Option β} {g : β → α}
    (hf : ∀ {a b}, f a = some b ↔ a = g b) {l l' : List α} (heq : l.filterMap f = l'.filterMap f)
    {b b' : β} (h : [g b, g b'].Sublist l) : [g b, g b'].Sublist l' := by
  have hback (r : List α) : ((r.filterMap f).map g).Sublist r := by
    induction r with
    | nil => exact .slnil
    | cons a r ih =>
      cases ha : f a with
      | none =>
        rw [List.filterMap_cons_none ha]
        exact ih.cons a
      | some b =>
        rw [List.filterMap_cons_some ha, List.map_cons, ← hf.1 ha]
        exact ih.cons_cons a
  have hpair := (h.filterMap f).map g
  rw [heq, List.filterMap_cons_some (hf.2 rfl), List.filterMap_cons_some (hf.2 rfl)] at hpair
  exact hpair.trans (hback l')

namespace Workflow

variable {w : Workflow} {e e' : Entry} {rows : List (Call × Entry)}

/-- Where steps and branch points are the same, so is the order of two entries of one kind. -/
theorem sublist_of_filterMap_eq {l l' : List Entry}
    (hsteps : l.filterMap Entry.step? = l'.filterMap Entry.step?)
    (hbranches : l.filterMap Entry.branch? = l'.filterMap Entry.branch?) (hkind : e.kind = e'.kind)
    (h : [e, e'].Sublist l) : [e, e'].Sublist l' := by
  cases e with
  | step s =>
    cases e' with
    | step s' => exact pair_sublist_of_filterMap_eq Entry.step?_eq_some_iff hsteps h
    | branch b' => exact absurd hkind (kind_step_ne_kind_branch s b')
  | branch b =>
    cases e' with
    | step s' => exact absurd hkind.symm (kind_step_ne_kind_branch s' b)
    | branch b' => exact pair_sublist_of_filterMap_eq Entry.branch?_eq_some_iff hbranches h

theorem filterMap_step?_entries (w : Workflow) : w.entries.filterMap Entry.step? = w.steps := by
  simp [entries, List.filterMap_append, List.filterMap_map, Function.comp_def, Entry.step?]

theorem filterMap_branch?_entries (w : Workflow) :
    w.entries.filterMap Entry.branch? = w.branches := by
  simp [entries, List.filterMap_append, List.filterMap_map, Function.comp_def, Entry.branch?]

theorem filterMap_step?_slots (w : Workflow) :
    (w.slots.map Prod.snd).filterMap Entry.step? = w.steps := by
  simp [map_snd_slots, List.filterMap_append, List.filterMap_map, Function.comp_def, Entry.step?]

/-- Two entries of one kind follow each other in the workflow when they are checked one after the
other. -/
theorem sublist_entries_of_sublist_slots (hkind : e.kind = e'.kind)
    (h : [e, e'].Sublist (w.slots.map Prod.snd)) : [e, e'].Sublist w.entries := by
  refine sublist_of_filterMap_eq ?_ ?_ hkind h
  · rw [filterMap_step?_slots, filterMap_step?_entries]
  · rw [filterMap_branch?_slots, filterMap_branch?_entries]

/-- Two entries of one kind follow each other in the workflow when they do so in the rows. -/
theorem ConsistsOf.sublist_entries_iff (h : w.ConsistsOf rows) (hkind : e.kind = e'.kind) :
    [e, e'].Sublist w.entries ↔ [e, e'].Sublist (rows.map (·.2)) := by
  have hsteps : w.entries.filterMap Entry.step? = (rows.map (·.2)).filterMap Entry.step? := by
    rw [filterMap_step?_entries, h.steps_eq, List.filterMap_map]
    rfl
  have hbranches : w.entries.filterMap Entry.branch? = (rows.map (·.2)).filterMap Entry.branch? := by
    rw [filterMap_branch?_entries, h.branches_eq, List.filterMap_map]
    rfl
  exact ⟨sublist_of_filterMap_eq hsteps hbranches hkind,
    sublist_of_filterMap_eq hsteps.symm hbranches.symm hkind⟩

/-- Two entries with one id come from calls that clash, and have the id that is made from the
name and the line of either call. -/
theorem ConsistsOf.exists_clash (h : w.ConsistsOf rows) (hmade : w.HasMadeIds)
    (hpair : [e, e'].Sublist w.entries) (hid : e.id = e'.id) :
    ∃ c c', [c, c'].Sublist (rows.map (·.1)) ∧ c.Clash c' ∧ c.namedId? = some e'.id ∧
      c'.namedId? = some e'.id := by
  have he : e ∈ w.entries := hpair.subset (by simp)
  have he' : e' ∈ w.entries := hpair.subset (by simp)
  have hclash := (List.pairwise_iff_forall_sublist.1 hmade.pairwise_id_eq_iff hpair).1 hid
  rw [h.sublist_entries_iff hclash.1, pair_sublist_map_iff] at hpair
  obtain ⟨row, row', hrows, rfl, rfl⟩ := hpair
  obtain ⟨⟨above, hfrom⟩, above', hfrom'⟩ := h.of_pair hrows
  refine ⟨row.1, row'.1, hrows.map _, (hfrom.clash_iff hfrom').1 hclash, ?_, ?_⟩
  · rw [hfrom.namedId?_eq hmade he hclash.2.1, hid]
  · rw [hfrom'.namedId?_eq hmade he' (hclash.1 ▸ hclash.2.1)]

/-- Calls that clash make entries with one id. -/
theorem ConsistsOf.not_nodup_of_clash (h : w.ConsistsOf rows) (hmade : w.HasMadeIds) {c c' : Call}
    (hpair : [c, c'].Sublist (rows.map (·.1))) (hclash : c.Clash c') :
    ¬ (w.entries.map Entry.id).Nodup := by
  obtain ⟨row, row', hrows, rfl, rfl⟩ := pair_sublist_map_iff.1 hpair
  obtain ⟨⟨above, hfrom⟩, above', hfrom'⟩ := h.of_pair hrows
  have hentries : row.2.Clash row'.2 := (hfrom.clash_iff hfrom').2 hclash
  have hsublist := (h.sublist_entries_iff hentries.1).2 (hrows.map _)
  have hid := (List.pairwise_iff_forall_sublist.1 hmade.pairwise_id_eq_iff hsublist).2 hentries
  intro hnodup
  rw [List.Nodup, List.pairwise_map, List.pairwise_iff_forall_sublist] at hnodup
  exact hnodup hsublist hid

end Workflow

/-! ### Failures before the workflow is checked -/

namespace Call

variable {c : Call} {d : Draft} {branches : List (Registered Test)} {flaw : Draft.Flaw}

theorem register_ne_invalid : register d c ≠ .error (.invalid flaw) := by
  intro h
  rcases register_error_cases h with ⟨argument, hmissing⟩ | ⟨-, hguard⟩
  · cases hmissing
  · obtain ⟨x, -, hx⟩ := guard_error_cases hguard
    cases hx

/-- The guard of a call is on branch points that are there. -/
theorem lt_length_of_mem_numbers {g : Guard} (h : c.guard branches = .ok g) {n : Nat}
    (hn : n ∈ g.numbers) : n < branches.length := by
  rcases guard_eq_ok_iff.1 h with ⟨-, rfl⟩ | ⟨-, conditions, hall, rfl⟩
  · cases hn
  · obtain ⟨x, hx, rfl⟩ : ∃ x ∈ conditions, x.1 = n := by
      cases conditions with
      | nil => cases hn
      | cons x more => exact List.mem_map.1 hn
    obtain ⟨reference, -, hfind, -⟩ := exists_of_forall₂_right hall hx
    obtain ⟨before, r, after, rfl, hlength, -⟩ := Reference.find?_eq_some_iff.1 hfind
    rw [← hlength, List.length_append, List.length_cons]
    omega

end Call

namespace Recording

variable {r : Recording} {d : Draft} {flaw : Draft.Flaw}

/-- Only a finished draft is found to be invalid. -/
theorem toWorkflow_eq_invalid_iff :
    r.toWorkflow = .error (.invalid flaw) ↔ ∃ d, r.toDraft = .ok d ∧ d.finish = .error flaw := by
  have htoDraft : r.toDraft ≠ .error (.invalid flaw) :=
    foldlM_ne_error (fun _ _ => Call.register_ne_invalid) _ _
  simp only [toWorkflow, bind_eq_error_iff, htoDraft, false_or, mapError_eq_error_iff,
    Error.invalid.injEq, exists_eq_right]

/-- The guards of registered calls are on registered branch points. -/
theorem RegistersAll.lt_length {rows : List (Call × Registered (Action ⊕ Test))}
    (h : RegistersAll rows) {row : Call × Registered (Action ⊕ Test)} (hrow : row ∈ rows) {n : Nat}
    (hn : n ∈ row.2.guard.numbers) : n < (rows.filterMap (·.2.branch?)).length := by
  obtain ⟨above, below, rfl⟩ := List.append_of_mem hrow
  have hlt := Call.lt_length_of_mem_numbers (h above row below rfl).guard_eq hn
  rw [List.filterMap_append, List.length_append]
  omega

/-- No guard refers to a branch point that is not there, so registered calls always make a workflow,
valid or not. -/
theorem exists_assemble_of_toDraft (h : r.toDraft = .ok d) : ∃ w, d.assemble = .ok w := by
  obtain ⟨rows, -, hregisters, rfl⟩ := toDraft_eq_ok_iff.1 h
  refine Draft.exists_assemble_iff.2 ⟨?_, ?_⟩
  · intro x hx n hn
    obtain ⟨row, hrow, hbranch⟩ := List.mem_filterMap.1 hx
    obtain ⟨test, -, rfl⟩ := Option.map_eq_some_iff.1 hbranch
    exact hregisters.lt_length hrow hn
  · intro x hx n hn
    obtain ⟨row, hrow, hstep⟩ := List.mem_filterMap.1 hx
    obtain ⟨action, -, rfl⟩ := Option.map_eq_some_iff.1 hstep
    exact hregisters.lt_length hrow hn

theorem exists_isGiven_of_toDraft (h : r.toDraft = .ok d) {c : Call} (hc : c ∈ r.orderedCalls) :
    ∃ name, Call.IsGiven c.name name := by
  obtain ⟨rows, hcalls, hregisters, -⟩ := toDraft_eq_ok_iff.1 h
  rw [← hcalls] at hc
  obtain ⟨row, hrow, rfl⟩ := List.mem_map.1 hc
  obtain ⟨branches, hregistered⟩ := hregisters.of_mem hrow
  exact ⟨row.2.name, hregistered.name⟩

/-- The workflow that registered calls make, valid or not, and the rows that it consists of. -/
theorem exists_made_of_toDraft (hd : r.toDraft = .ok d) :
    ∃ w rows, d.assemble = .ok w ∧ w.name = r.workflow ∧ w.HasMadeIds ∧
      rows.map (·.1) = r.orderedCalls ∧ w.ConsistsOf rows := by
  obtain ⟨w, hw⟩ := exists_assemble_of_toDraft hd
  obtain ⟨rows, hcalls, hrows⟩ := exists_consistsOf_of_assemble hd hw
  obtain ⟨registered, -, -, rfl⟩ := toDraft_eq_ok_iff.1 hd
  exact ⟨w, rows, hw, (Draft.assemble_eq_ok_iff.1 hw).1, (Draft.realizes_of_assemble hw).ids_made,
    hcalls, hrows⟩

/-- The entries of registered calls have names. -/
theorem trim_name_ne_empty {w : Workflow} {rows : List (Call × Entry)} (hd : r.toDraft = .ok d)
    (hcalls : rows.map (·.1) = r.orderedCalls) (hrows : w.ConsistsOf rows) :
    ∀ e ∈ w.entries, Text.trim e.name ≠ "" := by
  intro e he
  obtain ⟨row, hrow, rfl⟩ := hrows.exists_row he
  obtain ⟨above, hfrom⟩ := hrows.of_mem hrow
  obtain ⟨name, hname, hblank⟩ := exists_isGiven_of_toDraft hd
    (hcalls ▸ List.mem_map_of_mem hrow : row.1 ∈ r.orderedCalls)
  cases hfrom.name_eq.symm.trans hname
  simp [Text.trim_eq_empty_iff, hblank]

/-- What can be found to be wrong: the workflow has no name, or two calls clash. -/
theorem invalid_cases (h : r.toWorkflow = .error (.invalid flaw)) :
    (Text.trim r.workflow = "" ∧ flaw = .workflow .blankName) ∨
      ∃ slot id c c', [c, c'].Sublist r.calls ∧ c.Clash c' ∧ c.namedId? = some id ∧
        c'.namedId? = some id ∧ flaw = .workflow (.duplicateId slot id) := by
  obtain ⟨d, hd, hfinish⟩ := toWorkflow_eq_invalid_iff.1 h
  obtain ⟨w, rows, hw, hname, hmade, hcalls, hrows⟩ := exists_made_of_toDraft hd
  obtain ⟨cause, hcheck, rfl⟩ := (Draft.finish_eq_error_iff hw).1 hfinish
  have hids : ∀ e ∈ w.entries, e.id ≠ "" := by
    intro e he
    obtain ⟨seed, hseed, -⟩ := hmade.exists_seed he
    exact hseed ▸ seed.id_ne_empty
  rcases hrows.guardedFromAbove.first_flaw (trim_name_ne_empty hd hcalls hrows) hids hcheck with
    ⟨hblank, rfl⟩ | ⟨slot, e, e', hslots, hid, rfl⟩
  · exact .inl ⟨hname ▸ hblank, rfl⟩
  · have hmem (x : Entry) (hx : x ∈ [e, e']) : x ∈ w.entries :=
      w.map_snd_slots_perm.mem_iff.1 (hslots.subset hx)
    have hkind := hmade.kind_eq_of_id_eq (hmem e (by simp)) (hmem e' (by simp)) hid
    obtain ⟨c, c', hpair, hclash, hc, hc'⟩ :=
      hrows.exists_clash hmade (Workflow.sublist_entries_of_sublist_slots hkind hslots) hid
    rw [hcalls] at hpair
    exact .inr ⟨slot, e'.id, c, c', SourceOrder.sublist_of_sublist_sort hpair hclash.2.2.1, hclash,
      hc, hc', rfl⟩

/-- Without a name, or with calls that clash, there is no workflow. -/
theorem exists_invalid (hd : r.toDraft = .ok d)
    (h : Text.trim r.workflow = "" ∨ ∃ c c', [c, c'].Sublist r.calls ∧ c.Clash c') :
    ∃ flaw, r.toWorkflow = .error (.invalid flaw) := by
  obtain ⟨w, rows, hw, hname, hmade, hcalls, hrows⟩ := exists_made_of_toDraft hd
  cases hcheck : w.check with
  | error cause =>
    have hfinish := (Draft.finish_eq_error_iff hw).2 ⟨cause, hcheck, rfl⟩
    exact ⟨_, toWorkflow_eq_invalid_iff.2 ⟨d, hd, hfinish⟩⟩
  | ok _ =>
    have hwell := Workflow.wellFormed_of_check hcheck
    rcases h with hblank | ⟨c, c', hpair, hclash⟩
    · exact absurd (hname ▸ hblank) hwell.name_not_blank
    · have hsorted := SourceOrder.sublist_sort_of_sublist hpair hclash.2.2.1
      exact absurd hwell.ids_nodup (hrows.not_nodup_of_clash hmade (hcalls ▸ hsorted) hclash)

/-- **What can be wrong with the workflow of a recording**, once all its calls are registered: it has
no name, or two calls share an id. These are two waits, two calls of other workflows or two signals
that are sent, on one line and with names that look the same in an id. Guards never refer to branch
points that are not there, and neither unknown, self-referring and circular conditions nor missing
names and ids of entries are ever reported. -/
theorem toWorkflow_invalid_exact (r : Recording) :
    (∀ flaw, r.toWorkflow = .error (.invalid flaw) →
      (Text.trim r.workflow = "" ∧ flaw = .workflow .blankName) ∨
        ∃ slot id c c', [c, c'].Sublist r.calls ∧ c.Clash c' ∧ c.namedId? = some id ∧
          c'.namedId? = some id ∧ flaw = .workflow (.duplicateId slot id)) ∧
    ((∃ flaw, r.toWorkflow = .error (.invalid flaw)) ↔
      (∃ d, r.toDraft = .ok d) ∧
        (Text.trim r.workflow = "" ∨ ∃ c c', [c, c'].Sublist r.calls ∧ c.Clash c')) := by
  refine ⟨fun flaw h => invalid_cases h, ?_, ?_⟩
  · rintro ⟨flaw, h⟩
    obtain ⟨d, hd, -⟩ := toWorkflow_eq_invalid_iff.1 h
    rcases invalid_cases h with ⟨hblank, -⟩ | ⟨-, -, c, c', hpair, hclash, -⟩
    · exact ⟨⟨d, hd⟩, .inl hblank⟩
    · exact ⟨⟨d, hd⟩, .inr ⟨c, c', hpair, hclash⟩⟩
  · rintro ⟨⟨d, hd⟩, h⟩
    exact exists_invalid hd h

/-- Two waits on one line, the second conditional on the first, whose names differ in case and blanks
only. -/
def paidAgain : Recording where
  workflow := "Payment"
  calls := [
    { kind := .signalWait, line := 4, name := some "Paid", condition := some "paid",
      timeout := some "1h" },
    { kind := .signalWait, line := 4, name := some " paid", condition := some "paid",
      timeout := some "2h", conditions := [⟨"Paid", false⟩] }]

/-- The second wait has a condition on its own id, and yet it is its id that is reported. -/
theorem toWorkflow_invalid_exact_paidAgain :
    paidAgain.toWorkflow =
        .error (.invalid (.workflow (.duplicateId (.branch 1) "sig_paid_4"))) ∧
      ∃ c c', [c, c'].Sublist paidAgain.calls ∧ c.Clash c' := by
  have h : paidAgain.toWorkflow =
      .error (.invalid (.workflow (.duplicateId (.branch 1) "sig_paid_4"))) := by decide +kernel
  have hblank : Text.trim paidAgain.workflow ≠ "" := by decide +kernel
  exact ⟨h, (((toWorkflow_invalid_exact paidAgain).2.1 ⟨_, h⟩).2).resolve_left hblank⟩

end Recording

end WorkflowPaths
