import Mathlib.Data.List.Nodup
import WorkflowPaths.Proofs.Workflow.Dependencies
import WorkflowPaths.Text.Decimal

/-!
# Well-formed workflows

A workflow is well-formed when its name and the names of its entries are not blank, its entries
have ids, no two of them the same, every condition is on a branch point of the workflow, and the
branch points do not depend on each other in a circle. This module relates that to the flaws that
the check of a workflow looks for.

* Every flaw that is listed is one: the field that its error names breaks the rule that the
  message states (`breaks_of_mem_flaws`).
* No field of a well-formed workflow breaks a rule (`WellFormed.not_breaks`), and a workflow
  without flaws is well-formed (`wellFormed_of_flaws_eq_nil`).
* So the check accepts exactly the well-formed workflows, and what it reports otherwise is true.
-/

namespace WorkflowPaths.Workflow

/-- The steps and branch points of a workflow. -/
def entries (w : Workflow) : List Entry :=
  w.steps.map .step ++ w.branches.map .branch

@[simp] theorem step_mem_entries {w : Workflow} {s : Step} : .step s ∈ w.entries ↔ s ∈ w.steps := by
  simp [entries]

@[simp] theorem branch_mem_entries {w : Workflow} {b : Branch} :
    .branch b ∈ w.entries ↔ b ∈ w.branches := by
  simp [entries]

/-- A workflow that has paths. -/
structure WellFormed (w : Workflow) : Prop where
  /-- The workflow has a name. -/
  name_not_blank : Text.trim w.name ≠ ""
  /-- Every entry has a name. -/
  names_not_blank : ∀ e ∈ w.entries, Text.trim e.name ≠ ""
  /-- Every entry has an id. -/
  ids_not_empty : ∀ e ∈ w.entries, e.id ≠ ""
  /-- No two entries have the same id. -/
  ids_nodup : (w.entries.map Entry.id).Nodup
  /-- Every condition is on a branch point of the workflow. -/
  conditions_known : ∀ e ∈ w.entries, ∀ c, e.membership.Requires c →
    ∃ b ∈ w.branches, b.id = c.branch
  /-- No branch point depends on itself, not even through others. -/
  acyclic : w.Acyclic

/-- The entry at a place. -/
def entryAt? (w : Workflow) : Slot → Option Entry
  | .branch i => w.branches[i]?.map .branch
  | .step i => w.steps[i]?.map .step

/-- The text names an entry of the workflow, by the list that it is in and its index there. -/
inductive Names (w : Workflow) : String → Entry → Prop where
  /-- A branch point. -/
  | branch {i : Nat} {b : Branch} : w.branches[i]? = some b →
      w.Names ("branch_points[" ++ toString i ++ "]") (.branch b)
  /-- A step. -/
  | step {i : Nat} {s : Step} : w.steps[i]? = some s →
      w.Names ("steps[" ++ toString i ++ "]") (.step s)

/-- The field breaks the rule that the message states. -/
inductive Breaks (w : Workflow) : String → String → Prop where
  /-- The name of the workflow is blank. -/
  | blankName : Text.trim w.name = "" → w.Breaks "workflow_name" "must not be empty"
  /-- The name of an entry is blank. -/
  | blankEntryName {place : String} {e : Entry} : w.Names place e → Text.trim e.name = "" →
      w.Breaks (place ++ ".name") "must not be empty"
  /-- The id of an entry is empty. -/
  | emptyId {place : String} {e : Entry} : w.Names place e → e.id = "" →
      w.Breaks (place ++ ".node_id") "must not be empty"
  /-- The entry at another place has the same id. -/
  | duplicateId {place other : String} {e e' : Entry} : w.Names place e → other ≠ place →
      w.Names other e' → e'.id = e.id →
      w.Breaks (place ++ ".node_id") ("duplicate node id '" ++ e.id ++ "'")
  /-- An entry has a condition on an id that no branch point has. -/
  | unknownBranch {place : String} {e : Entry} {c : Condition} : w.Names place e →
      e.membership.Requires c → (∀ b ∈ w.branches, b.id ≠ c.branch) →
      w.Breaks (place ++ ".membership") ("refers to unknown branch point '" ++ c.branch ++ "'")
  /-- A branch point has a condition on itself. -/
  | selfCondition {place : String} {b : Branch} {c : Condition} : w.Names place (.branch b) →
      b.membership.Requires c → c.branch = b.id →
      w.Breaks (place ++ ".membership") ("branch point '" ++ b.id ++ "' is conditional on itself")
  /-- A branch point depends on itself, directly or through others. -/
  | circular {place : String} {b : Branch} : w.Names place (.branch b) →
      Relation.TransGen w.DependsOn b b →
      w.Breaks (place ++ ".membership") ("branch point '" ++ b.id ++ "' depends on itself")

/-! ### Places -/

/-- A place is named by the text of its field. -/
theorem names_field {w : Workflow} {slot : Slot} {e : Entry} (h : w.entryAt? slot = some e) :
    w.Names slot.field e := by
  cases slot with
  | branch i =>
    obtain ⟨b, hb, rfl⟩ := Option.map_eq_some_iff.1 h
    exact .branch hb
  | step i =>
    obtain ⟨s, hs, rfl⟩ := Option.map_eq_some_iff.1 h
    exact .step hs

theorem Names.exists_slot {w : Workflow} {place : String} {e : Entry} (h : w.Names place e) :
    ∃ slot : Slot, slot.field = place ∧ w.entryAt? slot = some e := by
  cases h with
  | @branch i b hb => exact ⟨.branch i, rfl, Option.map_eq_some_iff.2 ⟨b, hb, rfl⟩⟩
  | @step i s hs => exact ⟨.step i, rfl, Option.map_eq_some_iff.2 ⟨s, hs, rfl⟩⟩

/-- Different places have different fields: the names of the two lists begin with different letters,
and an index can be read off its digits. -/
theorem field_inj {slot other : Slot} (h : slot.field = other.field) : slot = other := by
  have hdigits {name : String} {i j : Nat}
      (h : name ++ toString i ++ "]" = name ++ toString j ++ "]") : i = j := by
    have hlist := congrArg String.toList h
    simp only [String.toList_append, List.append_cancel_right_eq,
      List.append_cancel_left_eq] at hlist
    exact Text.toDigits_inj.1 (String.ofList_inj.1 (String.toList_inj.1 hlist))
  have hhead {name : String} {c : Char} (hname : name.toList.head? = some c) (i : Nat) :
      (name ++ toString i ++ "]").toList.head? = some c := by
    rw [String.append_assoc, String.toList_append, List.head?_append, hname, Option.some_or]
  have hfirst (i j : Nat) : (Slot.branch i).field ≠ (Slot.step j).field := by
    intro h
    have hbranch : (Slot.branch i).field.toList.head? = some 'b' := hhead (by decide) i
    have hstep : (Slot.step j).field.toList.head? = some 's' := hhead (by decide) j
    rw [h, hstep] at hbranch
    exact absurd hbranch (by decide)
  cases slot with
  | branch i =>
    cases other with
    | branch j => exact congrArg Slot.branch (hdigits h)
    | step j => exact absurd h (hfirst i j)
  | step i =>
    cases other with
    | branch j => exact absurd h.symm (hfirst j i)
    | step j => exact congrArg Slot.step (hdigits h)

theorem mem_entries_of_entryAt? {w : Workflow} {slot : Slot} {e : Entry}
    (h : w.entryAt? slot = some e) : e ∈ w.entries := by
  cases slot with
  | branch i =>
    obtain ⟨b, hb, rfl⟩ := Option.map_eq_some_iff.1 h
    exact branch_mem_entries.2 (List.mem_of_getElem? hb)
  | step i =>
    obtain ⟨s, hs, rfl⟩ := Option.map_eq_some_iff.1 h
    exact step_mem_entries.2 (List.mem_of_getElem? hs)

theorem Names.mem_entries {w : Workflow} {place : String} {e : Entry} (h : w.Names place e) :
    e ∈ w.entries := by
  obtain ⟨slot, -, he⟩ := h.exists_slot
  exact mem_entries_of_entryAt? he

theorem mem_slots_iff {w : Workflow} {slot : Slot} {e : Entry} :
    (slot, e) ∈ w.slots ↔ w.entryAt? slot = some e := by
  cases slot <;>
    simp [slots, entryAt?, List.mk_mem_zipIdx_iff_getElem?, Option.map_eq_some_iff, Prod.exists]

theorem map_snd_slots (w : Workflow) :
    w.slots.map Prod.snd = w.branches.map .branch ++ w.steps.map .step := by
  have hsnd {α : Type} (f : α → Entry) (g : Nat → Slot) (l : List α) :
      (l.zipIdx.map fun (a, i) => (g i, f a)).map Prod.snd = l.map f := by
    calc (l.zipIdx.map fun (a, i) => (g i, f a)).map Prod.snd
        = (l.zipIdx.map Prod.fst).map f := by simp only [List.map_map, Function.comp_def]
      _ = l.map f := by rw [List.zipIdx_map_fst]
  rw [slots, List.map_append, hsnd, hsnd]

/-- The entries in the order of the check are the entries of the workflow. -/
theorem map_snd_slots_perm (w : Workflow) : (w.slots.map Prod.snd).Perm w.entries := by
  rw [map_snd_slots]
  exact List.perm_append_comm

theorem map_fst_slots (w : Workflow) : w.slots.map Prod.fst
    = (List.range' 0 w.branches.length).map .branch ++ (List.range' 0 w.steps.length).map .step := by
  have hfst {α : Type} (f : α → Entry) (g : Nat → Slot) (l : List α) :
      (l.zipIdx.map fun (a, i) => (g i, f a)).map Prod.fst = (List.range' 0 l.length).map g := by
    calc (l.zipIdx.map fun (a, i) => (g i, f a)).map Prod.fst
        = (l.zipIdx.map Prod.snd).map g := by simp only [List.map_map, Function.comp_def]
      _ = (List.range' 0 l.length).map g := by rw [List.zipIdx_map_snd]
  rw [slots, List.map_append, hfst, hfst]

/-- No two entries are at the same place. -/
theorem nodup_map_fst_slots (w : Workflow) : (w.slots.map Prod.fst).Nodup := by
  rw [map_fst_slots, List.nodup_append]
  refine ⟨?_, ?_, ?_⟩
  · exact List.Nodup.map (fun i j h => Slot.branch.inj h) (List.nodup_range' _)
  · exact List.Nodup.map (fun i j h => Slot.step.inj h) (List.nodup_range' _)
  · intro a ha b hb hab
    obtain ⟨i, -, rfl⟩ := List.mem_map.1 ha
    obtain ⟨j, -, rfl⟩ := List.mem_map.1 hb
    cases hab

theorem nodup_ids_slots_iff {w : Workflow} :
    (w.slots.map (·.2.id)).Nodup ↔ (w.entries.map Entry.id).Nodup := by
  rw [← ((map_snd_slots_perm w).map Entry.id).nodup_iff, List.map_map]
  rfl

theorem nodup_branch_ids {w : Workflow} (h : (w.entries.map Entry.id).Nodup) :
    (w.branches.map Branch.id).Nodup := by
  rw [entries, List.map_append, List.map_map, List.map_map] at h
  exact h.of_append_right

/-! ### Every flaw is one -/

theorem branch?_eq_none_iff {w : Workflow} {id : String} :
    w.branch? id = none ↔ ∀ b ∈ w.branches, b.id ≠ id := by
  simp [branch?]

theorem breaks_of_mem_conditionFlaws {w : Workflow} {slot : Slot} {e : Entry} {c : Condition}
    {flaw : Flaw} (he : w.entryAt? slot = some e) (hc : e.membership.Requires c)
    (h : flaw ∈ w.conditionFlaws slot e c) : w.Breaks flaw.error.field flaw.error.message := by
  rcases List.mem_append.1 h with h | h
  · split at h
    next hnone =>
      obtain rfl := List.mem_singleton.1 h
      rw [Option.isNone_iff_eq_none, branch?_eq_none_iff] at hnone
      exact .unknownBranch (names_field he) hc hnone
    next => cases h
  · cases e with
    | step s => cases h
    | branch b =>
      dsimp only at h
      split at h
      next hid =>
        obtain rfl := List.mem_singleton.1 h
        rw [← hid]
        exact .selfCondition (names_field he) hc hid.symm
      next => cases h

/-- A flaw of one entry is one, if the ids before it are those of entries at other places. -/
theorem breaks_of_mem_entryFlaws {w : Workflow} {earlier : List String} {slot : Slot} {e : Entry}
    {flaw : Flaw} (he : w.entryAt? slot = some e)
    (hearlier : ∀ id ∈ earlier, ∃ other e', other ≠ slot ∧ w.entryAt? other = some e' ∧ e'.id = id)
    (h : flaw ∈ w.entryFlaws earlier slot e) : w.Breaks flaw.error.field flaw.error.message := by
  simp only [entryFlaws, List.mem_append, List.mem_ite_nil_right, List.mem_singleton,
    List.mem_flatMap] at h
  rcases h with ((⟨hblank, rfl⟩ | ⟨hempty, rfl⟩) | ⟨hmem, rfl⟩) | ⟨c, hc, h⟩
  · exact .blankEntryName (names_field he) ((Text.trim_eq_empty_iff _).2 hblank)
  · exact .emptyId (names_field he) hempty
  · obtain ⟨other, e', hne, he', hid⟩ := hearlier _ hmem
    have hfield : other.field ≠ slot.field := fun h => hne (field_inj h)
    exact .duplicateId (names_field he) hfield (names_field he') hid
  · exact breaks_of_mem_conditionFlaws he (Membership.mem_conditions_iff.1 hc) h

/-- A flaw of a list of entries is a flaw of one of them, behind those that stand before it. -/
theorem exists_of_mem_slotFlaws {w : Workflow} {earlier : List String} {l : List (Slot × Entry)}
    {flaw : Flaw} (h : flaw ∈ w.slotFlaws earlier l) :
    ∃ before slot e after, l = before ++ (slot, e) :: after ∧
      flaw ∈ w.entryFlaws ((before.map (·.2.id)).reverse ++ earlier) slot e := by
  induction l generalizing earlier with
  | nil => cases h
  | cons x r ih =>
    obtain ⟨slot, e⟩ := x
    rcases List.mem_append.1 h with h | h
    · exact ⟨[], slot, e, r, rfl, h⟩
    · obtain ⟨before, slot', e', after, rfl, hf⟩ := ih h
      refine ⟨(slot, e) :: before, slot', e', after, rfl, ?_⟩
      simpa using hf

theorem breaks_of_mem_slotFlaws {w : Workflow} {flaw : Flaw}
    (h : flaw ∈ w.slotFlaws [] w.slots) : w.Breaks flaw.error.field flaw.error.message := by
  obtain ⟨before, slot, e, after, hslots, hf⟩ := exists_of_mem_slotFlaws h
  have hplaces := nodup_map_fst_slots w
  rw [hslots, List.map_append, List.map_cons, List.nodup_append] at hplaces
  refine breaks_of_mem_entryFlaws (mem_slots_iff.1 (by simp [hslots])) (fun id hid => ?_) hf
  obtain ⟨⟨other, e'⟩, hmem, rfl⟩ : ∃ x ∈ before, x.2.id = id := by simpa using hid
  refine ⟨other, e', ?_, mem_slots_iff.1 (by simp [hslots, hmem]), rfl⟩
  exact hplaces.2.2 other (List.mem_map.2 ⟨_, hmem, rfl⟩) slot List.mem_cons_self

theorem breaks_of_mem_circularFlaws {w : Workflow} {flaw : Flaw} (h : flaw ∈ w.circularFlaws) :
    w.Breaks flaw.error.field flaw.error.message := by
  obtain ⟨⟨b, i⟩, hmem, h⟩ := List.mem_filterMap.1 h
  rw [List.mk_mem_zipIdx_iff_getElem?] at hmem
  dsimp only at h
  split at h
  next hcirc =>
    cases h
    have hat : w.entryAt? (.branch i) = some (.branch b) := by rw [entryAt?, hmem, Option.map_some]
    exact .circular (names_field hat) (transGen_of_isCircular (List.mem_of_getElem? hmem) hcirc)
  next => cases h

/-- Every flaw of a workflow is one: the field breaks the rule that the message states. -/
theorem breaks_of_mem_flaws {w : Workflow} {flaw : Flaw} (h : flaw ∈ w.flaws) :
    w.Breaks flaw.error.field flaw.error.message := by
  rcases List.mem_append.1 h with h | h
  · rcases List.mem_append.1 h with h | h
    · rw [List.mem_ite_nil_right, List.mem_singleton] at h
      obtain ⟨hblank, rfl⟩ := h
      exact .blankName ((Text.trim_eq_empty_iff _).2 hblank)
    · exact breaks_of_mem_slotFlaws h
  · exact breaks_of_mem_circularFlaws h

/-! ### The check finds every flaw -/

/-- No field of a well-formed workflow breaks a rule. -/
theorem WellFormed.not_breaks {w : Workflow} (h : w.WellFormed) (field message : String) :
    ¬ w.Breaks field message := by
  intro hb
  cases hb with
  | blankName hblank => exact h.name_not_blank hblank
  | blankEntryName he hblank => exact h.names_not_blank _ he.mem_entries hblank
  | emptyId he hempty => exact h.ids_not_empty _ he.mem_entries hempty
  | duplicateId he hne he' hid =>
    obtain ⟨slot, rfl, hslot⟩ := he.exists_slot
    obtain ⟨other, rfl, hother⟩ := he'.exists_slot
    have hsame := List.inj_on_of_nodup_map (nodup_ids_slots_iff.2 h.ids_nodup)
      (mem_slots_iff.2 hother) (mem_slots_iff.2 hslot) hid
    exact hne (congrArg (fun x : Slot × Entry => x.1.field) hsame)
  | unknownBranch he hc hnone =>
    obtain ⟨b, hb, hid⟩ := h.conditions_known _ he.mem_entries _ hc
    exact hnone b hb hid
  | @selfCondition place b c he hc hid =>
    have hb : b ∈ w.branches := branch_mem_entries.1 he.mem_entries
    exact h.acyclic.not_transGen_self b (.single ⟨hb, hb, c, hc, hid⟩)
  | circular _ hcirc => exact h.acyclic.not_transGen_self _ hcirc

/-- Where the search finds no flaw in an entry, the entry has a name and an id, and its
conditions are on branch points of the workflow. -/
theorem of_entryFlaws_eq_nil {w : Workflow} {earlier : List String} {slot : Slot} {e : Entry}
    (h : w.entryFlaws earlier slot e = []) :
    Text.trim e.name ≠ "" ∧ e.id ≠ "" ∧ e.id ∉ earlier ∧
      ∀ c, e.membership.Requires c → ∃ b ∈ w.branches, b.id = c.branch := by
  simp only [entryFlaws, List.append_eq_nil_iff, ite_eq_right_iff, List.cons_ne_nil, imp_false,
    List.flatMap_eq_nil_iff] at h
  obtain ⟨⟨⟨hname, hid⟩, hmem⟩, hconds⟩ := h
  refine ⟨fun hblank => hname ((Text.trim_eq_empty_iff _).1 hblank), hid, hmem, fun c hc => ?_⟩
  have hunknown := (List.append_eq_nil_iff.1 (hconds c (Membership.mem_conditions_iff.2 hc))).1
  cases hfind : w.branch? c.branch with
  | none => simp [hfind] at hunknown
  | some b => exact ⟨b, mem_of_branch?_eq_some hfind⟩

/-- Where the search finds no flaw in a list of entries, it finds none in any of them, and their
ids are different from each other and from those before them. -/
theorem of_slotFlaws_eq_nil {w : Workflow} {earlier : List String} {l : List (Slot × Entry)}
    (h : w.slotFlaws earlier l = []) :
    (∀ x ∈ l, ∃ earlier', w.entryFlaws earlier' x.1 x.2 = []) ∧
      (l.map (·.2.id)).Nodup ∧ ∀ x ∈ l, x.2.id ∉ earlier := by
  induction l generalizing earlier with
  | nil => simp
  | cons x r ih =>
    obtain ⟨slot, e⟩ := x
    obtain ⟨he, hr⟩ := List.append_eq_nil_iff.1 h
    obtain ⟨hall, hnodup, hearlier⟩ := ih hr
    refine ⟨?_, ?_, ?_⟩
    · intro x hx
      rcases List.mem_cons.1 hx with rfl | hx
      · exact ⟨earlier, he⟩
      · exact hall x hx
    · refine List.nodup_cons.2 ⟨fun hid => ?_, hnodup⟩
      obtain ⟨x, hx, hxid⟩ := List.mem_map.1 hid
      exact hearlier x hx (hxid ▸ List.mem_cons_self)
    · intro x hx
      rcases List.mem_cons.1 hx with rfl | hx
      · exact (of_entryFlaws_eq_nil he).2.2.1
      · exact fun hmem => hearlier x hx (List.mem_cons_of_mem _ hmem)

theorem not_isCircular_of_circularFlaws_eq_nil {w : Workflow} (h : w.circularFlaws = []) :
    ∀ b ∈ w.branches, w.isCircular b = false := by
  intro b hb
  obtain ⟨i, hi⟩ := List.mem_iff_getElem?.1 hb
  have := List.filterMap_eq_nil_iff.1 h (b, i) (List.mk_mem_zipIdx_iff_getElem?.2 hi)
  simpa using this

/-- A workflow without flaws is well-formed. -/
theorem wellFormed_of_flaws_eq_nil {w : Workflow} (h : w.flaws = []) : w.WellFormed := by
  obtain ⟨h, hcirc⟩ := List.append_eq_nil_iff.1 h
  obtain ⟨hname, hslots⟩ := List.append_eq_nil_iff.1 h
  obtain ⟨hentries, hnodup, -⟩ := of_slotFlaws_eq_nil hslots
  have hids : (w.entries.map Entry.id).Nodup := nodup_ids_slots_iff.1 hnodup
  have hsound : ∀ e ∈ w.entries, Text.trim e.name ≠ "" ∧ e.id ≠ "" ∧
      ∀ c, e.membership.Requires c → ∃ b ∈ w.branches, b.id = c.branch := by
    intro e he
    obtain ⟨x, hx, rfl⟩ := List.mem_map.1 ((map_snd_slots_perm w).mem_iff.2 he)
    obtain ⟨earlier, hflaws⟩ := hentries x hx
    obtain ⟨h1, h2, -, h3⟩ := of_entryFlaws_eq_nil hflaws
    exact ⟨h1, h2, h3⟩
  exact {
    name_not_blank := fun hblank => by simp [(Text.trim_eq_empty_iff _).1 hblank] at hname
    names_not_blank := fun e he => (hsound e he).1
    ids_not_empty := fun e he => (hsound e he).2.1
    ids_nodup := hids
    conditions_known := fun e he => (hsound e he).2.2
    acyclic := acyclic_of_not_isCircular (nodup_branch_ids hids)
      (not_isCircular_of_circularFlaws_eq_nil hcirc) }

/-! ### Consequences of being well-formed -/

theorem WellFormed.branch_ids_nodup {w : Workflow} (h : w.WellFormed) :
    (w.branches.map Branch.id).Nodup :=
  nodup_branch_ids h.ids_nodup

/-- An entry of a well-formed workflow is known by its id. -/
theorem WellFormed.entry_eq_of_id_eq {w : Workflow} (h : w.WellFormed) {e e' : Entry}
    (he : e ∈ w.entries) (he' : e' ∈ w.entries) (hid : e.id = e'.id) : e = e' :=
  List.inj_on_of_nodup_map h.ids_nodup he he' hid

/-- A branch point of a well-formed workflow is known by its id. -/
theorem WellFormed.branch_eq_of_id_eq {w : Workflow} (h : w.WellFormed) {b b' : Branch}
    (hb : b ∈ w.branches) (hb' : b' ∈ w.branches) (hid : b.id = b'.id) : b = b' :=
  List.inj_on_of_nodup_map h.branch_ids_nodup hb hb' hid

/-! ### The check -/

theorem check_eq_ok_iff_flaws_eq_nil {w : Workflow} : w.check = .ok () ↔ w.flaws = [] := by
  rw [check]
  split
  next h => simp [h]
  next flaw rest h => simp [h]

theorem mem_flaws_of_check_eq_error {w : Workflow} {flaw : Flaw} (h : w.check = .error flaw) :
    flaw ∈ w.flaws := by
  rw [check] at h
  split at h
  next => cases h
  next first rest hflaws =>
    cases h
    rw [hflaws]
    exact List.mem_cons_self

theorem wellFormed_of_check {w : Workflow} (h : w.check = .ok ()) : w.WellFormed :=
  wellFormed_of_flaws_eq_nil (check_eq_ok_iff_flaws_eq_nil.1 h)

theorem WellFormed.check_eq_ok {w : Workflow} (h : w.WellFormed) : w.check = .ok () := by
  rw [check_eq_ok_iff_flaws_eq_nil, List.eq_nil_iff_forall_not_mem]
  exact fun flaw hmem => h.not_breaks _ _ (breaks_of_mem_flaws hmem)

/-- **The check of a workflow is exact**: it accepts the well-formed workflows and no others, and
where it reports an error, the field that it names breaks the rule that the message states. -/
theorem check_exact (w : Workflow) :
    (w.check = .ok () ↔ w.WellFormed) ∧
      ∀ flaw, w.check = .error flaw → w.Breaks flaw.error.field flaw.error.message := by
  refine ⟨⟨wellFormed_of_check, WellFormed.check_eq_ok⟩, fun flaw h => ?_⟩
  exact breaks_of_mem_flaws (mem_flaws_of_check_eq_error h)

/-- Three decisions, each under the next one, and the last one under the first. -/
def circle : Workflow where
  name := "Circle"
  steps := []
  branches := [
    ⟨.decision, "First", "d0", 1, .known [⟨"d1", true⟩]⟩,
    ⟨.decision, "Second", "d1", 2, .known [⟨"d2", true⟩]⟩,
    ⟨.decision, "Third", "d2", 3, .known [⟨"d0", true⟩]⟩]

/-- Two steps that share an id. -/
def sharedId : Workflow where
  name := "SharedId"
  steps := [⟨.activity, "Pack", "1", 1, .always⟩, ⟨.activity, "Send", "1", 2, .always⟩]
  branches := []

theorem check_exact_circle :
    circle.check = .error (.circular 0 "d0") ∧ ¬ circle.WellFormed ∧
      circle.Breaks "branch_points[0].membership" "branch point 'd0' depends on itself" ∧
      sharedId.check = .error (.duplicateId (.step 1) "1") ∧
      sharedId.Breaks "steps[1].node_id" "duplicate node id '1'" := by
  have h : circle.check = .error (.circular 0 "d0") := by decide +kernel
  have hshared : sharedId.check = .error (.duplicateId (.step 1) "1") := by decide +kernel
  refine ⟨h, fun hw => ?_, (check_exact circle).2 _ h, hshared, (check_exact sharedId).2 _ hshared⟩
  rw [(check_exact circle).1.2 hw] at h
  cases h

end WorkflowPaths.Workflow
