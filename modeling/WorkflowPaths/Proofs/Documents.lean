import WorkflowPaths.Options.Document
import WorkflowPaths.Proofs.Json.RoundTrip
import WorkflowPaths.Workflow.Basic

/-!
# Documents are read back

Workflows and options are written as JSON values and decoded again. For each type of the library
that stands in a document, decoding undoes writing, whatever the value is: nothing here asks for a
valid workflow or valid options (`RoundTrips`). What is written is plain, so it also survives being
written as a text (`RoundTrips.read?_compact`, `RoundTrips.read?_pretty`).

Steps and branch points are tagged records. They are read as a whole before their tag is looked at,
which limits how deep their parts may nest; what is written never comes near that limit
(`Membership.depth_toJson`).
-/

namespace WorkflowPaths

namespace Json

variable {α : Type} {toJson : α → Json} {ofJson? : Json → Option α}

/-- What is written is plain, and decoding undoes writing. -/
def RoundTrips (toJson : α → Json) (ofJson? : Json → Option α) : Prop :=
  ∀ a, (toJson a).IsPlain ∧ ofJson? (toJson a) = some a

/-! ### Texts and lists -/

theorem RoundTrips.read?_compact (h : RoundTrips toJson ofJson?) (a : α) :
    (read? (toJson a).compact).bind ofJson? = some a := by
  obtain ⟨hplain, hread⟩ := h a
  rw [hplain.read?_compact, Option.bind_some, hread]

theorem RoundTrips.read?_pretty (h : RoundTrips toJson ofJson?) (a : α) :
    (read? (toJson a).pretty).bind ofJson? = some a := by
  obtain ⟨hplain, hread⟩ := h a
  rw [hplain.read?_pretty, Option.bind_some, hread]

/-- A list that is written item by item is read item by item. -/
theorem list?_map {β : Type} {form : Json → Option β} {view : α → β}
    (h : ∀ a, form (toJson a) = some (view a)) (l : List α) :
    list? form (.array (l.map toJson)) = some (l.map view) := by
  induction l with
  | nil => rfl
  | cons a r ih =>
    simp only [list?, List.map_cons, List.mapM_cons, h a] at ih ⊢
    simp [ih]

theorem IsPlain.array_map (h : ∀ a, (toJson a).IsPlain) (l : List α) :
    (Json.array (l.map toJson)).IsPlain := by
  refine .array fun v hv => ?_
  obtain ⟨a, -, rfl⟩ := List.mem_map.1 hv
  exact h a

theorem RoundTrips.list (h : RoundTrips toJson ofJson?) :
    RoundTrips (fun l => .array (l.map toJson)) (list? ofJson?) := by
  intro l
  constructor
  · exact .array_map (fun a => (h a).1) l
  · rw [list?_map (fun a => (h a).2), List.map_id']

/-! ### Numbers and labels -/

@[simp] theorem uint32?_toNat (n : UInt32) : uint32? (.nat n.toNat) = some n := by
  simp [uint32?, natBelow?, n.toNat_lt_size]

@[simp] theorem uint64?_toNat (n : UInt64) : uint64? (.nat n.toNat) = some n := by
  simp [uint64?, natBelow?, n.toNat_lt_size]

@[simp] theorem string?_string (s : String) : string? (.string s) = some s := rfl

@[simp] theorem bool?_bool (b : Bool) : bool? (.bool b) = some b := rfl

theorem isPlain_line (n : UInt32) : IsPlain (.nat n.toNat) :=
  .nat (Nat.lt_trans n.toNat_lt_size (by decide))

end Json

open Json

@[simp] theorem Branch.nullable?_labelJson (label : Option String) :
    nullable? string? (labelJson label) = some label := by
  cases label <;> rfl

theorem Branch.isPlain_labelJson (label : Option String) : (labelJson label).IsPlain := by
  cases label with
  | none => exact .null
  | some s => exact .string s

@[simp] theorem Options.nullable?_limitJson (limit : Option UInt64) :
    nullable? uint64? (limitJson limit) = some limit := by
  cases limit with
  | none => rfl
  | some n => simp [limitJson, nullable?]

theorem Options.isPlain_limitJson (limit : Option UInt64) : (limitJson limit).IsPlain := by
  cases limit with
  | none => exact .null
  | some n => exact .nat n.toNat_lt_size

/-! ### Memberships and targets -/

theorem Condition.roundTrips : RoundTrips Condition.toJson Condition.ofJson? := by
  intro c
  constructor
  · refine .object ?_
    simp [IsPlain.string, IsPlain.bool]
  · rfl

theorem Membership.roundTrips (how : NoContents) :
    RoundTrips Membership.toJson (Membership.ofJson? how) := by
  intro m
  cases m with
  | unknown => exact ⟨.string _, rfl⟩
  | known cs =>
    obtain ⟨hplain, hread⟩ := Condition.roundTrips.list cs
    constructor
    · refine .object ?_
      simpa using hplain
    · simp [Membership.toJson, Membership.ofJson?, variant?, hread]

theorem Target.roundTrips (how : NoContents) : RoundTrips Target.toJson (Target.ofJson? how) := by
  intro t
  cases t with
  | dynamic => exact ⟨.string _, rfl⟩
  | exact id =>
    constructor
    · refine .object ?_
      simp [IsPlain.string]
    · rfl
  | wildcard pattern =>
    constructor
    · refine .object ?_
      simp [IsPlain.string]
    · rfl

/-! ### Tagged records -/

theorem Json.IsPlain.isUsable {v : Json} (h : v.IsPlain) : v.isUsable = true := by
  induction h with
  | null | bool | nat | string => rfl
  | @array items _ ih =>
    show itemsUsable items = true
    induction items with
    | nil => rfl
    | cons v r ihr => simp_all [itemsUsable]
  | @object members _ ih =>
    show membersUsable members = true
    induction members with
    | nil => rfl
    | cons m r ihr => simp_all [membersUsable]

theorem Json.membersDepth_le {n : Nat} {members : List (String × Json)}
    (h : ∀ m ∈ members, m.2.depth ≤ n) : membersDepth members ≤ n := by
  induction members with
  | nil => exact Nat.zero_le n
  | cons m r ih =>
    rw [membersDepth]
    exact Nat.max_le.2 ⟨h m List.mem_cons_self, ih fun m' hm' => h m' (List.mem_cons_of_mem m hm')⟩

/-- A tag in front of plain members that do not nest deep: the record is plain again, and splits
into the tag and the members. -/
theorem Json.tagged?_cons {tag : String} {level : Nat} (hlevel : level + 4 ≤ maxDepth)
    (name : String) {members : List (String × Json)}
    (h : ∀ m ∈ members, m.1 ≠ tag ∧ m.2.IsPlain ∧ m.2.depth ≤ 3) :
    (Json.object ((tag, .string name) :: members)).IsPlain ∧
      (Json.object ((tag, .string name) :: members)).tagged? tag level =
        some (name, .object members) := by
  have hplain : (Json.object ((tag, .string name) :: members)).IsPlain := by
    refine .object fun m hm => ?_
    rcases List.mem_cons.1 hm with rfl | hm
    · exact .string name
    · exact (h m hm).2.1
  have hdepth : (Json.object ((tag, .string name) :: members)).depth ≤ 4 := by
    have := membersDepth_le fun m hm => (h m hm).2.2
    simp only [depth, membersDepth]
    omega
  have hnone : members.filter (·.1 == tag) = [] := by
    simpa [List.filter_eq_nil_iff] using fun m hm => (h m hm).1
  have hall : members.filter (·.1 != tag) = members := by
    simpa [List.filter_eq_self] using fun m hm => (h m hm).1
  refine ⟨hplain, ?_⟩
  rw [tagged?, hplain.isUsable, if_neg (by simp; omega)]
  simp [hnone, hall]

theorem Condition.itemsDepth_toJson (cs : List Condition) :
    itemsDepth (cs.map Condition.toJson) ≤ 1 := by
  induction cs with
  | nil => exact Nat.zero_le 1
  | cons c r ih =>
    rw [List.map_cons, itemsDepth]
    exact Nat.max_le.2 ⟨Nat.le_refl 1, ih⟩

theorem Membership.depth_toJson (m : Membership) : m.toJson.depth ≤ 3 := by
  cases m with
  | unknown => exact Nat.zero_le 3
  | known cs =>
    have := Condition.itemsDepth_toJson cs
    simp only [Membership.toJson, depth, membersDepth]
    omega

theorem Target.depth_toJson (t : Target) : t.toJson.depth ≤ 3 := by
  cases t <;> simp [Target.toJson, depth, membersDepth]

theorem Branch.depth_labelJson (label : Option String) : (labelJson label).depth ≤ 3 := by
  cases label <;> exact Nat.zero_le 3

/-- The members that the entries without further contents have, their name under the given key. -/
theorem Membership.forall_members (m : Membership) {key : String} (hkey : key ≠ "kind")
    (name id : String) (line : UInt32) :
    ∀ e ∈ [(key, .string name), ("node_id", .string id), ("line", .nat line.toNat),
      ("membership", m.toJson)], e.1 ≠ "kind" ∧ e.2.IsPlain ∧ e.2.depth ≤ 3 := by
  have hplain := (Membership.roundTrips .nullOrEmpty m).1
  simp [hkey, IsPlain.string, isPlain_line, hplain, m.depth_toJson, depth]

theorem Step.roundTrips : RoundTrips Step.toJson Step.ofJson? := by
  intro s
  obtain ⟨action, name, id, line, membership⟩ := s
  obtain ⟨hplain, hread⟩ := Membership.roundTrips .nullOrEmpty membership
  have hdepth := membership.depth_toJson
  cases action with
  | activity =>
    have hmembers := membership.forall_members (by decide : "name" ≠ "kind") name id line
    obtain ⟨hrecord, htag⟩ := tagged?_cons (by decide : 2 + 4 ≤ maxDepth) "activity" hmembers
    refine ⟨hrecord, ?_⟩
    simp only [Step.toJson, Step.ofJson?, Step.kind, Action.kind, NodeKind.tag, htag, fields?,
      Fields.required, Fields.withDefault, Membership.field?]
    simp [hread]
  | childWorkflow =>
    have hmembers := membership.forall_members (by decide : "workflow_name" ≠ "kind") name id line
    obtain ⟨hrecord, htag⟩ := tagged?_cons (by decide : 2 + 4 ≤ maxDepth) "child_workflow" hmembers
    refine ⟨hrecord, ?_⟩
    simp only [Step.toJson, Step.ofJson?, Step.kind, Action.kind, NodeKind.tag, htag, fields?,
      Fields.required, Fields.withDefault, Membership.field?]
    simp [hread]
  | externalSignal target =>
    obtain ⟨htarget, hreads⟩ := Target.roundTrips .nullOrEmpty target
    have hmembers : ∀ m ∈ [("signal_name", .string name), ("target", target.toJson),
        ("node_id", .string id), ("line", .nat line.toNat), ("membership", membership.toJson)],
        m.1 ≠ "kind" ∧ m.2.IsPlain ∧ m.2.depth ≤ 3 := by
      simp [IsPlain.string, isPlain_line, hplain, hdepth, depth, htarget, target.depth_toJson]
    obtain ⟨hrecord, htag⟩ := tagged?_cons (by decide : 2 + 4 ≤ maxDepth) "external_signal" hmembers
    refine ⟨hrecord, ?_⟩
    simp only [Step.toJson, Step.ofJson?, Step.kind, Action.kind, NodeKind.tag, htag, fields?,
      Fields.required, Fields.withDefault, Membership.field?]
    simp [hread, hreads]

theorem Branch.roundTrips : RoundTrips Branch.toJson Branch.ofJson? := by
  intro b
  obtain ⟨test, name, id, line, membership⟩ := b
  obtain ⟨hplain, hread⟩ := Membership.roundTrips .nullOrEmpty membership
  have hdepth := membership.depth_toJson
  cases test with
  | decision =>
    have hmembers := membership.forall_members (by decide : "name" ≠ "kind") name id line
    obtain ⟨hrecord, htag⟩ := tagged?_cons (by decide : 2 + 4 ≤ maxDepth) "decision" hmembers
    refine ⟨hrecord, ?_⟩
    simp only [Branch.toJson, Branch.ofJson?, Branch.kind, NodeKind.tag, List.cons_append,
      List.nil_append, htag, fields?, Fields.required, Fields.withDefault, Membership.field?]
    simp [hread]
  | signalWait condition timeout trueLabel falseLabel =>
    have hmembers : ∀ m ∈ [("name", .string name), ("node_id", .string id),
        ("line", .nat line.toNat), ("condition_expr", .string condition),
        ("timeout_expr", .string timeout), ("true_label", labelJson trueLabel),
        ("false_label", labelJson falseLabel), ("membership", membership.toJson)],
        m.1 ≠ "kind" ∧ m.2.IsPlain ∧ m.2.depth ≤ 3 := by
      simp [IsPlain.string, isPlain_line, isPlain_labelJson, hplain, hdepth, depth,
        depth_labelJson]
    obtain ⟨hrecord, htag⟩ := tagged?_cons (by decide : 2 + 4 ≤ maxDepth) "signal_wait" hmembers
    refine ⟨hrecord, ?_⟩
    simp only [Branch.toJson, Branch.ofJson?, Branch.kind, NodeKind.tag, List.cons_append,
      List.nil_append, htag, fields?, Fields.required, Fields.optional, Fields.withDefault,
      Membership.field?]
    simp [hread]

/-! ### Whole documents -/

theorem Workflow.roundTrips : RoundTrips Workflow.toJson Workflow.ofJson? := by
  intro w
  obtain ⟨hsteps, hreadSteps⟩ := Step.roundTrips.list w.steps
  obtain ⟨hbranches, hreadBranches⟩ := Branch.roundTrips.list w.branches
  constructor
  · refine .object ?_
    simp [IsPlain.string, hsteps, hbranches]
  · simp [Workflow.toJson, Workflow.ofJson?, fields?, Fields.required, hreadSteps, hreadBranches]

theorem Options.roundTrips : RoundTrips Options.toJson Options.ofJson? := by
  intro o
  have hlabels : named? SignalLabels.ofName? (.string o.signalLabels.name) =
      some o.signalLabels := by
    cases o.signalLabels <;> rfl
  have hformat : named? Format.ofName? (.string o.format.name) = some o.format := by
    cases o.format <;> rfl
  constructor
  · refine .object ?_
    simp [IsPlain.string, IsPlain.bool, IsPlain.nat, UInt64.toNat_lt_size, isPlain_limitJson]
  · show (do
      let maxDecisionPoints ← uint64? (.nat o.maxDecisionPoints.toNat)
      let maxPaths ← nullable? uint64? (limitJson o.maxPaths)
      let signalLabels ← named? SignalLabels.ofName? (.string o.signalLabels.name)
      let format ← named? Format.ofName? (.string o.format.name)
      return { o with maxDecisionPoints, maxPaths, signalLabels, format }) = some o
    rw [uint64?_toNat, nullable?_limitJson, hlabels, hformat]
    rfl

/-- A workflow and options that are written to a document, on one line or over many, are read back
from it with every field. -/
theorem written_documents_read_back :
    (∀ w : Workflow, (Json.read? w.toJson.compact).bind Workflow.ofJson? = some w ∧
        (Json.read? w.toJson.pretty).bind Workflow.ofJson? = some w) ∧
      ∀ o : Options, (Json.read? o.toJson.compact).bind Options.ofJson? = some o ∧
        (Json.read? o.toJson.pretty).bind Options.ofJson? = some o := by
  constructor
  · intro w
    exact ⟨Workflow.roundTrips.read?_compact w, Workflow.roundTrips.read?_pretty w⟩
  · intro o
    exact ⟨Options.roundTrips.read?_compact o, Options.roundTrips.read?_pretty o⟩

end WorkflowPaths
