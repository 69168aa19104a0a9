import Mathlib.Data.List.Forall2
import WorkflowPaths.NodeId
import WorkflowPaths.Proofs.Text.Blank
import WorkflowPaths.Proofs.Text.UpperCase
import WorkflowPaths.Text.Decimal

/-!
# What ids tell about the nodes they belong to

The ids of the start and the end are single letters, activities have digits only, and all other ids
begin with letters of their own. So nodes with the same id are of the same kind
(`NodeSeed.kind_eq_of_id_eq`), and no call takes the id of the start or the end.

Within a kind, the id of a numbered node tells its number, and the id of a node that goes by name
and line tells the line and the name as far as ids show it (`NodeSeed.callId_inj`): the line stands
behind the last underscore. How names are shown is said character by character (`ShownAs`,
`NameShownAs`), and two nodes have one id exactly when they are alike in what ids show
(`NodeSeed.ids_exact`).
-/

namespace WorkflowPaths

/-- The kind of the node that has an id with the given characters. -/
def NodeKind.ofIdChars : List Char → NodeKind
  | ['s'] => .start
  | ['e'] => .finish
  | 'd' :: _ => .decision
  | 's' :: _ => .signalWait
  | 'c' :: _ => .childWorkflow
  | 'e' :: _ => .externalSignal
  | _ => .activity

/-- Only activities have ids that begin with a digit. -/
theorem NodeKind.ofIdChars_of_isDigit {c : Char} {cs : List Char} (hc : c.isDigit = true) :
    ofIdChars (c :: cs) = .activity := by
  have hne (letter : Char) (hletter : letter.isDigit = false) : c ≠ letter := by
    rintro rfl
    rw [hc] at hletter
    cases hletter
  have hs := hne 's' (by decide)
  have he := hne 'e' (by decide)
  have hd := hne 'd' (by decide)
  have hchild := hne 'c' (by decide)
  simp [ofIdChars, hs, he, hd, hchild]

namespace NodeSeed

/-- The kind of a node can be read off its id. -/
theorem ofIdChars_id (seed : NodeSeed) : NodeKind.ofIdChars seed.id.toList = seed.kind := by
  cases seed with
  | start => decide +kernel
  | finish => decide +kernel
  | activity n =>
    have hdigits (c : Char) (hc : c ∈ Nat.toDigits 10 n) : c.isDigit = true :=
      Nat.isDigit_of_mem_toDigits (by decide) (by decide) hc
    rw [id, kind, Nat.toString_eq_ofList_toDigits, String.toList_ofList]
    cases h : Nat.toDigits 10 n with
    | nil => rfl
    | cons c cs => exact NodeKind.ofIdChars_of_isDigit (hdigits c (by simp [h]))
  | decision n => simp [id, kind, NodeKind.ofIdChars]
  | signalWait name line => simp [id, kind, callId, NodeKind.ofIdChars]
  | childWorkflow name line => simp [id, kind, callId, NodeKind.ofIdChars]
  | externalSignal name line => simp [id, kind, callId, NodeKind.ofIdChars]

/-- Nodes of different kinds have different ids. -/
theorem kind_eq_of_id_eq {a b : NodeSeed} (h : a.id = b.id) : a.kind = b.kind := by
  rw [← ofIdChars_id a, ← ofIdChars_id b, h]

theorem activity_id_inj {m n : Nat} : (activity m).id = (activity n).id ↔ m = n := by
  rw [id, id, Nat.toString_eq_ofList_toDigits, Nat.toString_eq_ofList_toDigits, String.ofList_inj,
    Text.toDigits_inj]

theorem decision_id_inj {m n : Nat} : (decision m).id = (decision n).id ↔ m = n := by
  rw [id, id, String.append_right_inj]
  exact activity_id_inj

theorem callId_inj {label name name' : String} {line line' : UInt32} :
    callId label name line = callId label name' line' ↔
      line = line' ∧ idName name = idName name' := by
  have hunderscore (n : Nat) : '_' ∉ Nat.toDigits 10 n := Text.notMem_toDigits (by decide) n
  have hchars (name : String) (line : UInt32) : (callId label name line).toList =
      ((label ++ "_").toList ++ (idName name).toList) ++ '_' :: Nat.toDigits 10 line.toNat := by
    simp [callId]
  rw [← String.toList_inj, hchars, hchars,
    Text.separated_inj (hunderscore _) (hunderscore _), List.append_cancel_left_eq,
    String.toList_inj, Text.toDigits_inj, UInt32.toNat_inj, and_comm]

theorem id_ne_empty (seed : NodeSeed) : seed.id ≠ "" := by
  intro h
  have hchars : seed.id.toList = [] := by rw [h]; rfl
  cases seed with
  | activity n =>
    rw [id, Nat.toString_eq_ofList_toDigits, String.toList_ofList] at hchars
    exact Nat.toDigits_ne_nil hchars
  | _ => simp [id, callId, startId, finishId] at hchars

end NodeSeed

/-- What the id of a node is made from, if nodes of the kind go by name and line. -/
def NodeKind.seed? : NodeKind → String → UInt32 → Option NodeSeed
  | .signalWait, name, line => some (.signalWait name line)
  | .childWorkflow, name, line => some (.childWorkflow name line)
  | .externalSignal, name, line => some (.externalSignal name line)
  | .start, _, _ | .finish, _, _ | .activity, _, _ | .decision, _, _ => none

theorem NodeKind.kind_of_seed? {kind : NodeKind} {name : String} {line : UInt32} {seed : NodeSeed}
    (h : kind.seed? name line = some seed) : seed.kind = kind := by
  cases kind <;> cases h <;> rfl

/-- Nodes of one kind that go by name and line have the same id when they are on one line and their
names look the same in an id. -/
theorem NodeKind.id_eq_id_iff {kind : NodeKind} {name name' : String} {line line' : UInt32}
    {seed seed' : NodeSeed} (h : kind.seed? name line = some seed)
    (h' : kind.seed? name' line' = some seed') :
    seed.id = seed'.id ↔ line = line' ∧ idName name = idName name' := by
  cases kind <;> cases h <;> cases h' <;> exact NodeSeed.callId_inj

/-! ### What ids are made of -/

/-- The characters that ids are made of. -/
def IsIdChar (c : Char) : Prop :=
  c.isLower = true ∨ c.isDigit = true ∨ c = '_'

instance : DecidablePred IsIdChar := fun _ => inferInstanceAs (Decidable (_ ∨ _ ∨ _))

/-- The text is made of characters of ids, and is not empty. -/
def IsId (s : String) : Prop :=
  s ≠ "" ∧ ∀ c ∈ s.toList, IsIdChar c

/-- How a character of a name is shown in an id: ASCII letters in lower case, ASCII digits as they
are, and all else as underscores. -/
inductive ShownAs : Char → Char → Prop where
  /-- A letter in upper case. -/
  | upper {c x : Char} : c.isUpper = true → x.toNat = c.toNat + 32 → ShownAs c x
  /-- A letter in lower case. -/
  | lower {c : Char} : c.isLower = true → ShownAs c c
  /-- A digit. -/
  | digit {c : Char} : c.isDigit = true → ShownAs c c
  /-- Any other character. -/
  | other {c : Char} : c.isAlphanum = false → ShownAs c '_'

theorem isAlphanum_eq (c : Char) : c.isAlphanum = (c.isUpper || c.isLower || c.isDigit) := rfl

theorem toNat_toLower {c : Char} (h : c.isUpper = true) : c.toLower.toNat = c.toNat + 32 := by
  have hval : c.toLower.val = c.val + 32 := congrArg Char.val (dif_pos (of_decide_eq_true h))
  have hle : c.toNat ≤ 90 := (isUpper_iff_toNat.1 h).2
  calc c.toLower.toNat = (c.val + 32).toNat := congrArg UInt32.toNat hval
    _ = c.toNat + 32 := by
      rw [UInt32.toNat_add]
      exact Nat.mod_eq_of_lt (Nat.lt_of_le_of_lt (Nat.add_le_add_right hle 32) (by decide))

theorem toLower_eq_self {c : Char} (h : c.isUpper = false) : c.toLower = c :=
  dif_neg (of_decide_eq_false h)

theorem isUpper_eq_false_of_isDigit {c : Char} (h : c.isDigit = true) : c.isUpper = false := by
  rw [← Bool.not_eq_true, isUpper_iff_toNat]
  have : c.toNat ≤ 57 := (Char.isDigit_iff_toNat.1 h).2
  omega

theorem ShownAs.idChar_eq {c x : Char} (h : ShownAs c x) : idChar c = x := by
  cases h with
  | upper hc hx =>
    rw [idChar, if_pos (by simp [isAlphanum_eq, hc])]
    exact Char.toNat_inj.1 ((toNat_toLower hc).trans hx.symm)
  | lower hc =>
    rw [idChar, if_pos (by simp [isAlphanum_eq, hc])]
    exact toLower_eq_self (isUpper_eq_false_of_isLower hc)
  | digit hc =>
    rw [idChar, if_pos (by simp [isAlphanum_eq, hc])]
    exact toLower_eq_self (isUpper_eq_false_of_isDigit hc)
  | other hc => simp [idChar, hc]

theorem shownAs_idChar (c : Char) : ShownAs c (idChar c) := by
  cases hupper : c.isUpper with
  | true =>
    have hidChar : idChar c = c.toLower := by
      simp [idChar, isAlphanum_eq, hupper]
    exact .upper hupper (by rw [hidChar, toNat_toLower hupper])
  | false =>
    have hidChar : idChar c = if c.isLower || c.isDigit then c else '_' := by
      simp [idChar, isAlphanum_eq, hupper, toLower_eq_self hupper]
    rw [hidChar]
    split
    next h =>
      rcases Bool.or_eq_true_iff.1 h with hlower | hdigit
      · exact .lower hlower
      · exact .digit hdigit
    next h => exact .other (by simpa [isAlphanum_eq, hupper] using h)

/-- The character that stands for another one in ids is the one that it is shown as. -/
theorem shownAs_iff {c x : Char} : ShownAs c x ↔ idChar c = x := by
  constructor
  · exact ShownAs.idChar_eq
  · rintro rfl
    exact shownAs_idChar c

theorem ShownAs.isIdChar {c x : Char} (h : ShownAs c x) : IsIdChar x := by
  cases h with
  | upper hc hx =>
    have := isUpper_iff_toNat.1 hc
    exact .inl (isLower_iff_toNat.2 (by omega))
  | lower hc => exact .inl hc
  | digit hc => exact .inr (.inl hc)
  | other => exact .inr (.inr rfl)

/-- The name is shown as `shown` in ids: without the blanks at its ends, character by character. -/
def NameShownAs (name shown : String) : Prop :=
  ∃ core, Text.IsCore name.toList core ∧ List.Forall₂ ShownAs core shown.toList

/-- The names are shown as the same text in ids. -/
def LookAlike (name name' : String) : Prop :=
  ∃ shown, NameShownAs name shown ∧ NameShownAs name' shown

theorem nameShownAs_iff {name shown : String} : NameShownAs name shown ↔ idName name = shown := by
  have hshown : ShownAs = fun c x => idChar c = x := by
    ext c x
    exact shownAs_iff
  have hall (core : List Char) :
      List.Forall₂ ShownAs core shown.toList ↔ core.map idChar = shown.toList := by
    rw [hshown, ← List.forall₂_map_left_iff (R := Eq), List.forall₂_eq_eq_eq]
  simp only [NameShownAs, Text.isCore_iff, exists_eq_left', hall]
  rw [idName, ← String.toList_inj, String.toList_ofList]

theorem lookAlike_iff {name name' : String} :
    LookAlike name name' ↔ idName name = idName name' := by
  simp [LookAlike, nameShownAs_iff, eq_comm]

namespace NodeSeed

/-- The nodes are of one kind, and cannot be told apart by what goes into their ids: the number of
an activity or decision, the line and the looks of the name of another call. -/
inductive Alike : NodeSeed → NodeSeed → Prop where
  /-- There is one start. -/
  | start : Alike .start .start
  /-- There is one end. -/
  | finish : Alike .finish .finish
  /-- Activities have numbers. -/
  | activity (ordinal : Nat) : Alike (.activity ordinal) (.activity ordinal)
  /-- Decisions have numbers of their own. -/
  | decision (ordinal : Nat) : Alike (.decision ordinal) (.decision ordinal)
  /-- Waits go by name and line. -/
  | signalWait {name name' : String} (line : UInt32) : LookAlike name name' →
      Alike (.signalWait name line) (.signalWait name' line)
  /-- Calls of other workflows go by name and line. -/
  | childWorkflow {name name' : String} (line : UInt32) : LookAlike name name' →
      Alike (.childWorkflow name line) (.childWorkflow name' line)
  /-- Signals that are sent go by name and line. -/
  | externalSignal {name name' : String} (line : UInt32) : LookAlike name name' →
      Alike (.externalSignal name line) (.externalSignal name' line)

theorem Alike.id_eq {a b : NodeSeed} (h : a.Alike b) : a.id = b.id := by
  cases h with
  | signalWait line hname => exact callId_inj.2 ⟨rfl, lookAlike_iff.1 hname⟩
  | childWorkflow line hname => exact callId_inj.2 ⟨rfl, lookAlike_iff.1 hname⟩
  | externalSignal line hname => exact callId_inj.2 ⟨rfl, lookAlike_iff.1 hname⟩
  | _ => rfl

theorem alike_of_id_eq {a b : NodeSeed} (h : a.id = b.id) : a.Alike b := by
  have hkind := kind_eq_of_id_eq h
  cases a <;> cases b <;> try cases hkind
  case start.start => exact .start
  case finish.finish => exact .finish
  case activity.activity m n => exact activity_id_inj.1 h ▸ .activity m
  case decision.decision m n => exact decision_id_inj.1 h ▸ .decision m
  case signalWait.signalWait name line name' line' =>
    obtain ⟨rfl, hname⟩ := callId_inj.1 h
    exact .signalWait line (lookAlike_iff.2 hname)
  case childWorkflow.childWorkflow name line name' line' =>
    obtain ⟨rfl, hname⟩ := callId_inj.1 h
    exact .childWorkflow line (lookAlike_iff.2 hname)
  case externalSignal.externalSignal name line name' line' =>
    obtain ⟨rfl, hname⟩ := callId_inj.1 h
    exact .externalSignal line (lookAlike_iff.2 hname)

theorem isIdChar_of_mem_toString {n : Nat} {c : Char} (h : c ∈ (toString n).toList) :
    IsIdChar c := by
  rw [Nat.toString_eq_ofList_toDigits, String.toList_ofList] at h
  exact .inr (.inl (Nat.isDigit_of_mem_toDigits (by decide) (by decide) h))

theorem isIdChar_of_mem_idName {name : String} {c : Char} (h : c ∈ (idName name).toList) :
    IsIdChar c := by
  rw [idName, String.toList_ofList] at h
  obtain ⟨x, -, rfl⟩ := List.mem_map.1 h
  exact (shownAs_idChar x).isIdChar

theorem isIdChar_of_mem_callId {label name : String} {line : UInt32}
    (hlabel : ∀ c ∈ label.toList, IsIdChar c) :
    ∀ c ∈ (callId label name line).toList, IsIdChar c := by
  intro c hc
  simp only [callId, String.toList_append, List.mem_append] at hc
  have hunderscore (h : c ∈ "_".toList) : IsIdChar c := .inr (.inr (by simpa using h))
  rcases hc with (((hc | hc) | hc) | hc) | hc
  · exact hlabel c hc
  · exact hunderscore hc
  · exact isIdChar_of_mem_idName hc
  · exact hunderscore hc
  · exact isIdChar_of_mem_toString hc

/-- Ids are made of the characters that are meant for them. -/
theorem isId_id (seed : NodeSeed) : IsId seed.id := by
  have hliteral {s : String} (h : s.toList.all IsIdChar = true) : ∀ c ∈ s.toList, IsIdChar c := by
    simpa using h
  refine ⟨seed.id_ne_empty, ?_⟩
  cases seed with
  | start => exact hliteral (by decide +kernel)
  | finish => exact hliteral (by decide +kernel)
  | activity n => exact fun c => isIdChar_of_mem_toString
  | decision n =>
    intro c hc
    rw [id, String.toList_append, List.mem_append] at hc
    rcases hc with hc | hc
    · exact hliteral (by decide +kernel) c hc
    · exact isIdChar_of_mem_toString hc
  | signalWait name line => exact isIdChar_of_mem_callId (hliteral (by decide +kernel))
  | childWorkflow name line => exact isIdChar_of_mem_callId (hliteral (by decide +kernel))
  | externalSignal name line => exact isIdChar_of_mem_callId (hliteral (by decide +kernel))

/-- **Ids tell apart all that they show.** Two nodes have one id exactly when they are of one kind
and have the same number, or the same line and names that look alike. An id is made of lower-case
letters, digits and underscores, whatever the name is made of. -/
theorem ids_exact (a b : NodeSeed) : (a.id = b.id ↔ a.Alike b) ∧ IsId a.id := by
  refine ⟨⟨fun h => ?_, fun h => ?_⟩, ?_⟩
  · exact alike_of_id_eq h
  · exact h.id_eq
  · exact a.isId_id

end NodeSeed

end WorkflowPaths
