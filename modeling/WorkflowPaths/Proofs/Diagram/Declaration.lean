import WorkflowPaths.Diagram.Flowchart
import WorkflowPaths.Proofs.NodeId

/-!
# Reading a node off its declaration

The line that declares a node consists of its id, an opening bracket, a text and a closing bracket.
Brackets are parts of other brackets, and labels may hold brackets themselves. Still the line can be
read in one way only (`ReadsAs.unique`):

* the id ends where the first character of an opening bracket stands,
* the opening bracket ends where its characters end, because no text that stands between brackets
  begins with one of them, nor does a closing bracket, which follows where the text is empty,
* and the brackets come in pairs.

What stands between the brackets tells the label up to the quotes in it (`labelChars_eq_iff`).
-/

namespace WorkflowPaths

/-- Nodes of the two kinds have the same shape: the start and the end have one shape, and every
other kind has a shape of its own. -/
def NodeKind.SameShape (kind kind' : NodeKind) : Prop :=
  kind = kind' ∨ (kind = .start ∧ kind' = .finish) ∨ (kind = .finish ∧ kind' = .start)

instance (kind : NodeKind) : DecidablePred kind.SameShape :=
  fun _ => inferInstanceAs (Decidable (_ ∨ _ ∨ _))

namespace Flowchart

/-! ### Labels -/

/-- A text with every quote written as an entity. -/
def withEntities (s : String) : String :=
  String.ofList (s.toList.flatMap fun c => if c = '"' then ['#', 'q', 'u', 'o', 't', ';'] else [c])

/-- The characters that have a meaning of their own. -/
def reserved : List Char :=
  ['(', ')', '[', ']', '{', '}', '<', '>', '"', '\'', '/', '\\', '|', '#', ';', '&']

/-- A text that may stand between brackets: one without reserved characters, or one between quotes
and without a quote inside. -/
inductive IsLabelText : List Char → Prop where
  /-- No character has a meaning of its own. -/
  | plain {cs : List Char} : (∀ c ∈ cs, c ∉ reserved) → IsLabelText cs
  /-- The quotes keep all characters from having a meaning. -/
  | quoted {cs : List Char} : '"' ∉ cs → IsLabelText ('"' :: cs ++ ['"'])

theorem quotedChar_eq :
    quotedChar = fun c => if c = '"' then ['#', 'q', 'u', 'o', 't', ';'] else [c] :=
  rfl

theorem reserved_subset_special : reserved ⊆ special := by
  decide

theorem quote_notMem_quotedChar (c : Char) : '"' ∉ quotedChar c := by
  rw [quotedChar]
  split
  next => decide
  next h => simpa [eq_comm] using h

theorem isLabelText_labelChars (cs : List Char) : IsLabelText (labelChars cs) := by
  rw [labelChars]
  split
  next =>
    refine .quoted fun h => ?_
    obtain ⟨c, -, hc⟩ := List.mem_flatMap.1 h
    exact quote_notMem_quotedChar c hc
  next h =>
    have hspecial : ∀ c ∈ cs, c ∉ special := by simpa using h
    exact .plain fun c hc hreserved => hspecial c hc (reserved_subset_special hreserved)

/-- Writing quotes as entities neither takes away the last special character nor brings in the
first one: the entity has special characters itself. -/
theorem any_special_flatMap (cs : List Char) :
    (cs.flatMap quotedChar).any special.contains = cs.any special.contains := by
  have hchar (c : Char) : (quotedChar c).any special.contains = special.contains c := by
    rw [quotedChar]
    split
    next h =>
      subst h
      decide
    next => simp
  rw [List.any_flatMap]
  exact congrArg (List.any cs) (funext hchar)

/-- Whether a label stands between quotes can be seen from its text. -/
theorem any_special_labelChars (cs : List Char) :
    (labelChars cs).any special.contains = cs.any special.contains := by
  rw [labelChars]
  split
  next h =>
    rw [h]
    rfl
  next => rfl

theorem flatMap_quotedChar_eq_self {cs : List Char} (h : cs.any special.contains = false) :
    cs.flatMap quotedChar = cs := by
  have hchar : ∀ c ∈ cs, quotedChar c = [c] := by
    intro c hc
    refine if_neg ?_
    rintro rfl
    simpa [special] using List.any_eq_false.1 h _ hc
  rw [List.flatMap_def, List.map_congr_left hchar, ← List.flatMap_def, List.flatMap_singleton']

/-- The text of a label tells the label up to the quotes in it. -/
theorem labelChars_eq_iff {cs ds : List Char} :
    labelChars cs = labelChars ds ↔ cs.flatMap quotedChar = ds.flatMap quotedChar := by
  by_cases hany : cs.any special.contains = ds.any special.contains
  · cases hds : ds.any special.contains with
    | true =>
      rw [labelChars, labelChars, if_pos (hany.trans hds), if_pos hds]
      simp
    | false =>
      have hcs := hany.trans hds
      rw [labelChars, labelChars, if_neg (by simp [hcs]), if_neg (by simp [hds]),
        flatMap_quotedChar_eq_self hcs, flatMap_quotedChar_eq_self hds]
  · refine iff_of_false (fun h => hany ?_) (fun h => hany ?_)
    · rw [← any_special_labelChars, h, any_special_labelChars]
    · rw [← any_special_flatMap, h, any_special_flatMap]

theorem label_eq_iff {s t : String} : label s = label t ↔ withEntities s = withEntities t := by
  rw [label, label, String.ofList_inj, labelChars_eq_iff, withEntities, withEntities,
    String.ofList_inj, quotedChar_eq]

/-! ### Brackets -/

/-- The characters of opening brackets. -/
def openers : List Char := ['(', '[', '\x7b', '/']

theorem openers_subset_reserved : openers ⊆ reserved := by
  decide

theorem openers_of_mem_opening (kind : NodeKind) :
    ∀ c ∈ (brackets kind).1.toList, openers.contains c = true := by
  rw [← List.all_eq_true]
  cases kind <;> decide +kernel

theorem opening_ne_nil (kind : NodeKind) : (brackets kind).1.toList ≠ [] := by
  cases kind <;> decide +kernel

theorem head?_opening (kind : NodeKind) (rest : List Char) :
    ∀ c ∈ ((brackets kind).1.toList ++ rest).head?, openers.contains c = true := by
  have hopeners := openers_of_mem_opening kind
  cases hopening : (brackets kind).1.toList with
  | nil => exact absurd hopening (opening_ne_nil kind)
  | cons x r =>
    rintro c ⟨⟩
    exact hopeners x (hopening ▸ List.mem_cons_self)

theorem head?_closing (kind : NodeKind) :
    ∀ c ∈ (brackets kind).2.toList.head?, openers.contains c = false := by
  have hall : (brackets kind).2.toList.head?.all (!openers.contains ·) = true := by
    cases kind <;> decide +kernel
  simpa [Option.all_eq_true] using hall

/-- The opening bracket tells the shape, though some are parts of others. -/
theorem sameShape_of_opening_eq {kind kind' : NodeKind}
    (h : (brackets kind).1 = (brackets kind').1) : kind.SameShape kind' := by
  revert h
  cases kind <;> cases kind' <;> decide +kernel

theorem brackets_eq_of_sameShape {kind kind' : NodeKind} (h : kind.SameShape kind') :
    brackets kind = brackets kind' := by
  obtain rfl | ⟨rfl, rfl⟩ | ⟨rfl, rfl⟩ := h <;> rfl

/-- No id holds a character of an opening bracket. -/
theorem openers_of_isIdChar {c : Char} (h : IsIdChar c) : openers.contains c = false := by
  rw [← Bool.not_eq_true, List.contains_iff_mem]
  intro hc
  have hnone : openers.all (¬ IsIdChar ·) = true := by decide
  exact of_decide_eq_true (List.all_eq_true.1 hnone c hc) h

/-- Nothing that may stand behind an opening bracket goes on with the bracket. -/
theorem head?_text_closing {text : List Char} (h : IsLabelText text) (kind : NodeKind) :
    ∀ c ∈ (text ++ (brackets kind).2.toList).head?, openers.contains c = false := by
  cases h with
  | quoted hquote =>
    rintro c ⟨⟩
    decide
  | plain hplain =>
    cases text with
    | nil => exact head?_closing kind
    | cons x r =>
      rintro c ⟨⟩
      rw [← Bool.not_eq_true, List.contains_iff_mem]
      intro hc
      exact hplain x List.mem_cons_self (openers_subset_reserved hc)

/-! ### Declarations -/

/-- The line can be read as an id, and a text between the brackets for a kind of node. -/
structure ReadsAs (line id : String) (kind : NodeKind) (text : String) : Prop where
  /-- First stands an id. -/
  isId : IsId id
  /-- What stands between the brackets may do so. -/
  isText : IsLabelText text.toList
  /-- The line consists of these parts. -/
  line_eq : line = id ++ (brackets kind).1 ++ text ++ (brackets kind).2

theorem readsAs_declaration {n : Node} (h : IsId n.id) :
    ReadsAs (declaration n) n.id n.kind (label n.label) := by
  refine ⟨h, ?_, rfl⟩
  rw [label, String.toList_ofList]
  exact isLabelText_labelChars _

/-- Two ways to divide a text are the same, if in both of them the first part ends where the first
character stands that it may not hold. -/
theorem append_inj_of_head {p : Char → Bool} {xs ys rest rest' : List Char}
    (hxs : ∀ c ∈ xs, p c = true) (hrest : ∀ c ∈ rest.head?, p c = false)
    (hys : ∀ c ∈ ys, p c = true) (hrest' : ∀ c ∈ rest'.head?, p c = false)
    (h : xs ++ rest = ys ++ rest') : xs = ys ∧ rest = rest' := by
  have hdrop := congrArg (List.dropWhile p) h
  rw [Text.dropWhile_append_eq hxs hrest, Text.dropWhile_append_eq hys hrest'] at hdrop
  subst hdrop
  exact ⟨List.append_cancel_right h, rfl⟩

theorem ReadsAs.toList_eq {line id text : String} {kind : NodeKind}
    (h : ReadsAs line id kind text) :
    line.toList = id.toList ++
      ((brackets kind).1.toList ++ (text.toList ++ (brackets kind).2.toList)) := by
  rw [h.line_eq]
  simp

/-- A line can be read in one way only. -/
theorem ReadsAs.unique {line id id' text text' : String} {kind kind' : NodeKind}
    (h : ReadsAs line id kind text) (h' : ReadsAs line id' kind' text') :
    id = id' ∧ kind.SameShape kind' ∧ text = text' := by
  -- The id ends at the first opener, and the opening bracket at the first other character.
  have hend (kind : NodeKind) (rest : List Char) :
      ∀ c ∈ ((brackets kind).1.toList ++ rest).head?, (!openers.contains c) = false :=
    fun c hc => by rw [head?_opening kind rest c hc, Bool.not_true]
  have hchars {id : String} (hid : IsId id) : ∀ c ∈ id.toList, (!openers.contains c) = true :=
    fun c hc => by rw [openers_of_isIdChar (hid.2 c hc), Bool.not_false]
  obtain ⟨hid, hrest⟩ := append_inj_of_head (hchars h.isId) (hend kind _) (hchars h'.isId)
    (hend kind' _) (h.toList_eq.symm.trans h'.toList_eq)
  obtain ⟨hopening, hrest⟩ := append_inj_of_head (openers_of_mem_opening kind)
    (head?_text_closing h.isText kind) (openers_of_mem_opening kind')
    (head?_text_closing h'.isText kind') hrest
  have hshape := sameShape_of_opening_eq (String.toList_inj.1 hopening)
  rw [brackets_eq_of_sameShape hshape] at hrest
  exact ⟨String.toList_inj.1 hid, hshape, String.toList_inj.1 (List.append_cancel_right hrest)⟩

/-- **A declaration determines its node**, as far as it can: the id, the shape, and the label up to
the difference between a quote and the entity for it. There is one way to read the line, whatever
the label is, and what then stands between the brackets is a text without reserved characters, or
one in quotes without a quote inside. -/
theorem declaration_determines_node {a b : Node} (ha : IsId a.id) (hb : IsId b.id) :
    (declaration a = declaration b ↔
      a.id = b.id ∧ a.kind.SameShape b.kind ∧ withEntities a.label = withEntities b.label) ∧
    ∃ text, ReadsAs (declaration a) a.id a.kind text ∧
      ∀ id kind text', ReadsAs (declaration a) id kind text' →
        id = a.id ∧ kind.SameShape a.kind ∧ text' = text := by
  have hread := readsAs_declaration ha
  refine ⟨⟨fun h => ?_, ?_⟩, label a.label, hread, fun id kind text h => h.unique hread⟩
  · rw [← label_eq_iff]
    exact hread.unique (h ▸ readsAs_declaration hb)
  · rintro ⟨hid, hshape, hlabel⟩
    simp only [declaration, hid, brackets_eq_of_sameShape hshape, label_eq_iff.2 hlabel]

/-- A label in braces does not make a decision look like a wait, and a quote looks like the entity
for it. -/
theorem declaration_determines_node_braces :
    IsId "d0" ∧
      declaration ⟨"d0", .decision, "\x7bpaid\x7d"⟩ ≠ declaration ⟨"d0", .signalWait, "paid"⟩ ∧
      declaration ⟨"d0", .decision, "\""⟩ = declaration ⟨"d0", .decision, "#quot;"⟩ := by
  have hid : IsId "d0" := (NodeSeed.decision 0).isId_id
  refine ⟨hid, ?_, ?_⟩
  · rw [Ne, (declaration_determines_node hid hid).1]
    decide
  · rw [(declaration_determines_node hid hid).1]
    decide

end Flowchart

end WorkflowPaths
