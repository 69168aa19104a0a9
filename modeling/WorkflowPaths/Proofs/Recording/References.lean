import Mathlib.Data.List.Induction
import Mathlib.Data.List.TakeWhile
import WorkflowPaths.Recording.Resolution

/-!
# What references ask for

A reference is a text. Behind its last `@` there may be the number of a line, and then what stands
before is the name of a branch point on that line; otherwise the text as a whole is the name of a
branch point on any line. `Reads` says this without taking texts apart, and it is what a text is
taken apart into (`parts_eq_iff`). Of the branch points that a text asks for and that are not behind
the line it stands on (`Reaches`), it refers to the last one (`find?_eq_some_iff`).
-/

namespace WorkflowPaths

/-- An element of a list with one more at the end is the last one, or an element of the list. -/
theorem concat_eq_append_cons_iff {α : Type} {l before after : List α} {a b : α} :
    l ++ [a] = before ++ b :: after ↔
      (before = l ∧ b = a ∧ after = []) ∨
        ∃ rest, l = before ++ b :: rest ∧ after = rest ++ [a] := by
  rcases List.eq_nil_or_concat after with rfl | ⟨rest, c, rfl⟩
  · constructor
    · intro h
      cases (List.append_inj' h rfl).2
      exact .inl ⟨(List.append_inj' h rfl).1.symm, rfl, rfl⟩
    · rintro (⟨rfl, rfl, -⟩ | ⟨rest, -, hrest⟩)
      · rfl
      · simp at hrest
  · rw [List.concat_eq_append, ← List.cons_append, ← List.append_assoc]
    constructor
    · intro h
      cases (List.append_inj' h rfl).2
      exact .inr ⟨rest, (List.append_inj' h rfl).1, rfl⟩
    · rintro (⟨-, -, hrest⟩ | ⟨rest', rfl, hrest⟩)
      · simp at hrest
      · rw [(List.append_inj' hrest rfl).1, (List.append_inj' hrest rfl).2]

namespace Reference

/-- How the text of a reference is read: the name, and the line if the text gives one. -/
inductive Reads : String → String → Option UInt32 → Prop where
  /-- A name, and the number of a line behind `@`. -/
  | withLine {name numeral : String} {line : UInt32} :
      Text.Writes numeral.toList line.toNat → Reads (name ++ "@" ++ numeral) name (some line)
  /-- A name and nothing else. -/
  | nameOnly {text : String} :
      (∀ (name numeral : String) (line : UInt32), Text.Writes numeral.toList line.toNat →
        text ≠ name ++ "@" ++ numeral) →
      Reads text text none

/-- The text asks for branch points with the name on the line. -/
def AsksFor (text name : String) (line : UInt32) : Prop :=
  ∃ only, Reads text name only ∧ ∀ n, only = some n → line = n

/-- The text, on the line, asks for the branch point, which is not behind the line. -/
def Reaches (text : String) (line : UInt32) (r : Registered Test) : Prop :=
  r.line ≤ line ∧ AsksFor text r.name r.line

variable {text name : String} {cs : List Char}

theorem bne_sign_of_mem_reverse (h : '@' ∉ cs) : ∀ c ∈ cs.reverse, (c != '@') = true := by
  intro c hc
  rw [bne_iff_ne]
  rintro rfl
  exact h (List.mem_reverse.1 hc)

theorem splitAtSign_append {ds : List Char} (h : '@' ∉ ds) :
    splitAtSign (cs ++ '@' :: ds) = some (cs, ds) := by
  have hreverse : (cs ++ '@' :: ds).reverse = ds.reverse ++ '@' :: cs.reverse := by simp
  rw [splitAtSign, hreverse, List.dropWhile_append_of_pos (bne_sign_of_mem_reverse h),
    List.takeWhile_append_of_pos (bne_sign_of_mem_reverse h)]
  simp

theorem splitAtSign_of_notMem (h : '@' ∉ cs) : splitAtSign cs = none := by
  rw [splitAtSign, List.dropWhile_eq_nil_iff.2 (bne_sign_of_mem_reverse h)]

/-- A text has no `@`, or one that is the last. -/
theorem eq_append_last_sign (cs : List Char) :
    '@' ∉ cs ∨ ∃ xs ds, cs = xs ++ '@' :: ds ∧ '@' ∉ ds := by
  by_cases h : '@' ∈ cs
  · obtain ⟨ds, xs, hcs, hds⟩ := List.eq_append_cons_of_mem (List.mem_reverse.2 h)
    refine .inr ⟨xs.reverse, ds.reverse, ?_, by simpa using hds⟩
    rw [← List.reverse_reverse cs, hcs]
    simp
  · exact .inl h

theorem eq_append_sign_iff {numeral : String} :
    text = name ++ "@" ++ numeral ↔ text.toList = name.toList ++ '@' :: numeral.toList := by
  rw [← String.toList_inj]
  simp

theorem Reads.parts_eq {line : Option UInt32} (h : Reads text name line) :
    parts text = (name, line) := by
  cases h with
  | @withLine name numeral line h =>
    have htext : (name ++ "@" ++ numeral).toList = name.toList ++ '@' :: numeral.toList :=
      eq_append_sign_iff.1 rfl
    have hline : Text.boundedNumeral? UInt32.size (String.ofList numeral.toList) =
        some line.toNat := by
      rw [Text.boundedNumeral?_eq_some_iff, String.toList_ofList]
      exact ⟨line.toNat_lt, h⟩
    rw [parts, htext, splitAtSign_append (h.notMem (by decide) (by decide))]
    dsimp only
    rw [hline, String.ofList_toList]
    dsimp only
    rw [UInt32.ofNat_toNat]
  | nameOnly h =>
    rw [parts]
    rcases eq_append_last_sign text.toList with hnone | ⟨xs, ds, htext, hds⟩
    · rw [splitAtSign_of_notMem hnone]
    · rw [htext, splitAtSign_append hds]
      dsimp only
      split
      next n hn =>
        obtain ⟨hlt, hwrites⟩ := Text.boundedNumeral?_eq_some_iff.1 hn
        refine absurd (eq_append_sign_iff.2 ?_)
          (h (String.ofList xs) (String.ofList ds) (UInt32.ofNat n) ?_)
        · rw [htext, String.toList_ofList, String.toList_ofList]
        · rwa [UInt32.toNat_ofNat_of_lt' hlt]
      next => rfl

/-- Every text can be read. -/
theorem exists_reads (text : String) : ∃ name line, Reads text name line := by
  by_cases h : ∃ (name numeral : String) (line : UInt32),
      Text.Writes numeral.toList line.toNat ∧ text = name ++ "@" ++ numeral
  · obtain ⟨name, numeral, line, hwrites, rfl⟩ := h
    exact ⟨name, some line, .withLine hwrites⟩
  · exact ⟨text, none, .nameOnly fun name numeral line hwrites htext =>
      h ⟨name, numeral, line, hwrites, htext⟩⟩

/-- Taking a reference apart is reading it. -/
theorem parts_eq_iff {line : Option UInt32} :
    parts text = (name, line) ↔ Reads text name line := by
  constructor
  · intro h
    obtain ⟨name', line', hreads⟩ := exists_reads text
    cases hreads.parts_eq.symm.trans h
    exact hreads
  · exact Reads.parts_eq

theorem Reads.unique {name name' : String} {line line' : Option UInt32} (h : Reads text name line)
    (h' : Reads text name' line') : name = name' ∧ line = line' :=
  Prod.mk.inj (h.parts_eq.symm.trans h'.parts_eq)

theorem names_iff {r : Registered Test} : names text r = true ↔ AsksFor text r.name r.line := by
  cases hparts : parts text with
  | mk name line =>
    simp only [names, hparts, Bool.and_eq_true, beq_iff_eq, Option.all_eq_true, AsksFor]
    constructor
    · rintro ⟨rfl, hline⟩
      exact ⟨line, parts_eq_iff.1 hparts, fun n hn => (hline n hn).symm⟩
    · rintro ⟨line', hreads, hline⟩
      cases hparts.symm.trans hreads.parts_eq
      exact ⟨rfl, fun n hn => (hline n hn).symm⟩

variable {line : UInt32} {branches : List (Registered Test)}

theorem reaches_iff {r : Registered Test} :
    r.line ≤ line ∧ names text r = true ↔ Reaches text line r :=
  and_congr_right' names_iff

/-- A branch point that is not behind the line is reached when it is asked for. -/
theorem reaches_iff_of_le {r : Registered Test} (h : r.line ≤ line) :
    Reaches text line r ↔ AsksFor text r.name r.line :=
  and_iff_right h

theorem find?_concat (text : String) (line : UInt32) (branches : List (Registered Test))
    (r : Registered Test) :
    find? text line (branches ++ [r]) =
      if r.line ≤ line ∧ names text r then some branches.length else find? text line branches := by
  simp only [find?, List.zipIdx_append, List.reverse_append, List.find?_filter]
  split
  next h => simp [h]
  next h => simp [h]

/-- **A reference refers to the last branch point that it reaches.** -/
theorem find?_eq_some_iff {n : Nat} :
    find? text line branches = some n ↔ ∃ before r after, branches = before ++ r :: after ∧
      before.length = n ∧ Reaches text line r ∧ ∀ x ∈ after, ¬ Reaches text line x := by
  induction branches using List.reverseRecOn with
  | nil => simp [find?]
  | append_singleton branches last ih =>
    rw [find?_concat]
    split
    next hlast =>
      have hlast : Reaches text line last := reaches_iff.1 hlast
      constructor
      · rintro ⟨⟩
        exact ⟨branches, last, [], rfl, rfl, hlast, by simp⟩
      · rintro ⟨before, r, after, hbranches, rfl, -, hafter⟩
        rcases concat_eq_append_cons_iff.1 hbranches with ⟨rfl, -, -⟩ | ⟨rest, -, rfl⟩
        · rfl
        · exact absurd hlast (hafter last (by simp))
    next hlast =>
      rw [reaches_iff] at hlast
      rw [ih]
      constructor
      · rintro ⟨before, r, after, rfl, hn, hreaches, hafter⟩
        refine ⟨before, r, after ++ [last], by simp, hn, hreaches, fun x hx => ?_⟩
        rcases List.mem_append.1 hx with hx | hx
        · exact hafter x hx
        · rwa [List.mem_singleton.1 hx]
      · rintro ⟨before, r, after, hbranches, hn, hreaches, hafter⟩
        rcases concat_eq_append_cons_iff.1 hbranches with ⟨-, rfl, -⟩ | ⟨rest, rfl, rfl⟩
        · exact absurd hreaches hlast
        · exact ⟨before, r, rest, rfl, hn, hreaches, fun x hx => hafter x (by simp [hx])⟩

/-- A reference is not found when it reaches none of the branch points. -/
theorem find?_eq_none_iff :
    find? text line branches = none ↔ ∀ x ∈ branches, ¬ Reaches text line x := by
  simp only [find?, Option.map_eq_none_iff, List.find?_eq_none, List.mem_filter, List.mem_reverse,
    decide_eq_true_iff, names_iff]
  constructor
  · rintro h x hx ⟨hline, hasks⟩
    obtain ⟨i, hi⟩ := List.mem_iff_getElem?.1 hx
    exact h (x, i) ⟨List.mem_zipIdx_iff_getElem?.2 hi, hline⟩ hasks
  · rintro h ⟨x, i⟩ ⟨hx, hline⟩ hasks
    exact h x (List.mem_of_getElem? (List.mem_zipIdx_iff_getElem?.1 hx)) ⟨hline, hasks⟩

theorem exists_find?_iff :
    (∃ n, find? text line branches = some n) ↔ ∃ x ∈ branches, Reaches text line x := by
  rw [← Option.ne_none_iff_exists', Ne, find?_eq_none_iff]
  simp

end Reference

end WorkflowPaths
