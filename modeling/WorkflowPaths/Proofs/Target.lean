import WorkflowPaths.Proofs.Text.Blank
import WorkflowPaths.Target

/-!
# Which receiver a signal names

A call that sends a signal has a text for the receiver, or none. `Target.IsNamedBy` says what the
text tells about the receiver, apart from the blanks at its ends, and `classify_eq_iff` that this is
the receiver which is read off the call.
-/

namespace WorkflowPaths.Target

/-- Part of the text is left open. -/
def HasGap (text : String) : Prop :=
  ∃ before after, text = before ++ "\x7b*\x7d" ++ after

/-- The receiver that an argument names. -/
inductive IsNamedBy : Option String → Target → Prop where
  /-- There is no argument. -/
  | missing : IsNamedBy none .dynamic
  /-- The argument has only blanks. -/
  | blank {text : String} : (∀ c ∈ text.toList, Text.isBlank c = true) →
      IsNamedBy (some text) .dynamic
  /-- The argument says that the receiver is only known when the program runs. -/
  | word {text : String} : Text.IsCore text.toList "dynamic".toList → IsNamedBy (some text) .dynamic
  /-- The argument tells a part of the id. -/
  | pattern {text pattern : String} : Text.IsCore text.toList pattern.toList → HasGap pattern →
      IsNamedBy (some text) (.wildcard pattern)
  /-- The argument is the id. -/
  | id {text id : String} : Text.IsCore text.toList id.toList → id ≠ "" → id ≠ "dynamic" →
      ¬ HasGap id → IsNamedBy (some text) (.exact id)

theorem hasInfix_iff {pattern cs : List Char} : hasInfix pattern cs = true ↔ pattern <:+: cs := by
  induction cs with
  | nil => rw [hasInfix, List.isEmpty_iff, List.infix_nil]
  | cons c r ih =>
    rw [hasInfix, Bool.or_eq_true, List.isPrefixOf_iff_prefix, ih, List.infix_cons_iff]

theorem hasInfix_gap_iff {text : String} :
    hasInfix ['{', '*', '}'] text.toList = true ↔ HasGap text := by
  rw [hasInfix_iff]
  constructor
  · rintro ⟨before, after, htext⟩
    refine ⟨String.ofList before, String.ofList after, ?_⟩
    rw [← String.toList_inj, ← htext]
    simp
  · rintro ⟨before, after, rfl⟩
    exact ⟨before.toList, after.toList, by simp⟩

theorem isCore_toList_iff {text core : String} :
    Text.IsCore text.toList core.toList ↔ Text.trim text = core := by
  rw [Text.isCore_iff, Text.trim, ← String.toList_inj, String.toList_ofList]

/-- **The receiver that is read off a call is the one that its argument names.** -/
theorem classify_eq_iff {argument : Option String} {t : Target} :
    classify argument = t ↔ IsNamedBy argument t := by
  constructor
  · rintro rfl
    cases argument with
    | none => exact .missing
    | some text =>
      have hcore : Text.IsCore text.toList (Text.trim text).toList := isCore_toList_iff.2 rfl
      rw [classify]
      split
      next hopen =>
        rcases hopen with hblank | hword
        · rw [Text.trim_eq_empty_iff, Text.isBlankText, List.all_eq_true] at hblank
          exact .blank hblank
        · exact .word (hword ▸ hcore)
      next hopen =>
        push Not at hopen
        split
        next hgap => exact .pattern hcore (hasInfix_gap_iff.1 hgap)
        next hgap => exact .id hcore hopen.1 hopen.2 (fun h => hgap (hasInfix_gap_iff.2 h))
  · intro h
    cases h with
    | missing => rfl
    | @blank text hblank =>
      have htrim : Text.trim text = "" := by
        rwa [Text.trim_eq_empty_iff, Text.isBlankText, List.all_eq_true]
      simp [classify, htrim]
    | word hcore => simp [classify, isCore_toList_iff.1 hcore]
    | @pattern text pattern hcore hgap =>
      have hinfix := hasInfix_gap_iff.2 hgap
      have hne : ¬ (pattern = "" ∨ pattern = "dynamic") := by
        rintro (rfl | rfl)
        · revert hinfix
          decide
        · revert hinfix
          decide
      rw [classify, isCore_toList_iff.1 hcore, if_neg hne, if_pos hinfix]
    | id hcore hempty hword hgap =>
      rw [classify, isCore_toList_iff.1 hcore, if_neg (by tauto),
        if_neg fun h => hgap (hasInfix_gap_iff.1 h)]

end WorkflowPaths.Target
