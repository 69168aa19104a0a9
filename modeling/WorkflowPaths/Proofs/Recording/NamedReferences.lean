import WorkflowPaths.Proofs.Recording.Contents

/-!
# References by name

A call is conditional on branch points that it refers to by name. The text of a reference is read as
a name and a line if it ends with `@` and a number, and only otherwise as a name. A name may end
like that itself. Such a name is *misread* (`IsMisread`) where there is no branch point of the
shorter name on that line; the reference is then said to be to an unknown branch point, although
there is one of that very name. All other names are found.
-/

namespace WorkflowPaths

namespace Call

/-- The call is for a branch point with the name. -/
def Declares (c : Call) (name : String) : Prop :=
  c.IsBranch ∧ c.name = some name

instance (c : Call) : DecidablePred c.Declares :=
  fun _ => inferInstanceAs (Decidable ((_ ∨ _) ∧ _))

variable {c : Call} {d : Draft}

/-- Registering a call fails for an unknown branch point when the call has a name and its guard
fails. -/
theorem register_eq_unknownBranch_iff {line : UInt32} {text : String} :
    register d c = .error (.unknownBranch line text) ↔
      (∃ name, IsGiven c.name name) ∧ c.guard d.branches = .error (.unknownBranch line text) := by
  constructor
  · intro h
    rcases register_error_cases h with ⟨argument, hmissing⟩ | hguard
    · cases hmissing
    · exact hguard
  · rintro ⟨⟨name, hname⟩, hguard⟩
    rw [register, bind_eq_error_iff]
    exact .inr ⟨name, require_eq_ok_iff.2 hname, bind_eq_error_iff.2 (.inl hguard)⟩

end Call

namespace Recording

/-- The calls before the given one are registered, but the call is not, for the reason given. -/
def StopsAt (r : Recording) (before : List Call) (c : Call) (e : Error) : Prop :=
  ∃ after, SourceOrder.StablySorted Call.line r.calls (before ++ c :: after) ∧
    ∃ d, before.foldlM Call.register { name := r.workflow } = .ok d ∧ Call.register d c = .error e

variable {r : Recording} {before after : List Call} {c : Call} {d : Draft} {text : String}

/-- There is no workflow for an unknown branch point when a call stops for that reason. -/
theorem toWorkflow_eq_unknownBranch_iff {line : UInt32} :
    r.toWorkflow = .error (.unknownBranch line text) ↔
      ∃ before c, r.StopsAt before c (.unknownBranch line text) := by
  have hdraft : r.toWorkflow = .error (.unknownBranch line text) ↔
      r.toDraft = .error (.unknownBranch line text) := by
    simp [toWorkflow, bind_eq_error_iff, mapError_eq_error_iff]
  simp only [hdraft, toDraft, foldlM_eq_error_iff, StopsAt,
    SourceOrder.stablySorted_iff, orderedCalls]
  constructor
  · rintro ⟨before, c, after, d, hcalls, hd, hc⟩
    exact ⟨before, c, after, hcalls, d, hd, hc⟩
  · rintro ⟨before, c, after, hcalls, d, hd, hc⟩
    exact ⟨before, c, after, d, hcalls, hd, hc⟩

/-- The branch points that a reference reaches are those of the calls that it asks for. -/
theorem exists_reaches_iff (hcalls : (before ++ c :: after).Pairwise (·.line ≤ ·.line))
    (h : before.foldlM Call.register { name := r.workflow } = .ok d) :
    (∃ x ∈ d.branches, Reference.Reaches text c.line x) ↔ ∃ b ∈ before, b.IsAskedFor text := by
  have hlines := line_le_of_foldlM_register hcalls h
  obtain ⟨rows, rfl, hrows, rfl⟩ := foldlM_register_eq_ok_iff.1 h
  constructor
  · rintro ⟨x, hx, -, hasks⟩
    obtain ⟨row, hrow, hbranch⟩ := List.mem_filterMap.1 hx
    obtain ⟨branches, hregisters⟩ := hrows.of_mem hrow
    exact ⟨row.1, List.mem_map_of_mem hrow, hregisters.isAskedFor_iff.2 ⟨x, hbranch, hasks⟩⟩
  · rintro ⟨b, hb, hasked⟩
    obtain ⟨row, hrow, rfl⟩ := List.mem_map.1 hb
    obtain ⟨branches, hregisters⟩ := hrows.of_mem hrow
    obtain ⟨x, hbranch, hasks⟩ := hregisters.isAskedFor_iff.1 hasked
    have hx : x ∈ rows.filterMap (·.2.branch?) := List.mem_filterMap.2 ⟨row, hrow, hbranch⟩
    exact ⟨x, hx, (Reference.reaches_iff_of_le (hlines x hx)).2 hasks⟩

/-- The text can be read as a name and a line, and none of the calls is for a branch point of that
name on that line. -/
def IsMisread (calls : List Call) (text : String) : Prop :=
  ∃ name line, Reference.Reads text name (some line) ∧
    ∀ b ∈ calls, b.Declares name → b.line ≠ line

/-- A text that is the name of a branch point asks for one, unless it is misread. -/
theorem exists_isAskedFor_iff (hnamed : ∃ b ∈ before, b.Declares text) :
    (∃ b ∈ before, b.IsAskedFor text) ↔ ¬ IsMisread before text := by
  constructor
  · rintro ⟨b, hb, hbranch, name', hname', only, hreads', honly⟩ ⟨name, line, hreads, hnone⟩
    obtain ⟨rfl, rfl⟩ := hreads'.unique hreads
    exact hnone b hb ⟨hbranch, hname'⟩ (honly line rfl)
  · intro h
    obtain ⟨name, only, hreads⟩ := Reference.exists_reads text
    cases only with
    | some line =>
      by_contra hnone
      refine h ⟨name, line, hreads, ?_⟩
      rintro b hb ⟨hbranch, hname⟩ rfl
      exact hnone ⟨b, hb, hbranch, name, hname, some b.line, hreads, by simp⟩
    | none =>
      obtain ⟨b, hb, hbranch, hname⟩ := hnamed
      cases hreads with
      | nameOnly hplain => exact ⟨b, hb, hbranch, text, hname, none, .nameOnly hplain, by simp⟩

/-- **References by name are found unless they are misread.** Where every reference of a call is the
name of a branch point before it, the guard of the call can be found exactly if none of the
references can also be read as a name and a line for which there is no branch point. Otherwise there
is no workflow, and the branch point is said to be unknown. -/
theorem named_references_found_iff
    (hcalls : SourceOrder.StablySorted Call.line r.calls (before ++ c :: after))
    (hknown : c.membershipUnknown = false)
    (hnamed : ∀ x ∈ c.conditions, ∃ b ∈ before, b.Declares x.branch) :
    (∀ d, before.foldlM Call.register { name := r.workflow } = .ok d →
      ((∃ g, c.guard d.branches = .ok g) ↔ ∀ x ∈ c.conditions, ¬ IsMisread before x.branch)) ∧
    ((∃ line text, r.StopsAt before c (.unknownBranch line text)) ↔
      (∃ d, before.foldlM Call.register { name := r.workflow } = .ok d) ∧
        (∃ name, Call.IsGiven c.name name) ∧ ∃ x ∈ c.conditions, IsMisread before x.branch) ∧
    ∀ line text, r.toWorkflow = .error (.unknownBranch line text) ↔
      ∃ before c, r.StopsAt before c (.unknownBranch line text) := by
  have hguard {d : Draft} (hd : before.foldlM Call.register { name := r.workflow } = .ok d) :
      (∃ g, c.guard d.branches = .ok g) ↔ ∀ x ∈ c.conditions, ¬ IsMisread before x.branch := by
    rw [Call.exists_guard_iff hknown]
    refine forall₂_congr fun x hx => ?_
    rw [exists_reaches_iff hcalls.ordered hd, exists_isAskedFor_iff (hnamed x hx)]
  refine ⟨fun d hd => hguard hd, ⟨?_, ?_⟩, fun line text => toWorkflow_eq_unknownBranch_iff⟩
  · rintro ⟨line, text, _, -, d, hd, hc⟩
    obtain ⟨hname, hfail⟩ := Call.register_eq_unknownBranch_iff.1 hc
    refine ⟨⟨d, hd⟩, hname, ?_⟩
    by_contra hnone
    push Not at hnone
    obtain ⟨g, hg⟩ := (hguard hd).2 hnone
    rw [hg] at hfail
    cases hfail
  · rintro ⟨⟨d, hd⟩, hname, x, hx, hmisread⟩
    cases hfail : c.guard d.branches with
    | ok g => exact absurd hmisread ((hguard hd).1 ⟨g, hfail⟩ x hx)
    | error e =>
      obtain ⟨y, -, rfl⟩ := Call.guard_error_cases hfail
      exact ⟨_, _, after, hcalls, d, hd, Call.register_eq_unknownBranch_iff.2 ⟨hname, hfail⟩⟩

/-- A decision with a name that ends like the number of a line. -/
def secondStage : Call where
  kind := .decision
  line := 1
  name := some "stage@2"

/-- The decisions of a rollout. -/
def stages : List Call := [
  secondStage,
  { kind := .decision, line := 2, name := some "stage" },
  { kind := .decision, line := 3, name := some "stage@home" }]

/-- The step of a rollout that is conditional on two of the decisions. -/
def announcement : Call where
  kind := .activity
  line := 4
  name := some "Announce"
  conditions := [⟨"stage@home", true⟩, ⟨"stage@2", false⟩]

/-- The calls of a rollout. -/
def rollout : Recording where
  workflow := "Rollout"
  calls := announcement :: stages

/-- Both references are found, the second one because there is also a decision of the shorter name
on that line. -/
theorem named_references_found_iff_rollout :
    SourceOrder.StablySorted Call.line rollout.calls (stages ++ announcement :: []) ∧
      (∀ x ∈ announcement.conditions, ∃ b ∈ stages, b.Declares x.branch) ∧
      ∃ d, stages.foldlM Call.register { name := rollout.workflow } = .ok d ∧
        ∃ g, announcement.guard d.branches = .ok g := by
  have hcalls : SourceOrder.StablySorted Call.line rollout.calls (stages ++ announcement :: []) :=
    SourceOrder.stablySorted_iff.2 (by decide)
  have hnamed : ∀ x ∈ announcement.conditions, ∃ b ∈ stages, b.Declares x.branch := by decide
  have hd : stages.foldlM Call.register { name := rollout.workflow } =
      .ok ⟨"Rollout", [], [⟨.decision, "stage@2", 1, .always⟩, ⟨.decision, "stage", 2, .always⟩,
        ⟨.decision, "stage@home", 3, .always⟩]⟩ := by decide +kernel
  refine ⟨hcalls, hnamed, _, hd, ?_⟩
  refine ((named_references_found_iff hcalls rfl hnamed).1 _ hd).2 ?_
  have hhome : Reference.parts "stage@home" = ("stage@home", none) := by decide +kernel
  have htwo : Reference.parts "stage@2" = ("stage", some 2) := by decide +kernel
  rintro x hx ⟨name, line, hreads, hnone⟩
  rcases List.mem_pair.1 hx with rfl | rfl
  · cases hhome.symm.trans hreads.parts_eq
  · cases htwo.symm.trans hreads.parts_eq
    revert hnone
    decide

/-- The step of a launch, which is conditional on the only decision. -/
def launch : Call where
  kind := .activity
  line := 4
  name := some "Launch"
  conditions := [⟨"stage@2", true⟩]

/-- The calls of a launch. -/
def launching : Recording where
  workflow := "Launching"
  calls := [launch, secondStage]

/-- Without a decision of the shorter name, the decision is said to be unknown, although the step
refers to it by its very name. -/
theorem launching_stage_unknown :
    SourceOrder.StablySorted Call.line launching.calls ([secondStage] ++ launch :: []) ∧
      launch.membershipUnknown = false ∧
      (∀ x ∈ launch.conditions, ∃ b ∈ [secondStage], b.Declares x.branch) ∧
      (∃ d, [secondStage].foldlM Call.register { name := launching.workflow } = .ok d ∧
        launch.guard d.branches = .error (.unknownBranch 4 "stage@2")) ∧
      launching.toWorkflow = .error (.unknownBranch 4 "stage@2") := by
  have hd : [secondStage].foldlM Call.register { name := launching.workflow } =
      .ok ⟨"Launching", [], [⟨.decision, "stage@2", 1, .always⟩]⟩ := by decide +kernel
  refine ⟨SourceOrder.stablySorted_iff.2 (by decide), rfl, by decide, ⟨_, hd, ?_⟩, ?_⟩
  · decide +kernel
  · decide +kernel

end Recording

end WorkflowPaths
