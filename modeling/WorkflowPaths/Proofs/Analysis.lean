import WorkflowPaths.Analysis
import WorkflowPaths.Proofs.Diagram.Conflicts
import WorkflowPaths.Proofs.Recording.Registration

/-!
# When the paths of a workflow cannot be drawn

Every format of the output needs the diagram of the paths, so an analysis fails where there is none:
when an entry that is drawn on one of the paths has the id of the start or the end
(`Analysis.not_drawn_iff_reserved`). A workflow that comes from a draft or a recording has no such
entry.
-/

namespace WorkflowPaths

variable {o : Options} {w : Workflow} {paths : List Path} {d : Draft}

/-- The entry is drawn on one of the paths. -/
def Entry.IsDrawnOn (o : Options) (paths : List Path) (e : Entry) : Prop :=
  e.isVisible o = true ∧ ∃ p ∈ paths, e ∈ p.entries

/-! ### Workflows with an entry in the way -/

namespace Workflow

/-- Where the paths of a workflow make no diagram, the error is a conflict under the reserved id of
an entry that is drawn on one of them. -/
theorem exists_reserved_of_ofPaths (h : w.paths o = .ok paths) {error : DiagramError}
    (herror : Diagram.ofPaths o paths = .error error) :
    ∃ e ∈ w.entries, e.IsDrawnOn o paths ∧ e.hasReservedId ∧
      ∃ existing incoming, error = .conflict e.id existing incoming := by
  have hruns (p : Path) (hp : p ∈ paths) := Path.runsThrough_of_mem_paths h hp
  obtain ⟨p, hp, e, he, hvisible, hreserved, hconflict⟩ :=
    Diagram.exists_reserved_of_ofPaths_eq_error (wellFormed_of_paths h) (paths_ne_nil h) hruns
      herror
  exact ⟨e, (hruns p hp).mem_of_mem_entries he, ⟨hvisible, p, hp, he⟩, hreserved, hconflict⟩

/-- An entry with a reserved id that is drawn on one of the paths keeps them from making a
diagram. -/
theorem exists_ofPaths_eq_error (h : w.paths o = .ok paths) {e : Entry}
    (hdrawn : e.IsDrawnOn o paths) (hreserved : e.hasReservedId) :
    ∃ error, Diagram.ofPaths o paths = .error error := by
  obtain ⟨hvisible, p, hp, he⟩ := hdrawn
  have hruns (p : Path) (hp : p ∈ paths) := Path.runsThrough_of_mem_paths h hp
  cases hd : Diagram.ofPaths o paths with
  | ok d => exact absurd hreserved (Diagram.not_hasReservedId_of_ofPaths hruns hd hp he hvisible)
  | error error => exact ⟨error, rfl⟩

end Workflow

/-- In every format, only the diagram can be missing. -/
theorem Output.render_eq_error_iff {report : Option Report} {error : DiagramError} :
    render o paths report = .error error ↔ Diagram.ofPaths o paths = .error error := by
  rw [render]
  cases Diagram.ofPaths o paths <;> simp [bind, Except.bind, pure, Except.pure]

namespace Analysis

/-- Once the paths are enumerated, an analysis fails only for want of a diagram. -/
theorem ofWorkflow_eq_error_iff (h : w.paths o = .ok paths) {error : AnalysisError} :
    ofWorkflow o w = .error error ↔
      ∃ cause, Diagram.ofPaths o paths = .error cause ∧ .diagram cause = error := by
  have hrender : ofWorkflow o w = (Output.render o paths (report? o w)).mapError .diagram := by
    rw [ofWorkflow, (Workflow.paths_eq_ok_iff.1 h).1, h]
    rfl
  rw [hrender, mapError_eq_error_iff]
  simp only [Output.render_eq_error_iff]

/-- Where the diagram is missing, the paths were enumerated. -/
theorem exists_paths_of_ofWorkflow {error : DiagramError}
    (h : ofWorkflow o w = .error (.diagram error)) : ∃ paths, w.paths o = .ok paths := by
  rw [ofWorkflow] at h
  cases ho : o.check with
  | error flaw =>
    rw [ho] at h
    cases h
  | ok =>
    cases hpaths : w.paths o with
    | error flaw =>
      rw [ho, hpaths] at h
      cases h
    | ok paths => exact ⟨paths, rfl⟩

end Analysis

/-! ### Drafts and recordings -/

/-- No entry of a finished draft is in the way of the start or the end. -/
theorem Draft.not_hasReservedId_of_finish (h : d.finish = .ok w) {e : Entry} (he : e ∈ w.entries) :
    ¬ e.hasReservedId := by
  obtain ⟨seed, hid, hkind⟩ := exists_seed_of_finish h he
  rintro (hreserved | hreserved)
  · have hstart : seed.id = NodeSeed.start.id := hid.trans hreserved
    exact e.kind_ne_start (hkind.symm.trans (NodeSeed.kind_eq_of_id_eq hstart))
  · have hfinish : seed.id = NodeSeed.finish.id := hid.trans hreserved
    exact e.kind_ne_finish (hkind.symm.trans (NodeSeed.kind_eq_of_id_eq hfinish))

namespace Analysis

/-- The paths of a finished draft can always be drawn. -/
theorem ofWorkflow_ne_of_finish (h : d.finish = .ok w) (error : DiagramError) :
    ofWorkflow o w ≠ .error (.diagram error) := by
  intro herror
  obtain ⟨paths, hpaths⟩ := exists_paths_of_ofWorkflow herror
  obtain ⟨cause, hcause, -⟩ := (ofWorkflow_eq_error_iff hpaths).1 herror
  obtain ⟨e, he, -, hreserved, -⟩ := Workflow.exists_reserved_of_ofPaths hpaths hcause
  exact Draft.not_hasReservedId_of_finish h he hreserved

/-- **Paths are not drawn exactly because of reserved ids.** In every format, the analysis of a
workflow whose paths are enumerated fails when an entry that is drawn on one of the paths has the id
of the start or the end, and only then. The error is always a conflict under the id of such an
entry. The paths of a workflow from a draft or a recording can always be drawn. -/
theorem not_drawn_iff_reserved (o : Options) :
    (∀ w paths, w.paths o = .ok paths →
      ((∃ error, ofWorkflow o w = .error (.diagram error)) ↔
        ∃ e ∈ w.entries, e.IsDrawnOn o paths ∧ (e.id = startId ∨ e.id = finishId)) ∧
      ∀ error, ofWorkflow o w = .error error →
        ∃ e ∈ w.entries, e.IsDrawnOn o paths ∧ (e.id = startId ∨ e.id = finishId) ∧
          ∃ existing incoming, error = .diagram (.conflict e.id existing incoming)) ∧
    (∀ (d : Draft) (w : Workflow), d.finish = .ok w →
      ∀ error, ofWorkflow o w ≠ .error (.diagram error)) ∧
    ∀ (r : Recording) (w : Workflow), r.toWorkflow = .ok w →
      ∀ error, ofWorkflow o w ≠ .error (.diagram error) := by
  refine ⟨fun w paths h => ⟨?_, fun error herror => ?_⟩, fun d w h => ofWorkflow_ne_of_finish h,
    fun r w h => ?_⟩
  · constructor
    · rintro ⟨error, herror⟩
      obtain ⟨cause, hcause, -⟩ := (ofWorkflow_eq_error_iff h).1 herror
      obtain ⟨e, he, hdrawn, hreserved, -⟩ := Workflow.exists_reserved_of_ofPaths h hcause
      exact ⟨e, he, hdrawn, hreserved⟩
    · rintro ⟨e, -, hdrawn, hreserved⟩
      obtain ⟨error, herror⟩ := Workflow.exists_ofPaths_eq_error h hdrawn hreserved
      exact ⟨error, (ofWorkflow_eq_error_iff h).2 ⟨error, herror, rfl⟩⟩
  · obtain ⟨cause, hcause, rfl⟩ := (ofWorkflow_eq_error_iff h).1 herror
    obtain ⟨e, he, hdrawn, hreserved, existing, incoming, rfl⟩ :=
      Workflow.exists_reserved_of_ofPaths h hcause
    exact ⟨e, he, hdrawn, hreserved, existing, incoming, rfl⟩
  · obtain ⟨d, -, hd⟩ := Recording.toWorkflow_eq_ok_iff.1 h
    exact ofWorkflow_ne_of_finish hd

end Analysis

namespace Workflow

/-- The archiving of a closed case, under the id of the end. -/
def archive : Step := ⟨.activity, "Archive", finishId, 2, .known [⟨"d0", true⟩]⟩

/-- The signal that a case was handled, under the id of the start. -/
def handled : Step := ⟨.externalSignal .dynamic, "Handled", startId, 3, .always⟩

/-- A case is archived when it is closed. -/
def closing : Workflow where
  name := "Closing"
  steps := [archive, handled]
  branches := [⟨.decision, "Close", "d0", 1, .always⟩]

/-- The same workflow with ids that are made for its entries. -/
def closingRecorded : Workflow where
  name := "Closing"
  steps := [{ archive with id := "1" }, { handled with id := "ext_sig_handled_3" }]
  branches := [⟨.decision, "Close", "d0", 1, .always⟩]

end Workflow

/-- The calls of the same workflow. -/
def Recording.closing : Recording where
  workflow := "Closing"
  calls := [
    { kind := .externalSignal, line := 3, name := "Handled" },
    { kind := .decision, line := 1, name := "Close" },
    { kind := .activity, line := 2, name := "Archive", conditions := [⟨"Close", true⟩] }]

namespace Analysis

open Workflow (archive handled closing closingRecorded)

/-- Without signals only the archiving is in the way. When the same calls are recorded, nothing
is. -/
theorem not_drawn_iff_reserved_closing :
    closing.paths { showExternalSignals := false } = .ok closing.allPaths ∧
      (∃ existing incoming, ofWorkflow { showExternalSignals := false } closing =
        .error (.diagram (.conflict finishId existing incoming))) ∧
      Recording.closing.toWorkflow = .ok closingRecorded ∧
      ∀ error, ofWorkflow {} closingRecorded ≠ .error (.diagram error) := by
  have hpaths : closing.paths { showExternalSignals := false } = .ok closing.allPaths :=
    Workflow.paths_eq_ok_iff.2 ⟨by decide +kernel, by decide +kernel, by decide +kernel, rfl⟩
  have hrecorded : Recording.closing.toWorkflow = .ok closingRecorded := by decide +kernel
  refine ⟨hpaths, ?_, hrecorded, (not_drawn_iff_reserved {}).2.2 _ _ hrecorded⟩
  obtain ⟨hiff, hconflict⟩ := (not_drawn_iff_reserved _).1 _ _ hpaths
  obtain ⟨error, herror⟩ :=
    hiff.2 ⟨.step archive, by decide +kernel, by unfold Entry.IsDrawnOn; decide +kernel, .inr rfl⟩
  obtain ⟨e, he, ⟨hvisible, -⟩, hreserved, existing, incoming, heq⟩ := hconflict _ herror
  have hentries : e = .step archive ∨ e = .step handled ∨
      e = .branch ⟨.decision, "Close", "d0", 1, .always⟩ := by
    simpa [Workflow.entries, closing] using he
  rcases hentries with rfl | rfl | rfl
  · exact ⟨existing, incoming, by rw [herror, heq]; rfl⟩
  · exact absurd hvisible (by decide)
  · exact absurd hreserved (by decide)

end Analysis

end WorkflowPaths
