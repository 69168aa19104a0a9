import WorkflowPaths.Proofs.Analysis
import WorkflowPaths.Proofs.Listing

/-!
# Hidden signals

Signals that are hidden are still on the paths, and are passed over when the paths are merged and
listed. This module shows that nothing is left of them: a workflow with hidden signals has the same
output as the workflow that does not have them at all (`Workflow.withoutSignals`).

The argument has two halves. Merging and listing look at nothing of a path but its visible stops and
the outcomes that it records (`Diagram.ofPaths_congr`, `Listing.text_congr`). And path by path,
these are the same in the two workflows, since leaving the signals out of a workflow leaves them out
of its timeline, and changes nothing in when the other entries take part
(`Workflow.map_visible_withoutSignals`).

The JSON document shows the steps of the paths, hidden or not, and the report looks at the workflow
itself; for those it does not hold.
-/

namespace WorkflowPaths

variable {o : Options} {w : Workflow} {ps qs : List Path}

/-! ### What the output depends on -/

namespace Diagram

/-- Merging passes over the stops that are not visible. -/
theorem addStops_filter (d : Diagram) (previous : Option (String × Option String))
    (l : List Stop) :
    addStops o d previous (l.filter (·.isVisible o)) = addStops o d previous l := by
  induction l generalizing d previous with
  | nil => rfl
  | cons s rest ih =>
    cases hs : s.isVisible o with
    | true => simp only [List.filter_cons_of_pos hs, addStops, hs, if_true, ih]
    | false =>
      rw [List.filter_cons_of_neg (by simp [hs]), ih, addStops, hs]
      rfl

theorem addPaths_eq_foldlM (d : Diagram) (paths : List Path) :
    addPaths o d paths =
      (paths.map (·.visible o)).foldlM (fun d stops => addStops o d none stops) d := by
  induction paths generalizing d with
  | nil => rfl
  | cons p rest ih =>
    simp only [addPaths, List.map_cons, List.foldlM_cons, Path.visible_eq, addStops_filter, ih]

/-- Paths with the same visible stops make the same diagram, or fail with the same error. -/
theorem ofPaths_congr (h : ps.map (·.visible o) = qs.map (·.visible o)) :
    ofPaths o ps = ofPaths o qs := by
  have hempty : ps.isEmpty = qs.isEmpty := by
    simpa only [List.isEmpty_map] using congrArg List.isEmpty h
  rw [ofPaths, ofPaths, hempty, addPaths_eq_foldlM, addPaths_eq_foldlM, h]

end Diagram

namespace Listing

/-- Paths with the same visible stops that record the same outcomes are listed in the same way. -/
theorem lines_congr (hvisible : ps.map (·.visible o) = qs.map (·.visible o))
    (houtcomes : ps.map Path.outcomes = qs.map Path.outcomes) : lines o ps = lines o qs := by
  have hcount (l : List Path) :
      branchCount l = (l.map Path.outcomes).head?.elim 0 Outcomes.size := by
    cases l <;> rfl
  have hlength : ps.length = qs.length := by
    simpa only [List.length_map] using congrArg List.length houtcomes
  have hlines (l : List Path) : lines o l = heading l :: "" ::
      (l.map (·.visible o)).zipIdx.map fun x => "Path " ++ toString (x.2 + 1) ++ ": "
        ++ " → ".intercalate (x.1.map (Stop.listedText o)) := by
    rw [lines_eq, List.zipIdx_map, List.map_map]
    rfl
  rw [hlines, hlines, heading_eq, heading_eq, hcount, hcount, houtcomes, hlength, hvisible]

theorem text_congr (hvisible : ps.map (·.visible o) = qs.map (·.visible o))
    (houtcomes : ps.map Path.outcomes = qs.map Path.outcomes) (report : Option Report) :
    text o ps report = text o qs report := by
  unfold text
  rw [lines_congr hvisible houtcomes]

end Listing

/-- The flowchart and the listing depend only on the visible stops of the paths and the outcomes
that they record. -/
theorem Output.render_congr (hformat : o.format = .mermaid ∨ o.format = .paths)
    (hvisible : ps.map (·.visible o) = qs.map (·.visible o))
    (houtcomes : ps.map Path.outcomes = qs.map Path.outcomes) (report : Option Report) :
    render o ps report = render o qs report := by
  rw [render, render, Diagram.ofPaths_congr hvisible]
  rcases hformat with hformat | hformat
  · rw [hformat]
  · rw [hformat, Listing.text_congr hvisible houtcomes]

/-! ### Workflows without signals -/

namespace Workflow

/-- The workflow without the signals that it sends to other workflows. -/
def withoutSignals (w : Workflow) : Workflow :=
  { w with steps := w.steps.filter (!·.isExternalSignal) }

theorem entries_withoutSignals (w : Workflow) :
    w.withoutSignals.entries = w.entries.filter (·.kind != .externalSignal) := by
  have hsteps : (w.steps.filter (!·.isExternalSignal)).map Entry.step
      = (w.steps.map .step).filter (·.kind != .externalSignal) := by
    rw [List.filter_map]
    refine congrArg _ (List.filter_congr fun s _ => ?_)
    simp [Step.isExternalSignal, Entry.kind, bne, beq_eq_decide]
  have hbranches : (w.branches.map Entry.branch).filter (·.kind != .externalSignal)
      = w.branches.map .branch := by
    refine List.filter_eq_self.2 fun e he => ?_
    obtain ⟨b, -, rfl⟩ := List.mem_map.1 he
    exact bne_iff_ne.2 b.kind_ne_externalSignal
  rw [entries, entries, List.filter_append, hbranches, ← hsteps]
  rfl

theorem timeline_withoutSignals (w : Workflow) :
    w.withoutSignals.timeline = w.timeline.filter (·.kind != .externalSignal) := by
  have htimeline (w : Workflow) : w.timeline = SourceOrder.sort Entry.line w.entries := rfl
  rw [htimeline, htimeline, entries_withoutSignals, SourceOrder.sort_filter]

theorem effective_withoutSignals (w : Workflow) (m : Membership) :
    w.withoutSignals.effective m = w.effective m := by
  cases m <;> rfl

/-- Without the signals, the other entries take part as before. -/
theorem taking_withoutSignals (w : Workflow) (outcomes : Outcomes) :
    w.withoutSignals.taking outcomes
      = (w.taking outcomes).filter (·.kind != .externalSignal) := by
  simp only [taking, timeline_withoutSignals, effective_withoutSignals, List.filter_filter,
    Bool.and_comm]

theorem WellFormed.withoutSignals (h : w.WellFormed) : w.withoutSignals.WellFormed := by
  have hmem {e : Entry} (he : e ∈ w.withoutSignals.entries) : e ∈ w.entries := by
    rw [entries_withoutSignals] at he
    exact List.mem_of_mem_filter he
  exact {
    name_not_blank := h.name_not_blank
    names_not_blank := fun e he => h.names_not_blank e (hmem he)
    ids_not_empty := fun e he => h.ids_not_empty e (hmem he)
    ids_nodup := by
      rw [entries_withoutSignals]
      exact h.ids_nodup.sublist (List.filter_sublist.map Entry.id)
    conditions_known := fun e he => h.conditions_known e (hmem he)
    acyclic := h.acyclic }

/-- Where signals are hidden, every path shows the same without them. -/
theorem map_visible_withoutSignals (hhide : o.showExternalSignals = false) (w : Workflow) :
    w.withoutSignals.allPaths.map (·.visible o) = w.allPaths.map (·.visible o) := by
  have hvisible : Entry.isVisible o = (·.kind != .externalSignal) := by
    funext e
    rw [Entry.isVisible, hhide, Bool.false_or]
  rw [allPaths_eq, allPaths_eq, List.map_map, List.map_map]
  refine List.map_congr_left fun k _ => ?_
  have houtcomes : w.withoutSignals.outcomesAt k = w.outcomesAt k := rfl
  simp only [Function.comp, Path.visible_along, houtcomes, taking_withoutSignals, hvisible,
    List.filter_filter, Bool.and_self]

theorem map_outcomes_withoutSignals (w : Workflow) :
    w.withoutSignals.allPaths.map Path.outcomes = w.allPaths.map Path.outcomes := by
  rw [allPaths_eq, allPaths_eq, List.map_map, List.map_map]
  rfl

/-- The paths of a valid workflow are enumerated as far as the options allow it. -/
theorem paths_of_check (h : w.check = .ok ()) (o : Options) :
    w.paths o = (do o.check.mapError .options; w.checkLimits o; return w.allPaths) := by
  rw [paths, h]
  rfl

end Workflow

/-! ### Hidden stops -/

namespace Diagram

/-- Two visible stops with only hidden ones between them are joined. -/
theorem edgeTo_mem_of_hidden {d : Diagram} {p : Path} (hd : ofPaths o ps = .ok d) (hp : p ∈ ps)
    {s t : Stop} {hidden : List Stop} (h : s :: hidden ++ [t] <:+: p.stops)
    (hs : s.isVisible o = true) (ht : t.isVisible o = true)
    (hhidden : ∀ x ∈ hidden, x.isVisible o = false) : s.edgeTo o t ∈ d.edges := by
  have hinfix := h.filter (·.isVisible o)
  have hnone : hidden.filter (·.isVisible o) = [] :=
    List.filter_eq_nil_iff.2 fun x hx => by simp [hhidden x hx]
  rw [List.filter_append, List.filter_cons_of_pos hs, hnone, List.filter_cons_of_pos ht] at hinfix
  rw [← Path.visible_eq] at hinfix
  exact (mem_edges_ofPaths_iff (List.ne_nil_of_mem hp) hd).2 ⟨p, hp, s, t, hinfix, rfl⟩

end Diagram

namespace Analysis

/-- **Hiding external signals is leaving them out.** Where signals are hidden and there is no
report, the flowchart and the listing of a valid workflow are those of the workflow without its
signals, or both fail with the same error. No signal is drawn, and two stops of a path with only
signals between them, however many, are joined by the edge that would join them if they followed
each other: from a branch point, it shows the outcome that the branch point has on the path. -/
theorem ofWorkflow_eq_withoutSignals (hw : w.check = .ok ())
    (hhide : o.showExternalSignals = false) (hreport : o.reportEnabled = false)
    (hformat : o.format = .mermaid ∨ o.format = .paths) :
    ofWorkflow o w = ofWorkflow o w.withoutSignals ∧
    ∀ paths d, w.paths o = .ok paths → Diagram.ofPaths o paths = .ok d →
      (∀ n ∈ d.nodes, n.kind ≠ .externalSignal) ∧
      ∀ p ∈ paths, ∀ (s t : Stop) (signals : List Stop), s :: signals ++ [t] <:+: p.stops →
        s.isExternalSignal = false → t.isExternalSignal = false →
        (∀ x ∈ signals, x.isExternalSignal = true) →
        s.edgeTo o t ∈ d.edges ∧
          ∀ b taken, s = .branch b taken →
            (s.edgeTo o t).link.label = some (b.outcomeLabel o taken) := by
  have hvisible (s : Stop) : s.isVisible o = !s.isExternalSignal := by
    rw [Stop.isVisible, hhide, Bool.false_or]
  refine ⟨?_, fun paths d hpaths hd =>
    ⟨fun n hn => ?_, fun p hp s t signals h hs ht hsignals => ?_⟩⟩
  · have hw' := (Workflow.wellFormed_of_check hw).withoutSignals.check_eq_ok
    have hlimits : w.withoutSignals.checkLimits o = w.checkLimits o := rfl
    have hnone (w : Workflow) : report? o w = none := by rw [report?, hreport]; rfl
    have hrender := Output.render_congr hformat (Workflow.map_visible_withoutSignals hhide w)
      w.map_outcomes_withoutSignals none
    rw [ofWorkflow, ofWorkflow, Workflow.paths_of_check hw, Workflow.paths_of_check hw', hlimits,
      hnone, hnone]
    cases o.check with
    | error flaw => rfl
    | ok =>
      cases w.checkLimits o with
      | error e => rfl
      | ok => exact congrArg (Except.mapError AnalysisError.diagram) hrender.symm
  · have hne := Workflow.paths_ne_nil hpaths
    obtain ⟨s, hs, rfl⟩ :=
      (Diagram.isUnion_of_ofPaths_of_ne_nil hne hd).exists_stop_of_mem_nodes hn
    obtain ⟨p, -, hsp⟩ := List.mem_flatMap.1 hs
    have hshown := (Path.mem_visible.1 hsp).2
    rw [hvisible, Bool.not_eq_true'] at hshown
    exact of_decide_eq_false hshown
  · refine ⟨Diagram.edgeTo_mem_of_hidden hd hp h ?_ ?_ fun x hx => ?_, ?_⟩
    · rw [hvisible, hs, Bool.not_false]
    · rw [hvisible, ht, Bool.not_false]
    · rw [hvisible, hsignals x hx, Bool.not_true]
    · rintro b taken rfl
      rfl

end Analysis

namespace Workflow

/-- The decision whether a case is urgent. -/
def urgent : Branch := ⟨.decision, "Urgent", "d0", 1, .always⟩

/-- The call of the manager, if a case is urgent. -/
def callManager : Step :=
  ⟨.externalSignal (.exact "manager"), "Call", "ext_sig_call_2", 2, .known [⟨"d0", true⟩]⟩

/-- The call of the team, if a case is urgent. -/
def callTeam : Step :=
  ⟨.externalSignal .dynamic, "Call", "ext_sig_call_3", 3, .known [⟨"d0", true⟩]⟩

/-- The handling of a case. -/
def handle : Step := ⟨.activity, "Handle", "1", 4, .always⟩

/-- A case is handled, and if it is urgent, others are called before. -/
def urgentCase : Workflow := ⟨"UrgentCase", [callManager, callTeam, handle], [urgent]⟩

/-- The diagram of a case, the calls hidden. -/
def urgentCaseDiagram : Diagram :=
  .of [
    ⟨"s", .start, "Start"⟩,
    ⟨"d0", .decision, "Urgent"⟩,
    ⟨"1", .activity, "Handle"⟩,
    ⟨"e", .finish, "End"⟩] [
    ⟨"s", "d0", .plain⟩,
    ⟨"d0", "1", .branch "no"⟩,
    ⟨"1", "e", .plain⟩,
    ⟨"d0", "1", .branch "yes"⟩]

end Workflow

namespace Analysis

open Workflow (urgent callManager callTeam handle urgentCase urgentCaseDiagram)

/-- With the two calls hidden, the decision leads to the handling with either outcome. -/
theorem ofWorkflow_eq_withoutSignals_urgentCase :
    ofWorkflow { showExternalSignals := false } urgentCase =
      ofWorkflow { showExternalSignals := false } ⟨"UrgentCase", [handle], [urgent]⟩ ∧
    Diagram.ofPaths { showExternalSignals := false } urgentCase.allPaths = .ok urgentCaseDiagram ∧
    (Stop.branch urgent true).edgeTo { showExternalSignals := false } (.step handle) ∈
      urgentCaseDiagram.edges := by
  have hpaths : urgentCase.paths { showExternalSignals := false } = .ok urgentCase.allPaths :=
    Workflow.paths_eq_ok_iff.2 ⟨by decide +kernel, by decide +kernel, by decide +kernel, rfl⟩
  have hd : Diagram.ofPaths { showExternalSignals := false } urgentCase.allPaths
      = .ok urgentCaseDiagram := by
    decide +kernel
  obtain ⟨p, hp, hstops⟩ : ∃ p ∈ urgentCase.allPaths, p.stops =
      [.start, .branch urgent true, .step callManager, .step callTeam, .step handle, .finish] := by
    decide +kernel
  have hinfix : .branch urgent true :: [.step callManager, .step callTeam] ++ [.step handle]
      <:+: p.stops := by
    rw [hstops]
    exact ⟨[.start], [.finish], rfl⟩
  obtain ⟨hsame, hdrawn⟩ := ofWorkflow_eq_withoutSignals (o := { showExternalSignals := false })
    (Workflow.paths_eq_ok_iff.1 hpaths).2.2.1 rfl rfl (.inl rfl)
  obtain ⟨-, hjoined⟩ := hdrawn _ _ hpaths hd
  exact ⟨hsame, hd, (hjoined p hp _ _ _ hinfix rfl rfl (by decide)).1⟩

end Analysis

end WorkflowPaths
