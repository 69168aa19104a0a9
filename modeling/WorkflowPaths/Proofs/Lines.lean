import WorkflowPaths.Proofs.Analysis
import WorkflowPaths.Proofs.Diagram.Flow
import WorkflowPaths.Proofs.Listing
import WorkflowPaths.Proofs.Text.Lines

/-!
# Lines of the output

The flowchart and the listing are put together from lines. Names, labels, targets and ids stand in
these lines as they are, except for quotes and spaces, so the output has the lines that it was put
together from exactly when no text that it shows has a newline (`Analysis.output_lines_iff`).

What is shown is said of the workflow and the options. A node shows its id and its label; a branch
point that is drawn at all is drawn with both outcomes, so the labels of both are shown; the
findings of an attached report show the ids and the names that they are about.
-/

namespace WorkflowPaths

open Text (IsOneLine isOneLine_append isOneLine_ofList isOneLine_repr splitLines)

variable {o : Options} {w : Workflow} {paths : List Path} {d : Diagram}

/-! ### Labels -/

theorem Options.isOneLine_displayName {name : String} :
    IsOneLine (o.displayName name) ↔ IsOneLine name := by
  unfold displayName
  split
  · exact Text.isOneLine_splitWords
  · rfl

/-- The label of a signal shows its name and, if the options say so, its target. -/
theorem Options.isOneLine_signalLabel {name : String} {target : Target} :
    IsOneLine (o.signalLabel name target) ↔
      IsOneLine name ∧ (o.signalLabels = .targetPattern → IsOneLine target.text) := by
  have hopening : IsOneLine "Signal '" := by decide
  have hclosing : IsOneLine "'" := by decide
  have hto : IsOneLine "' to " := by decide
  unfold signalLabel
  cases o.signalLabels <;> simp [isOneLine_append, hopening, hclosing, hto]

/-- Every text that the labels of the entry show is one line. -/
def Entry.ShowsOneLine (o : Options) : Entry → Prop
  | .step s => IsOneLine s.name ∧ ∀ target, s.action = .externalSignal target →
      o.signalLabels = .targetPattern → IsOneLine target.text
  | .branch b => IsOneLine b.name ∧ ∀ taken, IsOneLine (b.outcomeLabel o taken)

theorem Step.isOneLine_label {s : Step} :
    IsOneLine (s.label o) ↔ (Entry.step s).ShowsOneLine o := by
  unfold label Entry.ShowsOneLine
  cases haction : s.action with
  | activity => simp [haction, Options.isOneLine_displayName]
  | childWorkflow => simp [haction, Options.isOneLine_displayName]
  | externalSignal target => simp [haction, Options.isOneLine_signalLabel]

theorem Branch.isOneLine_label {b : Branch} : IsOneLine (b.label o) ↔ IsOneLine b.name :=
  Options.isOneLine_displayName

/-! ### Stops -/

/-- What a path shows of the stop is one line: its label and, for a branch point, the label of the
outcome that it has on the path. -/
def Stop.ShowsOneLine (o : Options) (s : Stop) : Prop :=
  IsOneLine (s.label o) ∧ ∀ outcome, s.outcome? o = some outcome → IsOneLine outcome

theorem Stop.isOneLine_listedText {s : Stop} :
    IsOneLine (s.listedText o) ↔ s.ShowsOneLine o := by
  have hopening : IsOneLine " (" := by decide
  have hclosing : IsOneLine ")" := by decide
  cases s <;>
    simp [listedText, ShowsOneLine, label, outcome?, isOneLine_append, hopening, hclosing]

/-- The start, the end and what is drawn of the workflow are shown on one line each. -/
def Workflow.LabelsOneLine (o : Options) (w : Workflow) (paths : List Path) : Prop :=
  IsOneLine o.startLabel ∧ IsOneLine o.finishLabel ∧
    ∀ e ∈ w.entries, e.IsDrawnOn o paths → e.ShowsOneLine o

/-- The stops of all paths are shown on one line each exactly when what is drawn is: a branch point
is a stop with either outcome. -/
theorem Workflow.forall_showsOneLine_iff (h : w.paths o = .ok paths) :
    (∀ p ∈ paths, ∀ s ∈ p.visible o, s.ShowsOneLine o) ↔ w.LabelsOneLine o paths := by
  have hruns (p : Path) (hp : p ∈ paths) := Path.runsThrough_of_mem_paths h hp
  constructor
  · intro hall
    obtain ⟨p, hp⟩ := List.exists_mem_of_ne_nil paths (paths_ne_nil h)
    refine ⟨(hall p hp _ (hruns p hp).start_mem_visible).1,
      (hall p hp _ (hruns p hp).finish_mem_visible).1, ?_⟩
    rintro e - ⟨hvisible, q, hq, he⟩
    have hmem := (hruns q hq).ofEntry_mem_visible he hvisible
    cases e with
    | step s => exact Step.isOneLine_label.1 (hall q hq _ hmem).1
    | branch b =>
      obtain ⟨hlabel, houtcome⟩ := hall q hq _ hmem
      refine ⟨Branch.isOneLine_label.1 hlabel, fun taken => ?_⟩
      -- One outcome is that on the path at hand, the other one that on some other path.
      have hstop : Stop.branch b ((q.outcomes.get? b.id).getD false) ∈ q.stops :=
        (Path.mem_visible.1 hmem).1
      obtain ⟨r, hr, hflip⟩ := exists_path_flip h hq hstop
      by_cases htaken : taken = (q.outcomes.get? b.id).getD false
      · rw [htaken]
        exact houtcome _ rfl
      · obtain rfl : taken = !(q.outcomes.get? b.id).getD false := Bool.eq_not_of_ne htaken
        have hvisible := Stop.isVisible_branch o b !(q.outcomes.get? b.id).getD false
        exact (hall r hr _ (Path.mem_visible.2 ⟨hflip, hvisible⟩)).2 _ rfl
  · rintro ⟨hstart, hfinish, hentries⟩ p hp s hs
    rcases (hruns p hp).mem_visible_iff.1 hs with rfl | rfl | ⟨e, he, hvisible, rfl⟩
    · exact ⟨hstart, by simp [Stop.outcome?]⟩
    · exact ⟨hfinish, by simp [Stop.outcome?]⟩
    · have hshows := hentries e ((hruns p hp).mem_of_mem_entries he) ⟨hvisible, p, hp, he⟩
      cases e with
      | step s => exact ⟨Step.isOneLine_label.2 hshows, by simp [Stop.ofEntry, Stop.outcome?]⟩
      | branch b =>
        refine ⟨Branch.isOneLine_label.2 hshows.1, fun outcome houtcome => ?_⟩
        obtain rfl := Option.some.inj houtcome
        exact hshows.2 _

/-! ### Findings -/

/-- The texts that a finding shows. -/
def Warning.texts : Warning → List String
  | .unknownMembership id _ => [id]
  | .unreachable id name _ => [id, name]
  | .dynamicTarget signal _ => [signal]
  | .noActivities workflow => [workflow]

/-- A finding is one line when the texts that it shows are. -/
theorem Warning.isOneLine_text {x : Warning} :
    IsOneLine x.text ↔ ∀ t ∈ x.texts, IsOneLine t := by
  have hline : IsOneLine "line " := isOneLine_ofList.2 (by decide)
  have hnumber (n : UInt32) : IsOneLine (toString n.toNat) := isOneLine_repr n.toNat
  cases x with
  | unknownMembership id line =>
    have hbranch : IsOneLine ": branch of '" := isOneLine_ofList.2 (by decide)
    have hshown : IsOneLine "' could not be determined, shown on every path" :=
      isOneLine_ofList.2 (by decide)
    show IsOneLine (_ ++ _ ++ _ ++ id ++ _) ↔ ∀ t ∈ [id], IsOneLine t
    simp only [isOneLine_append, hline, hnumber, hbranch, hshown, true_and, and_true,
      List.forall_mem_singleton]
  | unreachable id name line =>
    have hopening : IsOneLine ": '" := isOneLine_ofList.2 (by decide)
    have hclosing : IsOneLine "' (" := isOneLine_ofList.2 (by decide)
    have hreason : IsOneLine ") is never reachable, its branch conditions contradict each other" :=
      isOneLine_ofList.2 (by decide)
    show IsOneLine (_ ++ _ ++ _ ++ name ++ _ ++ id ++ _) ↔ ∀ t ∈ [id, name], IsOneLine t
    simp only [isOneLine_append, hline, hnumber, hopening, hclosing, hreason, true_and, and_true,
      List.forall_mem_cons, List.not_mem_nil, false_imp_iff, implies_true, and_comm]
  | dynamicTarget signal line =>
    have htarget : IsOneLine ": target of signal '" := isOneLine_ofList.2 (by decide)
    have hruntime : IsOneLine "' is only known at runtime" := isOneLine_ofList.2 (by decide)
    show IsOneLine (_ ++ _ ++ _ ++ signal ++ _) ↔ ∀ t ∈ [signal], IsOneLine t
    simp only [isOneLine_append, hline, hnumber, htarget, hruntime, true_and, and_true,
      List.forall_mem_singleton]
  | noActivities workflow =>
    have hworkflow : IsOneLine "workflow '" := isOneLine_ofList.2 (by decide)
    have hnone : IsOneLine "' has no activities" := isOneLine_ofList.2 (by decide)
    show IsOneLine (_ ++ workflow ++ _) ↔ ∀ t ∈ [workflow], IsOneLine t
    simp only [isOneLine_append, hworkflow, hnone, true_and, and_true, List.forall_mem_singleton]

/-- The findings that are attached to the output. -/
def Analysis.attached (o : Options) (w : Workflow) : List Warning :=
  if o.reportEnabled then (Report.ofWorkflow w).warnings else []

/-- What the flowchart shows is one line each: the labels, the ids of what is drawn, and the texts
of the findings that are attached. -/
def Workflow.FlowchartOneLine (o : Options) (w : Workflow) (paths : List Path) : Prop :=
  w.LabelsOneLine o paths ∧ (∀ e ∈ w.entries, e.IsDrawnOn o paths → IsOneLine e.id) ∧
    ∀ x ∈ Analysis.attached o w, ∀ t ∈ x.texts, IsOneLine t

/-! ### The flowchart -/

namespace Flowchart

/-- Quotes around a label and entities in it leave its newlines as they are. -/
theorem isOneLine_label {s : String} : IsOneLine (label s) ↔ IsOneLine s := by
  have hquoted (c : Char) : '\n' ∈ quotedChar c ↔ c = '\n' := by
    unfold quotedChar
    split
    · next h =>
      subst h
      decide
    · simp [eq_comm]
  rw [label, isOneLine_ofList, IsOneLine, labelChars]
  split
  · simp [hquoted]
  · rfl

theorem isOneLine_declaration {n : Node} :
    IsOneLine (declaration n) ↔ IsOneLine n.id ∧ IsOneLine n.label := by
  have hbrackets (kind : NodeKind) : IsOneLine (brackets kind).1 ∧ IsOneLine (brackets kind).2 := by
    cases kind <;> decide
  simp [declaration, isOneLine_append, isOneLine_label, hbrackets]

theorem isOneLine_arrow {e : Edge} :
    IsOneLine (arrow e) ↔ IsOneLine e.source ∧
      (∀ outcome, e.link = .branch outcome → IsOneLine outcome) ∧ IsOneLine e.target := by
  have hplain : IsOneLine " --> " := isOneLine_ofList.2 (by decide)
  have hbranch : IsOneLine " -- " := isOneLine_ofList.2 (by decide)
  have hsignal : IsOneLine " -.signal.-> " := isOneLine_ofList.2 (by decide)
  unfold arrow
  cases e.link with
  | plain => simp [isOneLine_append, hplain]
  | branch outcome => simp [isOneLine_append, isOneLine_label, hplain, hbranch, and_assoc]
  | signal => simp [isOneLine_append, hsignal]

theorem isOneLine_colours {n : Node} : IsOneLine (colours n) ↔ IsOneLine n.id := by
  have hstyle : IsOneLine "style " := isOneLine_ofList.2 (by decide)
  have hfill : IsOneLine " fill:#fff4e6,stroke:#ff9800" := isOneLine_ofList.2 (by decide)
  simp [colours, isOneLine_append, hstyle, hfill]

/-- The lines of a flowchart with the given findings. -/
theorem lines_report? (d : Diagram) (o : Options) (w : Workflow) :
    lines d (Analysis.report? o w) = "flowchart LR" :: d.nodes.map declaration
      ++ d.edges.map arrow ++ (d.nodes.filter (·.kind == .externalSignal)).map colours
      ++ (Analysis.attached o w).map fun x => "%% warning: " ++ x.text := by
  unfold lines Analysis.report? Analysis.attached
  cases o.reportEnabled <;> rfl

/-- The lines of a flowchart are one line each exactly when its nodes, the outcomes on its edges and
the findings are: the ends of the edges and the coloured ids are ids of nodes. -/
theorem forall_lines_iff
    (hends : ∀ e ∈ d.edges, (∃ n ∈ d.nodes, n.id = e.source) ∧ ∃ n ∈ d.nodes, n.id = e.target) :
    (∀ l ∈ lines d (Analysis.report? o w), IsOneLine l) ↔
      (∀ n ∈ d.nodes, IsOneLine n.id ∧ IsOneLine n.label) ∧
      (∀ e ∈ d.edges, ∀ outcome, e.link = .branch outcome → IsOneLine outcome) ∧
      ∀ x ∈ Analysis.attached o w, ∀ t ∈ x.texts, IsOneLine t := by
  have hdirective : IsOneLine "flowchart LR" := isOneLine_ofList.2 (by decide)
  have hwarning : IsOneLine "%% warning: " := isOneLine_ofList.2 (by decide)
  rw [lines_report?]
  simp only [List.forall_mem_append, List.forall_mem_cons, List.forall_mem_map, hdirective,
    true_and, isOneLine_declaration, isOneLine_arrow, isOneLine_colours, isOneLine_append, hwarning,
    Warning.isOneLine_text]
  constructor
  · rintro ⟨⟨⟨hnodes, hedges⟩, -⟩, hfindings⟩
    exact ⟨hnodes, fun e he => (hedges e he).2.1, hfindings⟩
  · rintro ⟨hnodes, houtcomes, hfindings⟩
    refine ⟨⟨⟨hnodes, fun e he => ?_⟩, fun n hn => ?_⟩, hfindings⟩
    · obtain ⟨⟨a, ha, hsource⟩, b, hb, htarget⟩ := hends e he
      exact ⟨hsource ▸ (hnodes a ha).1, houtcomes e he, htarget ▸ (hnodes b hb).1⟩
    · exact (hnodes n (List.mem_filter.1 hn).1).1

end Flowchart

/-- Only an edge from a branch point shows an outcome, that of the branch point. -/
theorem Stop.outcome?_of_linkTo {s t : Stop} {outcome : String}
    (h : s.linkTo o t = .branch outcome) : s.outcome? o = some outcome := by
  cases s with
  | branch b taken => exact congrArg some (Link.branch.inj h)
  | start | step | finish =>
    unfold linkTo at h
    simp only at h
    split at h <;> cases h

namespace Workflow

variable (h : w.paths o = .ok paths) (hd : Diagram.ofPaths o paths = .ok d)
include h hd

/-- The nodes of a diagram are those of the visible stops. -/
theorem forall_nodes_iff {P : Node → Prop} :
    (∀ n ∈ d.nodes, P n) ↔ ∀ p ∈ paths, ∀ s ∈ p.visible o, P (s.node o) := by
  have hruns (p : Path) (hp : p ∈ paths) := Path.runsThrough_of_mem_paths h hp
  have hunion := Diagram.isUnion_of_ofPaths_of_ne_nil (paths_ne_nil h) hd
  constructor
  · intro hall p hp s hs
    exact hall _ (Diagram.node_mem_nodes hruns hd (wellFormed_of_paths h) hp hs)
  · intro hall n hn
    obtain ⟨s, hs, rfl⟩ := hunion.exists_stop_of_mem_nodes hn
    obtain ⟨p, hp, hsp⟩ := List.mem_flatMap.1 hs
    exact hall p hp s hsp

/-- The outcomes on the edges of a diagram are those of the visible stops. -/
theorem forall_outcomes_iff {P : String → Prop} :
    (∀ e ∈ d.edges, ∀ outcome, e.link = .branch outcome → P outcome) ↔
      ∀ p ∈ paths, ∀ s ∈ p.visible o, ∀ outcome, s.outcome? o = some outcome → P outcome := by
  have hruns (p : Path) (hp : p ∈ paths) := Path.runsThrough_of_mem_paths h hp
  constructor
  · intro hall p hp s hs outcome houtcome
    cases s with
    | branch b taken =>
      obtain ⟨e, he, -, hlink⟩ := Diagram.exists_outcome_edge hruns hd hp (Path.mem_visible.1 hs).1
      obtain rfl := Option.some.inj houtcome
      exact hall e he _ hlink
    | start | step | finish => cases houtcome
  · intro hall e he outcome hlink
    obtain ⟨p, hp, s, t, hst, rfl⟩ := (Diagram.mem_edges_ofPaths_iff (paths_ne_nil h) hd).1 he
    exact hall p hp s (hst.subset (by simp)) outcome (Stop.outcome?_of_linkTo hlink)

/-- The lines of the flowchart are one line each exactly when the ids and the labels that it shows
are, and the findings. -/
theorem forall_flowchart_lines_iff :
    (∀ l ∈ Flowchart.lines d (Analysis.report? o w), IsOneLine l) ↔
      w.FlowchartOneLine o paths := by
  have hruns (p : Path) (hp : p ∈ paths) := Path.runsThrough_of_mem_paths h hp
  have hunion := Diagram.isUnion_of_ofPaths_of_ne_nil (paths_ne_nil h) hd
  have hends : ∀ e ∈ d.edges,
      (∃ n ∈ d.nodes, n.id = e.source) ∧ ∃ n ∈ d.nodes, n.id = e.target := by
    intro e he
    obtain ⟨a, b, ha, hb, -⟩ := hunion.exists_ends he
    exact ⟨⟨a, hunion.node?_eq_some_iff.1 ha⟩,
      b, hunion.node?_eq_some_iff.1 hb⟩
  rw [Flowchart.forall_lines_iff hends, forall_nodes_iff h hd, forall_outcomes_iff h hd,
    FlowchartOneLine, ← forall_showsOneLine_iff h]
  constructor
  · rintro ⟨hnodes, houtcomes, hfindings⟩
    refine ⟨fun p hp s hs => ⟨(hnodes p hp s hs).2, houtcomes p hp s hs⟩, ?_, hfindings⟩
    rintro e - ⟨hvisible, p, hp, he⟩
    have hid := (hnodes p hp _ ((hruns p hp).ofEntry_mem_visible he hvisible)).1
    rwa [Stop.id_node, Stop.id_ofEntry] at hid
  · rintro ⟨hlabels, hids, hfindings⟩
    refine ⟨fun p hp s hs => ⟨?_, (hlabels p hp s hs).1⟩, fun p hp s hs => (hlabels p hp s hs).2,
      hfindings⟩
    have hstart : IsOneLine startId := by decide
    have hfinish : IsOneLine finishId := by decide
    rcases (hruns p hp).mem_visible_iff.1 hs with rfl | rfl | ⟨e, he, hvisible, rfl⟩
    · exact hstart
    · exact hfinish
    · rw [Stop.id_node, Stop.id_ofEntry]
      exact hids e ((hruns p hp).mem_of_mem_entries he) ⟨hvisible, p, hp, he⟩

end Workflow

/-! ### The listing -/

theorem Listing.isOneLine_heading (paths : List Path) : IsOneLine (heading paths) := by
  have hpoints : IsOneLine "Decision Points: " := isOneLine_ofList.2 (by decide)
  have hpower : IsOneLine " (2^" := isOneLine_ofList.2 (by decide)
  have hequals : IsOneLine " = " := isOneLine_ofList.2 (by decide)
  have hpaths : IsOneLine " paths)" := isOneLine_ofList.2 (by decide)
  rw [heading_eq]
  simp [isOneLine_append, isOneLine_repr, hpoints, hpower, hequals, hpaths]

theorem Listing.isOneLine_line {number : Nat} {p : Path} :
    IsOneLine (line o number p) ↔ ∀ s ∈ p.visible o, s.ShowsOneLine o := by
  have hpath : IsOneLine "Path " := isOneLine_ofList.2 (by decide)
  have hcolon : IsOneLine ": " := isOneLine_ofList.2 (by decide)
  have harrow : IsOneLine " → " := isOneLine_ofList.2 (by decide)
  rw [line_eq]
  simp [isOneLine_append, isOneLine_repr, Text.isOneLine_intercalate harrow, hpath, hcolon,
    Stop.isOneLine_listedText]

theorem Listing.forall_lines_iff :
    (∀ l ∈ lines o paths, IsOneLine l) ↔
      ∀ p ∈ paths, ∀ s ∈ p.visible o, s.ShowsOneLine o := by
  have hempty : IsOneLine "" := isOneLine_ofList.2 (by decide)
  have hlines : lines o paths =
      heading paths :: "" :: paths.zipIdx.map fun x => line o (x.2 + 1) x.1 := rfl
  rw [hlines, List.forall_mem_cons, List.forall_mem_cons, List.forall_mem_map]
  simp only [isOneLine_heading, hempty, true_and, isOneLine_line]
  constructor
  · intro hall p hp
    obtain ⟨i, hi⟩ := List.mem_iff_getElem?.1 hp
    exact hall (p, i) (List.mem_zipIdx_iff_getElem?.2 hi)
  · intro hall x hx
    exact hall x.1 (List.fst_mem_of_mem_zipIdx hx)

namespace Analysis

/-- What an analysis puts out, if it does. -/
theorem exists_of_ofWorkflow_eq_ok {text : String} (h : ofWorkflow o w = .ok text) :
    ∃ paths d, w.paths o = .ok paths ∧ Diagram.ofPaths o paths = .ok d ∧
      (o.format = .mermaid → text = Flowchart.text d (report? o w)) ∧
      (o.format = .paths → text = Listing.text o paths (report? o w)) := by
  simp only [ofWorkflow, bind_eq_ok_iff, mapError_eq_ok_iff, Output.render] at h
  obtain ⟨-, -, paths, hpaths, d, hd, htext⟩ := h
  refine ⟨paths, d, hpaths, hd, fun hformat => ?_, fun hformat => ?_⟩
  · rw [hformat] at htext
    exact (Except.ok.inj htext).symm
  · rw [hformat] at htext
    exact (Except.ok.inj htext).symm

/-- **The output has the lines that it is put together from exactly when it shows no newline.** A
flowchart is put together from the directive, a line for each node, one for each edge, one for each
node of an external signal and one for each finding that is attached; a listing without a report
from the heading, an empty line and a line for each path. The output falls apart into these lines,
each ended, or into as many, when the labels of the start, the end and all entries that are drawn
have no newline, and for the flowchart also the ids of these entries and the texts of the findings,
and only then. -/
theorem output_lines_iff {text : String} (h : ofWorkflow o w = .ok text) :
    ∃ paths d, w.paths o = .ok paths ∧ Diagram.ofPaths o paths = .ok d ∧
      (o.format = .mermaid →
        (splitLines text = "flowchart LR" :: d.nodes.map Flowchart.declaration
            ++ d.edges.map Flowchart.arrow
            ++ (d.nodes.filter (·.kind == .externalSignal)).map Flowchart.colours
            ++ (attached o w).map (fun x => "%% warning: " ++ x.text) ++ [""] ↔
          w.FlowchartOneLine o paths) ∧
        ((splitLines text).length = 1 + d.nodes.length + d.edges.length
            + (d.nodes.filter (·.kind == .externalSignal)).length + (attached o w).length + 1 ↔
          w.FlowchartOneLine o paths)) ∧
      (o.format = .paths → o.reportEnabled = false →
        (splitLines text = Listing.heading paths :: ""
            :: paths.zipIdx.map (fun x => "Path " ++ toString (x.2 + 1) ++ ": "
              ++ " → ".intercalate ((x.1.visible o).map (Stop.listedText o))) ++ [""] ↔
          w.LabelsOneLine o paths) ∧
        ((splitLines text).length = 2 + paths.length + 1 ↔ w.LabelsOneLine o paths)) := by
  obtain ⟨paths, d, hpaths, hd, hflowchart, hlisting⟩ := exists_of_ofWorkflow_eq_ok h
  refine ⟨paths, d, hpaths, hd, fun hformat => ?_, fun hformat hreport => ?_⟩
  · have hlines := Workflow.forall_flowchart_lines_iff hpaths hd
    have hlength : (Flowchart.lines d (report? o w)).length = 1 + d.nodes.length + d.edges.length
        + (d.nodes.filter (·.kind == .externalSignal)).length + (attached o w).length := by
      rw [Flowchart.lines_report?]
      simp only [List.length_append, List.length_cons, List.length_map]
      omega
    rw [hflowchart hformat, ← hlines, ← hlength, ← Flowchart.lines_report?]
    exact ⟨Text.splitLines_join_eq_iff, Text.length_splitLines_join_eq_iff⟩
  · have hlines := Listing.forall_lines_iff.trans (Workflow.forall_showsOneLine_iff hpaths)
    have hlength : (Listing.lines o paths).length = 2 + paths.length := by
      simp only [Listing.lines, List.length_cons, List.length_map, List.length_zipIdx]
      omega
    have htext : text = String.join ((Listing.lines o paths).map (· ++ "\n")) := by
      have hnone : report? o w = none := by
        rw [report?, hreport]
        rfl
      rw [hlisting hformat, hnone]
      exact String.append_empty
    rw [htext, ← hlines, ← hlength, ← Listing.lines_eq]
    exact ⟨Text.splitLines_join_eq_iff, Text.length_splitLines_join_eq_iff⟩

end Analysis

/-- A parcel is packed, in a step of the given name, and the receiver is told. -/
def Workflow.parcel (packing : String) : Workflow where
  name := "Parcel"
  steps := [
    ⟨.activity, packing, "1", 1, .always⟩,
    ⟨.externalSignal .dynamic, "Sent", "ext_sig_sent_2", 2, .always⟩]
  branches := []

namespace Analysis

open Workflow (parcel)

/-- The flowchart of a parcel with its report. -/
def parcelFlowchart : String :=
  "flowchart LR\ns((Start))\n1[Pack Parcel]\next_sig_sent_2[/\"Signal 'Sent'\"\\]\ne((End))\n"
    ++ "s --> 1\n1 -.signal.-> ext_sig_sent_2\next_sig_sent_2 -.signal.-> e\n"
    ++ "style ext_sig_sent_2 fill:#fff4e6,stroke:#ff9800\n"
    ++ "%% warning: line 2: target of signal 'Sent' is only known at runtime\n"

/-- The flowchart of a parcel falls apart into the lines that it is put together from. -/
theorem output_lines_iff_parcel :
    ofWorkflow { includeReport := true } (parcel "packParcel") = .ok parcelFlowchart ∧
      ∃ paths d, (parcel "packParcel").paths { includeReport := true } = .ok paths ∧
        Diagram.ofPaths { includeReport := true } paths = .ok d ∧
        splitLines parcelFlowchart = "flowchart LR" :: d.nodes.map Flowchart.declaration
          ++ d.edges.map Flowchart.arrow
          ++ (d.nodes.filter (·.kind == .externalSignal)).map Flowchart.colours
          ++ (attached { includeReport := true } (parcel "packParcel")).map
            (fun x => "%% warning: " ++ x.text) ++ [""] := by
  have h : ofWorkflow { includeReport := true } (parcel "packParcel") = .ok parcelFlowchart := by
    decide +kernel
  obtain ⟨paths, d, hpaths, hd, hflowchart, -⟩ := output_lines_iff h
  refine ⟨h, paths, d, hpaths, hd, (hflowchart rfl).1.2 ⟨⟨by decide, by decide, ?_⟩, ?_, ?_⟩⟩
  · intro e he _
    rcases List.mem_pair.1 he with rfl | rfl
    · exact ⟨by decide, by simp⟩
    · exact ⟨by decide, by simp⟩
  · intro e he _
    rcases List.mem_pair.1 he with rfl | rfl
    · decide
    · decide
  · decide +kernel

/-- A newline in the name of a step is shown, and divides the line of its node and that of its
path. -/
theorem parcel_lines_divided :
    (∃ text, ofWorkflow { showExternalSignals := false } (parcel "Pack\nShip") = .ok text ∧
      splitLines text = ["flowchart LR", "s((Start))", "1[Pack", "Ship]", "e((End))", "s --> 1",
        "1 --> e", ""]) ∧
    ∃ text, ofWorkflow { showExternalSignals := false, format := .paths } (parcel "Pack\nShip") =
        .ok text ∧
      splitLines text = ["Decision Points: 0 (2^0 = 1 paths)", "", "Path 1: Start → Pack",
        "Ship → End", ""] := by
  constructor
  · refine ⟨"flowchart LR\ns((Start))\n1[Pack\nShip]\ne((End))\ns --> 1\n1 --> e\n", ?_⟩
    decide +kernel
  · refine ⟨"Decision Points: 0 (2^0 = 1 paths)\n\nPath 1: Start → Pack\nShip → End\n", ?_⟩
    decide +kernel

end Analysis

end WorkflowPaths
