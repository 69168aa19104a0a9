import WorkflowPaths.Diagram.Document
import WorkflowPaths.Proofs.Diagram.Flow
import WorkflowPaths.Proofs.Documents

/-!
# Paths in the document of a diagram

The document of a diagram lists the ids along each path. A step is listed when the diagram has a
node with its id, so a signal that is hidden is left out, as in the listing of the paths, unless it
has the id of the start or the end. Such a signal is listed although it is not drawn, and then the
ids along its path are no walk through the edges of the document either.

What a reader takes from the text of a document is an `Outline`.
-/

namespace WorkflowPaths

/-! ### Reading a document -/

/-- What a document says by ids: which nodes there are, which of them are joined, and which are
along each path. -/
structure Outline where
  /-- The ids of the nodes. -/
  nodes : List String
  /-- The ids at both ends of the edges. -/
  edges : List (String × String)
  /-- The ids along each path. -/
  paths : List (List String)
deriving DecidableEq

namespace Outline

/-- The id of a node. -/
def node? (v : Json) : Option String := do
  let fields ← v.fields? ["id"]
  fields.required "id" Json.string?

/-- The ids at both ends of an edge. -/
def edge? (v : Json) : Option (String × String) := do
  let fields ← v.fields? ["from", "to"]
  return (← fields.required "from" Json.string?, ← fields.required "to" Json.string?)

/-- The ids along a path. -/
def path? (v : Json) : Option (List String) := do
  let fields ← v.fields? ["nodes"]
  fields.required "nodes" (Json.list? Json.string?)

/-- The outline that a document gives. -/
def ofJson? (v : Json) : Option Outline := do
  let fields ← v.fields? ["nodes", "edges", "paths"]
  return {
    nodes := ← fields.required "nodes" (Json.list? node?)
    edges := ← fields.required "edges" (Json.list? edge?)
    paths := ← fields.required "paths" (Json.list? path?) }

end Outline

open Json

theorem Node.isPlain_toJson (n : Node) : n.toJson.IsPlain := by
  refine .object ?_
  simp [IsPlain.string]

theorem Edge.isPlain_toJson (e : Edge) : e.toJson.IsPlain := by
  have hlabel : e.link.labelJson.IsPlain := by
    unfold Link.labelJson
    split
    · exact .string _
    · exact .null
  refine .object ?_
  simp [IsPlain.string, hlabel]

theorem Warning.isPlain_toJson (w : Warning) : w.toJson.IsPlain := by
  cases w <;> exact .object (by simp [IsPlain.string, isPlain_line])

namespace Diagram

theorem isPlain_pathJson (d : Diagram) (p : Path) : (d.pathJson p).IsPlain := by
  have houtcomes : (Json.object (p.outcomes.entries.map fun x => (x.1, .bool x.2))).IsPlain := by
    refine .object fun m hm => ?_
    obtain ⟨x, -, rfl⟩ := List.mem_map.1 hm
    exact .bool x.2
  have hids := IsPlain.array_map IsPlain.string (d.pathIds p)
  refine .object ?_
  simp [houtcomes, hids]

/-- A document with counts of 64 bits can be read. -/
theorem isPlain_document (d : Diagram) {paths : List Path} (report : Option Report)
    (hbranches : Listing.branchCount paths < UInt64.size) (hpaths : paths.length < UInt64.size) :
    (d.document paths report).IsPlain := by
  have hnodes := IsPlain.array_map Node.isPlain_toJson d.nodes
  have hedges := IsPlain.array_map Edge.isPlain_toJson d.edges
  have hruns := IsPlain.array_map d.isPlain_pathJson paths
  refine .object ?_
  cases report with
  | none => simp [IsPlain.nat, hbranches, hpaths, hnodes, hedges, hruns]
  | some r =>
    have hwarnings := IsPlain.array_map Warning.isPlain_toJson r.warnings
    simp [IsPlain.nat, hbranches, hpaths, hnodes, hedges, hruns, hwarnings]

/-- A reader of the document finds the nodes and the edges of the diagram, and the listed ids of
the paths. -/
theorem outline_document (d : Diagram) (paths : List Path) (report : Option Report) :
    Outline.ofJson? (d.document paths report) =
      some ⟨d.nodes.map Node.id, d.edges.map fun e => (e.source, e.target),
        paths.map d.pathIds⟩ := by
  have hnode (n : Node) : Outline.node? n.toJson = some n.id := rfl
  have hedge (e : Edge) : Outline.edge? e.toJson = some (e.source, e.target) := rfl
  have hpath (p : Path) : Outline.path? (d.pathJson p) = some (d.pathIds p) := by
    show list? string? (.array ((d.pathIds p).map .string)) = _
    rw [list?_map string?_string, List.map_id']
  have hnodes := list?_map hnode d.nodes
  have hedges := list?_map hedge d.edges
  have hpaths := list?_map hpath paths
  cases report <;>
    simp [document, Outline.ofJson?, fields?, Fields.required, hnodes, hedges, hpaths]

end Diagram

/-! ### What is listed -/

namespace Stop

/-- The stop is listed: it is visible, or it has the id of the start or the end. -/
def isListed (o : Options) (s : Stop) : Bool :=
  s.isVisible o || s.id == startId || s.id == finishId

theorem isListed_iff {o : Options} {s : Stop} :
    s.isListed o = true ↔ s.isVisible o = true ∨ s.id = startId ∨ s.id = finishId := by
  simp [isListed, or_assoc]

end Stop

/-- The signals on the path that are hidden leave the ids of the start and the end alone. -/
def Path.HidesNoReservedId (o : Options) (p : Path) : Prop :=
  ∀ s ∈ p.stops, s.isVisible o = false → s.id ≠ startId ∧ s.id ≠ finishId

namespace Path

variable {o : Options} {w : Workflow} {p : Path}

/-- Under the id of a listed stop, a visible stop is found on the same path. -/
theorem RunsThrough.exists_visible (h : p.RunsThrough w) {s : Stop} (hs : s ∈ p.stops)
    (hlisted : s.isListed o = true) : ∃ t ∈ p.visible o, t.id = s.id := by
  rcases Stop.isListed_iff.1 hlisted with hvisible | hid | hid
  · exact ⟨s, mem_visible.2 ⟨hs, hvisible⟩, rfl⟩
  · exact ⟨.start, h.start_mem_visible, hid.symm⟩
  · exact ⟨.finish, h.finish_mem_visible, hid.symm⟩

theorem RunsThrough.step_mem (h : p.RunsThrough w) {s : Step} (hs : .step s ∈ p.stops) :
    .step s ∈ w.entries :=
  h.mem_of_mem_entries (List.mem_filterMap.2 ⟨.step s, hs, rfl⟩)

/-- What is listed of a path is what is visible, exactly when it hides no reserved id. -/
theorem map_id_listed_eq_iff (p : Path) :
    (p.stops.filter (·.isListed o)).map Stop.id = (p.visible o).map Stop.id ↔
      p.HidesNoReservedId o := by
  have hvisible : p.visible o = (p.stops.filter (·.isListed o)).filter (·.isVisible o) := by
    rw [List.filter_filter, visible_eq]
    refine List.filter_congr fun s _ => ?_
    cases hs : s.isVisible o <;> simp [Stop.isListed, hs]
  constructor
  · intro heq s hs hhidden
    have hlength := congrArg List.length heq
    rw [List.length_map, List.length_map, hvisible] at hlength
    have hall := List.length_filter_eq_length_iff.1 hlength.symm
    by_contra hid
    have hlisted : s.isListed o = true := Stop.isListed_iff.2 (.inr (by tauto))
    have := hall s (List.mem_filter.2 ⟨hs, hlisted⟩)
    rw [hhidden] at this
    cases this
  · intro hp
    rw [visible_eq]
    refine congrArg (List.map Stop.id) (List.filter_congr fun s hs => ?_)
    cases hhidden : s.isVisible o with
    | true => exact Stop.isListed_iff.2 (.inl hhidden)
    | false =>
      obtain ⟨hstart, hfinish⟩ := hp s hs hhidden
      simp [Stop.isListed, hhidden, hstart, hfinish]

end Path

namespace Diagram

variable {o limits : Options} {w : Workflow} {paths : List Path} {d : Diagram} {p : Path}
  (h : w.paths limits = .ok paths) (hd : ofPaths o paths = .ok d)
include h hd

/-- The diagram has a node with the id of a stop exactly when the stop is listed. -/
theorem shows_eq_isListed (hp : p ∈ paths) {s : Stop} (hs : s ∈ p.stops) :
    d.shows s = s.isListed o := by
  have hw := Workflow.wellFormed_of_paths h
  have hruns (q : Path) (hq : q ∈ paths) := Path.runsThrough_of_mem_paths h hq
  have hunion := isUnion_of_ofPaths_of_ne_nil (Workflow.paths_ne_nil h) hd
  cases s with
  | start => simp [shows, Stop.isListed, Stop.isVisible_start]
  | finish => simp [shows, Stop.isListed, Stop.isVisible_finish]
  | branch b taken => simp [shows, Stop.isListed, Stop.isVisible_branch]
  | step s =>
    rw [Bool.eq_iff_iff]
    constructor
    · intro hshows
      -- The node was made for a visible stop: the start, the end, or the step itself.
      obtain ⟨t, ht, hid⟩ : ∃ t ∈ paths.flatMap (·.visible o), t.id = s.id := by
        by_contra! hnone
        rw [shows, hunion.node?_eq_none_iff.2 hnone] at hshows
        cases hshows
      obtain ⟨q, hq, htq⟩ := List.mem_flatMap.1 ht
      rcases (hruns q hq).mem_visible_iff.1 htq with rfl | rfl | ⟨e, he, hvisible, rfl⟩
      · exact Stop.isListed_iff.2 (.inr (.inl hid.symm))
      · exact Stop.isListed_iff.2 (.inr (.inr hid.symm))
      · rw [Stop.id_ofEntry] at hid
        obtain rfl : e = .step s :=
          hw.entry_eq_of_id_eq ((hruns q hq).mem_of_mem_entries he) ((hruns p hp).step_mem hs) hid
        have hstep := Stop.isVisible_ofEntry o p.outcomes (.step s)
        exact Stop.isListed_iff.2 (.inl (hstep.trans hvisible))
    · intro hlisted
      obtain ⟨t, ht, hid⟩ := (hruns p hp).exists_visible hs hlisted
      obtain ⟨n, hn, -⟩ := hunion.exists_node? (List.mem_flatMap.2 ⟨p, hp, ht⟩)
      show (d.node? (Stop.step s).id).isSome = true
      rw [← hid, hn]
      rfl

theorem pathIds_eq (hp : p ∈ paths) :
    d.pathIds p = (p.stops.filter (·.isListed o)).map Stop.id := by
  refine congrArg (List.map Stop.id) (List.filter_congr fun s hs => ?_)
  exact shows_eq_isListed h hd hp hs

/-- Every id along a path is that of a node. -/
theorem mem_ids_of_mem_pathIds (hp : p ∈ paths) {id : String} (hid : id ∈ d.pathIds p) :
    id ∈ d.nodes.map Node.id := by
  have hruns (q : Path) (hq : q ∈ paths) := Path.runsThrough_of_mem_paths h hq
  rw [pathIds_eq h hd hp] at hid
  obtain ⟨s, hs, rfl⟩ := List.mem_map.1 hid
  obtain ⟨hs, hlisted⟩ := List.mem_filter.1 hs
  obtain ⟨t, ht, hid⟩ := (hruns p hp).exists_visible hs hlisted
  rw [← hid]
  have hnode := node_mem_nodes hruns hd (Workflow.wellFormed_of_paths h) hp ht
  exact List.mem_map.2 ⟨t.node o, hnode, rfl⟩

/-- No edge enters the start, and none leaves the end. -/
theorem target_ne_startId_and_source_ne_finishId {e : Edge} (he : e ∈ d.edges) :
    e.target ≠ startId ∧ e.source ≠ finishId := by
  have hw := Workflow.wellFormed_of_paths h
  have hne := Workflow.paths_ne_nil h
  have hruns (q : Path) (hq : q ∈ paths) := Path.runsThrough_of_mem_paths h hq
  obtain ⟨p, hp⟩ := List.exists_mem_of_ne_nil paths hne
  have hstart := node_mem_nodes hruns hd hw hp (hruns p hp).start_mem_visible
  have hfinish := node_mem_nodes hruns hd hw hp (hruns p hp).finish_mem_visible
  exact ⟨(forall_target_ne_iff hruns hd hw hne hstart).2 rfl e he,
    (forall_source_ne_iff hruns hd hw hne hfinish).2 rfl e he⟩

/-- A hidden stop with a reserved id is listed between the start and the end. -/
theorem exists_between_of_hidden (hp : p ∈ paths) {s : Stop} (hs : s ∈ p.stops)
    (hhidden : s.isVisible o = false) (hid : s.id = startId ∨ s.id = finishId) :
    ∃ between, d.pathIds p = startId :: between ++ [finishId] ∧ s.id ∈ between := by
  have hrun := Path.runsThrough_of_mem_paths h hp
  have hlisted : s.isListed o = true := Stop.isListed_iff.2 (.inr hid)
  refine ⟨((p.entries.map (.ofEntry p.outcomes)).filter (·.isListed o)).map Stop.id, ?_, ?_⟩
  · have hstart : Stop.isListed o .start = true := Stop.isListed_iff.2 (.inr (.inl rfl))
    have hfinish : Stop.isListed o .finish = true := Stop.isListed_iff.2 (.inr (.inr rfl))
    rw [pathIds_eq h hd hp, hrun.stops_eq, List.cons_append, List.filter_cons_of_pos hstart,
      List.filter_append, List.filter_cons_of_pos hfinish, List.filter_nil, List.map_cons,
      List.map_append]
    rfl
  · rw [hrun.stops_eq, List.mem_append, List.mem_cons, List.mem_singleton] at hs
    rcases hs with (rfl | hs) | rfl
    · rw [Stop.isVisible_start] at hhidden
      cases hhidden
    · exact List.mem_map_of_mem (List.mem_filter.2 ⟨hs, hlisted⟩)
    · rw [Stop.isVisible_finish] at hhidden
      cases hhidden

/-- The ids along a path are a walk through the edges exactly when the path hides no reserved id. -/
theorem forall_infix_pathIds_iff (hp : p ∈ paths) :
    (∀ a b, [a, b] <:+: d.pathIds p → (a, b) ∈ d.edges.map fun e => (e.source, e.target)) ↔
      p.HidesNoReservedId o := by
  constructor
  · intro hwalk s hs hhidden
    constructor
    · intro hid
      obtain ⟨between, heq, hmem⟩ := exists_between_of_hidden h hd hp hs hhidden (.inl hid)
      obtain ⟨a, ha⟩ := exists_infix_before (a := startId)
        (List.mem_append_left [finishId] (hid ▸ hmem))
      obtain ⟨e, he, hends⟩ := List.mem_map.1 (hwalk a startId (heq ▸ ha))
      exact (target_ne_startId_and_source_ne_finishId h hd he).1 (congrArg Prod.snd hends)
    · intro hid
      obtain ⟨between, heq, hmem⟩ := exists_between_of_hidden h hd hp hs hhidden (.inr hid)
      obtain ⟨b, hb⟩ := exists_infix_after (z := finishId)
        (List.mem_cons_of_mem startId (hid ▸ hmem))
      obtain ⟨e, he, hends⟩ := List.mem_map.1 (hwalk finishId b (heq ▸ hb))
      exact (target_ne_startId_and_source_ne_finishId h hd he).2 (congrArg Prod.fst hends)
  · intro hhides a b hab
    rw [pathIds_eq h hd hp, (Path.map_id_listed_eq_iff p).2 hhides] at hab
    obtain ⟨l, hl, heq⟩ := List.infix_map_iff.1 hab
    match l, heq with
    | [s, t], heq =>
      obtain ⟨rfl, rfl⟩ : a = s.id ∧ b = t.id := by simpa using heq
      have hedge := (mem_edges_ofPaths_iff (Workflow.paths_ne_nil h) hd).2 ⟨p, hp, s, t, hl, rfl⟩
      exact List.mem_map.2 ⟨s.edgeTo o t, hedge, rfl⟩

end Diagram

namespace Workflow

variable {o limits : Options} {w : Workflow} {paths : List Path} {d : Diagram}

/-- The paths that are enumerated can be counted with 64 bits, and so can the branch points. -/
theorem counts_lt_size (h : w.paths limits = .ok paths) :
    Listing.branchCount paths < UInt64.size ∧ paths.length < UInt64.size := by
  obtain ⟨hoptions, hlimits, -, -⟩ := paths_eq_ok_iff.1 h
  have hle : w.branches.length ≤ 63 :=
    (length_branches_le_of_checkLimits hlimits).trans (maxDecisionPoints_le_of_check hoptions)
  have hpow : 2 ^ w.branches.length ≤ 2 ^ 63 := Nat.pow_le_pow_right (by decide) hle
  rw [branchCount_paths h, length_paths h]
  constructor
  · exact Nat.lt_of_le_of_lt hle (by decide)
  · exact Nat.lt_of_le_of_lt hpow (by decide)

/-- What a reader of the document finds is also found in its text. -/
theorem outline_read?_document (d : Diagram) (h : w.paths limits = .ok paths)
    (report : Option Report) :
    (Json.read? (d.document paths report).pretty).bind Outline.ofJson? =
      some ⟨d.nodes.map Node.id, d.edges.map fun e => (e.source, e.target),
        paths.map d.pathIds⟩ := by
  obtain ⟨hbranches, hpaths⟩ := counts_lt_size h
  rw [(d.isPlain_document report hbranches hpaths).read?_pretty]
  exact d.outline_document paths report

/-- **The paths of a document are those of the listing unless a hidden signal has a reserved id.**
The text of the document can be read, and gives the ids of the nodes, the ends of the edges, and
the ids along each path, all of which are ids of nodes. Along a path are listed the visible stops,
in order, and the hidden signals with the id of the start or the end. So the ids are those of the
stops that the listing shows exactly when no hidden signal on the path has such an id, and exactly
then every two ids in a row are the ends of an edge. -/
theorem document_paths_match_listing_iff (h : w.paths limits = .ok paths)
    (hd : Diagram.ofPaths o paths = .ok d) (report : Option Report) :
    ∃ outline, (Json.read? (d.document paths report).pretty).bind Outline.ofJson? = some outline ∧
      outline.nodes = d.nodes.map Node.id ∧
      (outline.edges = d.edges.map fun e => (e.source, e.target)) ∧
      outline.paths.length = paths.length ∧
      ∀ (k : Nat) (p : Path) (ids : List String), paths[k]? = some p →
        outline.paths[k]? = some ids →
        ids = (p.stops.filter fun s => s.isVisible o || s.id == startId || s.id == finishId).map
          Stop.id ∧
        (∀ id ∈ ids, id ∈ outline.nodes) ∧
        (ids = (p.visible o).map Stop.id ↔
          ∀ s ∈ p.stops, s.isVisible o = false → s.id ≠ startId ∧ s.id ≠ finishId) ∧
        ((∀ a b, [a, b] <:+: ids → (a, b) ∈ outline.edges) ↔
          ∀ s ∈ p.stops, s.isVisible o = false → s.id ≠ startId ∧ s.id ≠ finishId) := by
  refine ⟨_, outline_read?_document d h report, rfl, rfl, List.length_map .., ?_⟩
  intro k p ids hk hids
  have hp : p ∈ paths := List.mem_of_getElem? hk
  obtain rfl : d.pathIds p = ids := by simpa [hk] using hids
  have heq := Diagram.pathIds_eq h hd hp
  refine ⟨heq, fun id hid => Diagram.mem_ids_of_mem_pathIds h hd hp hid, ?_, ?_⟩
  · rw [heq]
    exact Path.map_id_listed_eq_iff p
  · exact Diagram.forall_infix_pathIds_iff h hd hp

/-- An invoice is booked, and if it is overdue, a reminder with the given id is sent before. -/
def invoice (reminder : String) : Workflow where
  name := "Invoice"
  steps := [
    ⟨.externalSignal .dynamic, "Remind", reminder, 2, .known [⟨"d0", true⟩]⟩,
    ⟨.activity, "Book", "1", 3, .always⟩]
  branches := [⟨.decision, "Overdue", "d0", 1, .always⟩]

/-- The diagram of an invoice, the reminder hidden. -/
def invoiceDiagram : Diagram :=
  .of [
    ⟨"s", .start, "Start"⟩,
    ⟨"d0", .decision, "Overdue"⟩,
    ⟨"1", .activity, "Book"⟩,
    ⟨"e", .finish, "End"⟩] [
    ⟨"s", "d0", .plain⟩,
    ⟨"d0", "1", .branch "no"⟩,
    ⟨"1", "e", .plain⟩,
    ⟨"d0", "1", .branch "yes"⟩]

/-- With an id of its own, the reminder is hidden from the document as well. -/
theorem document_paths_match_listing_iff_invoice :
    (invoice "ext_sig_remind_2").paths { showExternalSignals := false } =
        .ok (invoice "ext_sig_remind_2").allPaths ∧
      Diagram.ofPaths { showExternalSignals := false } (invoice "ext_sig_remind_2").allPaths =
        .ok invoiceDiagram ∧
      ∃ outline, (Json.read? (invoiceDiagram.document (invoice "ext_sig_remind_2").allPaths
          none).pretty).bind Outline.ofJson? = some outline ∧
        outline.paths.length = 2 ∧
        ∀ (k : Nat) (p : Path) (ids : List String),
          (invoice "ext_sig_remind_2").allPaths[k]? = some p → outline.paths[k]? = some ids →
          ids = (p.visible { showExternalSignals := false }).map Stop.id ∧
            ∀ a b, [a, b] <:+: ids → (a, b) ∈ outline.edges := by
  have hpaths : (invoice "ext_sig_remind_2").paths { showExternalSignals := false } =
      .ok (invoice "ext_sig_remind_2").allPaths :=
    paths_eq_ok_iff.2 ⟨by decide +kernel, by decide +kernel, by decide +kernel, rfl⟩
  have hd : Diagram.ofPaths { showExternalSignals := false }
      (invoice "ext_sig_remind_2").allPaths = .ok invoiceDiagram := by
    decide +kernel
  have hown : ∀ p ∈ (invoice "ext_sig_remind_2").allPaths, ∀ s ∈ p.stops,
      s.isVisible { showExternalSignals := false } = false →
        s.id ≠ startId ∧ s.id ≠ finishId := by
    decide +kernel
  obtain ⟨outline, hread, -, -, hlength, hlisted⟩ :=
    document_paths_match_listing_iff hpaths hd none
  refine ⟨hpaths, hd, outline, hread, hlength, fun k p ids hk hids => ?_⟩
  obtain ⟨-, -, hvisible, hwalk⟩ := hlisted k p ids hk hids
  have hp := hown p (List.mem_of_getElem? hk)
  exact ⟨hvisible.2 hp, hwalk.2 hp⟩

/-- With the id of the start, the hidden reminder is listed in the document, where no edge leads. -/
theorem invoice_document_lists_hidden_reminder :
    (invoice startId).paths { showExternalSignals := false } = .ok (invoice startId).allPaths ∧
      Diagram.ofPaths { showExternalSignals := false } (invoice startId).allPaths =
        .ok invoiceDiagram ∧
      ∃ outline, (Json.read? (invoiceDiagram.document (invoice startId).allPaths
          none).pretty).bind Outline.ofJson? = some outline ∧
        outline.paths = [["s", "d0", "1", "e"], ["s", "d0", "s", "1", "e"]] ∧
        ((invoice startId).allPaths.map fun p =>
            (p.visible { showExternalSignals := false }).map Stop.id) =
          [["s", "d0", "1", "e"], ["s", "d0", "1", "e"]] ∧
        ("d0", "s") ∉ outline.edges := by
  have hpaths : (invoice startId).paths { showExternalSignals := false } =
      .ok (invoice startId).allPaths :=
    paths_eq_ok_iff.2 ⟨by decide +kernel, by decide +kernel, by decide +kernel, rfl⟩
  refine ⟨hpaths, by decide +kernel, _, outline_read?_document invoiceDiagram hpaths none, ?_⟩
  decide +kernel

end Workflow

end WorkflowPaths
