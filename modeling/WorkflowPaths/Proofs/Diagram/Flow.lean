import Mathlib.Data.List.Chain
import WorkflowPaths.Proofs.Diagram.Conflicts
import WorkflowPaths.Proofs.Path.Reachability

/-!
# The diagram of a workflow flows forward

The nodes of a workflow have places in a row: the start, the entries in source order, the end
(`Workflow.places`). Every path passes some of them in this order, so every edge of the diagram leads
to a later place, and a diagram of a workflow has no circles. Nothing that is on a path is first or
last on it but the start and the end, so every other node can be entered and left.

A branch point of the diagram can be left with both outcomes: the path on which only its outcome is
different comes by it too.
-/

namespace WorkflowPaths

/-! ### Neighbours in a list -/

theorem exists_infix_before {α : Type} {a x : α} {l : List α} (h : x ∈ l) :
    ∃ y, [y, x] <:+: a :: l := by
  induction l generalizing a with
  | nil => cases h
  | cons b r ih =>
    rcases List.mem_cons.1 h with rfl | h
    · exact ⟨a, [], r, rfl⟩
    · obtain ⟨y, hy⟩ := ih (a := b) h
      exact ⟨y, List.infix_cons hy⟩

theorem exists_infix_after {α : Type} {x z : α} {l : List α} (h : x ∈ l) :
    ∃ y, [x, y] <:+: l ++ [z] := by
  obtain ⟨before, after, rfl⟩ := List.append_of_mem h
  cases after with
  | nil => exact ⟨z, before, [], by simp⟩
  | cons y r => exact ⟨y, before, r ++ [z], by simp⟩

/-- In a row in which nothing stands twice, nothing stands before the first. -/
theorem not_sublist_head {α : Type} {a x : α} {l : List α} (h : (a :: l).Nodup) :
    ¬ [x, a].Sublist (a :: l) := by
  intro hsub
  have hmem : a ∈ l := by
    cases hsub with
    | cons _ hsub => exact hsub.subset (by simp)
    | cons_cons _ hsub => exact hsub.subset (by simp)
  exact (List.nodup_cons.1 h).1 hmem

/-- In a row in which nothing stands twice, nothing stands behind the last. -/
theorem not_sublist_last {α : Type} {z x : α} {l : List α} (h : (l ++ [z]).Nodup) :
    ¬ [z, x].Sublist (l ++ [z]) := by
  intro hsub
  have hreverse : (z :: l.reverse).Nodup := by simpa using List.nodup_reverse.2 h
  exact not_sublist_head hreverse (by simpa using hsub.reverse)

/-! ### The row of places -/

namespace Workflow

variable {o : Options} {w : Workflow} {paths : List Path} {p : Path} {d : Diagram}

/-- The nodes of the start, of all entries in source order, and of the end. -/
def places (o : Options) (w : Workflow) : List Node :=
  Stop.start.node o :: w.timeline.map (Entry.node o) ++ [Stop.finish.node o]

/-- No two places have the same node. -/
theorem WellFormed.nodup_places (hw : w.WellFormed) : (w.places o).Nodup := by
  have hentries : (w.timeline.map (Entry.node o)).Nodup := by
    refine List.Nodup.of_map Node.id ?_
    rw [List.map_map]
    have hids : (w.timeline.map Entry.id).Nodup :=
      (w.timeline_perm.map Entry.id).nodup_iff.2 hw.ids_nodup
    simpa [Function.comp_def] using hids
  rw [places, List.nodup_append, List.nodup_cons]
  refine ⟨⟨?_, hentries⟩, List.nodup_singleton _, ?_⟩
  · intro hmem
    obtain ⟨e, -, he⟩ := List.mem_map.1 hmem
    exact e.kind_ne_start ((e.kind_node o).symm.trans (congrArg Node.kind he))
  · intro a ha b hb hab
    obtain rfl := List.mem_singleton.1 hb
    rcases List.mem_cons.1 ha with rfl | ha
    · have hkind : NodeKind.start = .finish := congrArg Node.kind hab
      cases hkind
    · obtain ⟨e, -, rfl⟩ := List.mem_map.1 ha
      exact e.kind_ne_finish ((e.kind_node o).symm.trans (congrArg Node.kind hab))

/-- A path passes its places in order. -/
theorem map_node_visible_sublist (h : p.RunsThrough w) :
    ((p.visible o).map (Stop.node o)).Sublist (w.places o) := by
  have hentries : (p.entries.filter (·.isVisible o)).Sublist w.timeline := by
    rw [h.entries_eq]
    exact List.filter_sublist.trans List.filter_sublist
  rw [h.visible_eq, places, List.map_append, List.map_cons, List.map_map]
  refine List.Sublist.append (List.Sublist.cons_cons _ ?_) (List.Sublist.refl _)
  have hnodes : Stop.node o ∘ Stop.ofEntry p.outcomes = Entry.node o :=
    funext fun e => Stop.node_ofEntry o p.outcomes e
  rw [hnodes]
  exact hentries.map (Entry.node o)

end Workflow

namespace Diagram

/-- The stops are a walk through the diagram from the start to the end: they are shown, and each is
joined to the next one by the edge of the outcome that it has. -/
structure IsWalk (o : Options) (d : Diagram) (stops : List Stop) : Prop where
  /-- The walk starts at the start. -/
  starts : stops.head? = some .start
  /-- The walk ends at the end. -/
  ends : stops.getLast? = some .finish
  /-- Every stop has a node. -/
  shown : ∀ s ∈ stops, s.node o ∈ d.nodes
  /-- Every stop is joined to the next one. -/
  joined : stops.IsChain fun s t => s.edgeTo o t ∈ d.edges

section

variable {o : Options} {w : Workflow} {paths : List Path} {d : Diagram} {p : Path} {s t : Stop}
  (hruns : ∀ p ∈ paths, p.RunsThrough w) (h : ofPaths o paths = .ok d)
include hruns h

/-! ### Before and behind a stop -/

/-- Every visible stop but the start is entered. -/
theorem eq_start_or_exists_edge (hp : p ∈ paths) (ht : t ∈ p.visible o) :
    t = .start ∨ ∃ s : Stop, s.edgeTo o t ∈ d.edges := by
  have hvisible := (hruns p hp).visible_eq (o := o)
  rw [hvisible, List.cons_append] at ht
  rcases List.mem_cons.1 ht with hstart | hbehind
  · exact .inl hstart
  · obtain ⟨s, hst⟩ := exists_infix_before hbehind
    rw [← List.cons_append, ← hvisible] at hst
    exact .inr ⟨s, (mem_edges_ofPaths_iff (List.ne_nil_of_mem hp) h).2 ⟨p, hp, s, t, hst, rfl⟩⟩

/-- Every visible stop but the end is left. -/
theorem eq_finish_or_exists_edge (hp : p ∈ paths) (hs : s ∈ p.visible o) :
    s = .finish ∨ ∃ t : Stop, s.edgeTo o t ∈ d.edges := by
  have hvisible := (hruns p hp).visible_eq (o := o)
  rw [hvisible] at hs
  rcases List.mem_append.1 hs with hbefore | hlast
  · obtain ⟨t, hst⟩ := exists_infix_after (z := Stop.finish) hbefore
    rw [← hvisible] at hst
    exact .inr ⟨t, (mem_edges_ofPaths_iff (List.ne_nil_of_mem hp) h).2 ⟨p, hp, s, t, hst, rfl⟩⟩
  · exact .inl (List.mem_singleton.1 hlast)

/-- A branch point on a path is left with the outcome that it has there. -/
theorem exists_outcome_edge (hp : p ∈ paths) {b : Branch} {taken : Bool}
    (hstop : .branch b taken ∈ p.stops) :
    ∃ e ∈ d.edges, e.source = b.id ∧ e.link = .branch (b.outcomeLabel o taken) := by
  have hvisible : .branch b taken ∈ p.visible o :=
    Path.mem_visible.2 ⟨hstop, Stop.isVisible_branch o b taken⟩
  rcases eq_finish_or_exists_edge hruns h hp hvisible with hfinish | ⟨t, hedge⟩
  · cases hfinish
  · exact ⟨_, hedge, rfl, rfl⟩

/-! ### Walks -/

variable (hw : w.WellFormed)
include hw

/-- The node of every visible stop is in the diagram. -/
theorem node_mem_nodes (hp : p ∈ paths) (hs : s ∈ p.visible o) : s.node o ∈ d.nodes := by
  have hunion := isUnion_of_ofPaths_of_ne_nil (List.ne_nil_of_mem hp) h
  have hmem : s ∈ paths.flatMap (·.visible o) := List.mem_flatMap.2 ⟨p, hp, hs⟩
  refine (hunion.mem_nodes_iff fun s hs t ht => ?_).2 ⟨s, hmem, rfl⟩
  exact node_eq_of_id_eq hw hruns h hs ht

/-- The node of a visible stop is found under its id. -/
theorem node?_id (hp : p ∈ paths) (hs : s ∈ p.visible o) : d.node? s.id = some (s.node o) := by
  have hunion := isUnion_of_ofPaths_of_ne_nil (List.ne_nil_of_mem hp) h
  exact hunion.node?_eq_some_iff.2 ⟨node_mem_nodes hruns h hw hp hs, rfl⟩

/-- What is drawn of a path is a walk. -/
theorem isWalk_visible (hp : p ∈ paths) : d.IsWalk o (p.visible o) where
  starts := by
    rw [(hruns p hp).visible_eq]
    rfl
  ends := by
    rw [(hruns p hp).visible_eq]
    exact List.getLast?_concat
  shown := fun s hs => node_mem_nodes hruns h hw hp hs
  joined := by
    refine List.IsChain.imp (fun s t hst => ?_) (List.isChain_isInfix (p.visible o))
    exact (mem_edges_ofPaths_iff (List.ne_nil_of_mem hp) h).2 ⟨p, hp, s, t, hst, rfl⟩

/-! ### Forward edges -/

/-- Every edge leads to a later place. -/
theorem exists_forward_ends (hne : paths ≠ []) {e : Edge} (he : e ∈ d.edges) :
    ∃ a b, d.node? e.source = some a ∧ d.node? e.target = some b ∧
      [a, b].Sublist (w.places o) := by
  obtain ⟨p, hp, s, t, hst, rfl⟩ := (mem_edges_ofPaths_iff hne h).1 he
  have hs : s ∈ p.visible o := hst.subset (by simp)
  have ht : t ∈ p.visible o := hst.subset (by simp)
  refine ⟨s.node o, t.node o, node?_id hruns h hw hp hs, node?_id hruns h hw hp ht, ?_⟩
  exact (hst.sublist.map (Stop.node o)).trans (Workflow.map_node_visible_sublist (hruns p hp))

/-- Only the start is never entered. -/
theorem forall_target_ne_iff (hne : paths ≠ []) {n : Node} (hn : n ∈ d.nodes) :
    (∀ e ∈ d.edges, e.target ≠ n.id) ↔ n = Stop.start.node o := by
  constructor
  · intro hnever
    obtain ⟨t, ht, rfl⟩ := (isUnion_of_ofPaths_of_ne_nil hne h).exists_stop_of_mem_nodes hn
    obtain ⟨p, hp, htp⟩ := List.mem_flatMap.1 ht
    rcases eq_start_or_exists_edge hruns h hp htp with rfl | ⟨s, hedge⟩
    · rfl
    · exact absurd rfl (hnever _ hedge)
  · rintro rfl e he htarget
    obtain ⟨p, hp⟩ := List.exists_mem_of_ne_nil paths hne
    obtain ⟨a, b, -, hb, hab⟩ := exists_forward_ends hruns h hw hne he
    have hstart : d.node? e.target = some (Stop.start.node o) := by
      rw [htarget]
      exact node?_id hruns h hw hp (hruns p hp).start_mem_visible
    obtain rfl := Option.some.inj (hb.symm.trans hstart)
    exact not_sublist_head hw.nodup_places hab

/-- Only the end is never left. -/
theorem forall_source_ne_iff (hne : paths ≠ []) {n : Node} (hn : n ∈ d.nodes) :
    (∀ e ∈ d.edges, e.source ≠ n.id) ↔ n = Stop.finish.node o := by
  constructor
  · intro hnever
    obtain ⟨s, hs, rfl⟩ := (isUnion_of_ofPaths_of_ne_nil hne h).exists_stop_of_mem_nodes hn
    obtain ⟨p, hp, hsp⟩ := List.mem_flatMap.1 hs
    rcases eq_finish_or_exists_edge hruns h hp hsp with rfl | ⟨t, hedge⟩
    · rfl
    · exact absurd rfl (hnever _ hedge)
  · rintro rfl e he hsource
    obtain ⟨p, hp⟩ := List.exists_mem_of_ne_nil paths hne
    obtain ⟨a, b, ha, -, hab⟩ := exists_forward_ends hruns h hw hne he
    have hfinish : d.node? e.source = some (Stop.finish.node o) := by
      rw [hsource]
      exact node?_id hruns h hw hp (hruns p hp).finish_mem_visible
    obtain rfl := Option.some.inj (ha.symm.trans hfinish)
    exact not_sublist_last hw.nodup_places hab

end

end Diagram

namespace Workflow

variable {o : Options} {w : Workflow} {paths : List Path} {d : Diagram}

/-- A node of a branch point can be left with both outcomes. -/
theorem exists_edge_of_isBranch (h : w.paths o = .ok paths) (hd : Diagram.ofPaths o paths = .ok d)
    {n : Node} (hn : n ∈ d.nodes) (hkind : n.kind.isBranch = true) :
    ∃ b ∈ w.branches, b.id = n.id ∧ ∀ taken, ∃ e ∈ d.edges, e.source = n.id ∧
      e.link = .branch (b.outcomeLabel o taken) := by
  have hruns (p : Path) (hp : p ∈ paths) := Path.runsThrough_of_mem_paths h hp
  have hunion := Diagram.isUnion_of_ofPaths_of_ne_nil (paths_ne_nil h) hd
  obtain ⟨s, hs, rfl⟩ := hunion.exists_stop_of_mem_nodes hn
  obtain ⟨p, hp, hsp⟩ := List.mem_flatMap.1 hs
  have hstop : s ∈ p.stops := List.mem_of_mem_filter hsp
  cases s with
  | start | finish => cases hkind
  | step s =>
    rw [Stop.kind_node, Stop.kind, s.isBranch_kind] at hkind
    cases hkind
  | branch b taken =>
    have hentry := ((hruns p hp).branch_mem_stops_iff.1 hstop).1
    have hb := branch_mem_entries.1 ((hruns p hp).mem_of_mem_entries hentry)
    refine ⟨b, hb, rfl, fun outcome => ?_⟩
    by_cases hsame : outcome = taken
    · rw [hsame]
      exact Diagram.exists_outcome_edge hruns hd hp hstop
    · obtain ⟨q, hq, hflip⟩ := exists_path_flip h hp hstop
      rw [Bool.eq_not_of_ne hsame]
      exact Diagram.exists_outcome_edge hruns hd hq hflip

/-- **The diagram of a workflow flows forward from the start to the end.** The start, the entries in
source order and the end have different places in a row, and every edge leads to a later place. The
start is the only node that is never entered, and the end the only one that is never left. What is
drawn of a path is a walk from the start to the end, along the edges of its own outcomes, and every
node is on such a walk. The node of a branch point is left by an edge with the label of each of its
outcomes. -/
theorem diagram_flows_forward (h : w.paths o = .ok paths) (hd : Diagram.ofPaths o paths = .ok d) :
    ((w.places o).Nodup ∧ w.timeline.Perm w.entries ∧ w.timeline.Pairwise w.ComesBefore ∧
      ∀ e ∈ d.edges, ∃ a b, d.node? e.source = some a ∧ d.node? e.target = some b ∧
        [a, b].Sublist (w.places o)) ∧
    (Stop.start.node o ∈ d.nodes ∧ ∀ n ∈ d.nodes,
      ((∀ e ∈ d.edges, e.target ≠ n.id) ↔ n = Stop.start.node o)) ∧
    (Stop.finish.node o ∈ d.nodes ∧ ∀ n ∈ d.nodes,
      ((∀ e ∈ d.edges, e.source ≠ n.id) ↔ n = Stop.finish.node o)) ∧
    (∀ p ∈ paths, d.IsWalk o (p.visible o)) ∧
    (∀ n ∈ d.nodes, ∃ p ∈ paths, ∃ s ∈ p.visible o, s.node o = n) ∧
    ∀ n ∈ d.nodes, n.kind = .decision ∨ n.kind = .signalWait →
      ∃ b ∈ w.branches, b.id = n.id ∧ ∀ taken, ∃ e ∈ d.edges, e.source = n.id ∧
        e.link.label = some (b.outcomeLabel o taken) := by
  have hw := wellFormed_of_paths h
  have hne := paths_ne_nil h
  have hruns (p : Path) (hp : p ∈ paths) := Path.runsThrough_of_mem_paths h hp
  have hwalks (p : Path) (hp : p ∈ paths) := Diagram.isWalk_visible hruns hd hw hp
  obtain ⟨p, hp⟩ := List.exists_mem_of_ne_nil paths hne
  refine ⟨⟨hw.nodup_places, w.timeline_perm, w.pairwise_timeline, fun e he => ?_⟩,
    ⟨(hwalks p hp).shown _ (hruns p hp).start_mem_visible, fun n hn => ?_⟩,
    ⟨(hwalks p hp).shown _ (hruns p hp).finish_mem_visible, fun n hn => ?_⟩,
    hwalks, fun n hn => ?_, fun n hn hkind => ?_⟩
  · exact Diagram.exists_forward_ends hruns hd hw hne he
  · exact Diagram.forall_target_ne_iff hruns hd hw hne hn
  · exact Diagram.forall_source_ne_iff hruns hd hw hne hn
  · have hunion := Diagram.isUnion_of_ofPaths_of_ne_nil hne hd
    obtain ⟨s, hs, hnode⟩ := hunion.exists_stop_of_mem_nodes hn
    obtain ⟨q, hq, hsq⟩ := List.mem_flatMap.1 hs
    exact ⟨q, hq, s, hsq, hnode⟩
  · have hbranch : n.kind.isBranch = true := by
      rcases hkind with hkind | hkind <;> rw [hkind] <;> rfl
    obtain ⟨b, hb, hid, hedges⟩ := exists_edge_of_isBranch h hd hn hbranch
    refine ⟨b, hb, hid, fun taken => ?_⟩
    obtain ⟨e, he, hsource, hlink⟩ := hedges taken
    exact ⟨e, he, hsource, by rw [hlink, Link.label]⟩

/-- The diagram of orders above a limit. -/
def orderApprovalDiagram : Diagram :=
  .of [
    ⟨"s", .start, "Start"⟩,
    ⟨"1", .activity, "Reserve"⟩,
    ⟨"d0", .decision, "Above Limit"⟩,
    ⟨"e", .finish, "End"⟩,
    ⟨"sig_approved_3", .signalWait, "Approved"⟩,
    ⟨"2", .activity, "Ship"⟩] [
    ⟨"s", "1", .plain⟩,
    ⟨"1", "d0", .plain⟩,
    ⟨"d0", "e", .branch "no"⟩,
    ⟨"d0", "sig_approved_3", .branch "yes"⟩,
    ⟨"sig_approved_3", "e", .branch "no"⟩,
    ⟨"sig_approved_3", "2", .branch "yes"⟩,
    ⟨"2", "e", .plain⟩]

theorem diagram_flows_forward_orderApproval :
    orderApproval.paths {} = .ok orderApproval.allPaths ∧
      Diagram.ofPaths {} orderApproval.allPaths = .ok orderApprovalDiagram ∧
      (∀ p ∈ orderApproval.allPaths, orderApprovalDiagram.IsWalk {} (p.visible {})) ∧
      ∀ taken, ∃ e ∈ orderApprovalDiagram.edges, e.source = approved.id ∧
        e.link.label = some (approved.outcomeLabel {} taken) := by
  have hd : Diagram.ofPaths {} orderApproval.allPaths = .ok orderApprovalDiagram := by
    decide +kernel
  obtain ⟨-, -, -, hwalks, -, houtcomes⟩ := diagram_flows_forward orderApproval_paths hd
  refine ⟨orderApproval_paths, hd, hwalks, ?_⟩
  obtain ⟨b, hb, hid, hedges⟩ :=
    houtcomes ⟨approved.id, .signalWait, "Approved"⟩ (by decide +kernel) (.inr rfl)
  rcases List.mem_pair.1 hb with rfl | rfl
  · exact absurd hid (by decide)
  · exact hedges

end Workflow

end WorkflowPaths
