import WorkflowPaths.Proofs.Diagram.Union
import WorkflowPaths.Proofs.Path.Contents

/-!
# Conflicts between stops

The paths of a workflow make no diagram when two visible stops of different kinds have the same id.
The entries of a well-formed workflow have different ids, so one of the two stops is the start or
the end, and the other one is an entry that has the id which is reserved for it
(`exists_reserved_of_ofPaths_eq_error`). Such an entry is in the way as soon as it is visible on one
path, whichever path comes first, because every path has a start and an end
(`not_hasReservedId_of_ofPaths`).
-/

namespace WorkflowPaths

/-! ### Visible entries -/

namespace Entry

/-- The entry is drawn: it is no external signal, or these are shown. -/
def isVisible (o : Options) (e : Entry) : Bool :=
  o.showExternalSignals || e.kind != .externalSignal

/-- The node that shows the entry. -/
def node (o : Options) : Entry → Node
  | .step s => ⟨s.id, s.kind, s.label o⟩
  | .branch b => ⟨b.id, b.kind, b.label o⟩

@[simp] theorem id_node (o : Options) (e : Entry) : (e.node o).id = e.id := by
  cases e <;> rfl

@[simp] theorem kind_node (o : Options) (e : Entry) : (e.node o).kind = e.kind := by
  cases e <;> rfl

theorem kind_ne_start (e : Entry) : e.kind ≠ .start := by
  cases e with
  | step s => cases h : s.action <;> simp [kind, Step.kind, Action.kind, h]
  | branch b => cases h : b.test <;> simp [kind, Branch.kind, h]

theorem kind_ne_finish (e : Entry) : e.kind ≠ .finish := by
  cases e with
  | step s => cases h : s.action <;> simp [kind, Step.kind, Action.kind, h]
  | branch b => cases h : b.test <;> simp [kind, Branch.kind, h]

end Entry

namespace Stop

variable (o : Options) (outcomes : Outcomes) (e : Entry)

@[simp] theorem id_ofEntry : (ofEntry outcomes e).id = e.id := by
  cases e <;> rfl

@[simp] theorem kind_ofEntry : (ofEntry outcomes e).kind = e.kind := by
  cases e <;> rfl

/-- A branch point has the same node whatever its outcome is. -/
@[simp] theorem node_ofEntry : (ofEntry outcomes e).node o = e.node o := by
  cases e <;> rfl

theorem isVisible_ofEntry : (ofEntry outcomes e).isVisible o = e.isVisible o := by
  rw [isVisible, Entry.isVisible, isExternalSignal, kind_ofEntry]
  simp [bne, beq_eq_decide]

theorem isVisible_branch (b : Branch) (taken : Bool) : isVisible o (.branch b taken) = true := by
  simp [isVisible, isExternalSignal, kind, b.kind_ne_externalSignal]

end Stop

/-- What is drawn of a path is the start, the visible entries that take part, and the end. -/
theorem Path.visible_along (o : Options) (w : Workflow) (outcomes : Outcomes) :
    (along w.guardedTimeline outcomes).visible o =
      .start :: ((w.taking outcomes).filter (·.isVisible o)).map (.ofEntry outcomes)
        ++ [.finish] := by
  have hentries : ((w.taking outcomes).map (Stop.ofEntry outcomes)).filter (·.isVisible o)
      = ((w.taking outcomes).filter (·.isVisible o)).map (.ofEntry outcomes) := by
    rw [List.filter_map]
    refine congrArg _ (List.filter_congr fun e _ => ?_)
    exact Stop.isVisible_ofEntry o outcomes e
  rw [visible_eq, stops_along, List.cons_append, List.filter_cons_of_pos (Stop.isVisible_start o),
    List.filter_append, hentries, List.filter_cons_of_pos (Stop.isVisible_finish o)]
  rfl

namespace Path.RunsThrough

variable {o : Options} {w : Workflow} {p : Path} {s : Stop}

theorem visible_eq (h : p.RunsThrough w) :
    p.visible o =
      .start :: (p.entries.filter (·.isVisible o)).map (.ofEntry p.outcomes) ++ [.finish] := by
  have hvisible := visible_along o w p.outcomes
  rwa [← h.eq_along, ← h.entries_eq] at hvisible

theorem mem_visible_iff (h : p.RunsThrough w) :
    s ∈ p.visible o ↔ s = .start ∨ s = .finish ∨
      ∃ e ∈ p.entries, e.isVisible o = true ∧ s = .ofEntry p.outcomes e := by
  rw [h.visible_eq, List.mem_append, List.mem_cons, List.mem_map, List.mem_singleton]
  simp only [List.mem_filter]
  constructor
  · rintro ((hs | ⟨e, ⟨he, hvisible⟩, rfl⟩) | hs)
    · exact .inl hs
    · exact .inr (.inr ⟨e, he, hvisible, rfl⟩)
    · exact .inr (.inl hs)
  · rintro (hs | hs | ⟨e, he, hvisible, rfl⟩)
    · exact .inl (.inl hs)
    · exact .inr hs
    · exact .inl (.inr ⟨e, ⟨he, hvisible⟩, rfl⟩)

theorem start_mem_visible (h : p.RunsThrough w) : .start ∈ p.visible o :=
  h.mem_visible_iff.2 (.inl rfl)

theorem finish_mem_visible (h : p.RunsThrough w) : .finish ∈ p.visible o :=
  h.mem_visible_iff.2 (.inr (.inl rfl))

theorem ofEntry_mem_visible (h : p.RunsThrough w) {e : Entry} (he : e ∈ p.entries)
    (hvisible : e.isVisible o = true) : .ofEntry p.outcomes e ∈ p.visible o :=
  h.mem_visible_iff.2 (.inr (.inr ⟨e, he, hvisible, rfl⟩))

end Path.RunsThrough

/-! ### Stops with the same id -/

/-- The entry is in the way of the start or the end. -/
def Entry.hasReservedId (e : Entry) : Prop :=
  e.id = startId ∨ e.id = finishId

namespace Diagram

variable {o : Options} {w : Workflow} {paths : List Path} {d : Diagram} {s t : Stop}

/-- Visible stops with the same id are shown by the same node, unless they are of different kinds,
because one of them is an entry with a reserved id. -/
theorem node_eq_or_hasReservedId (hw : w.WellFormed) (hruns : ∀ p ∈ paths, p.RunsThrough w)
    (hs : s ∈ paths.flatMap (·.visible o)) (ht : t ∈ paths.flatMap (·.visible o))
    (hid : s.id = t.id) :
    s.node o = t.node o ∨ s.kind ≠ t.kind ∧ ∃ p ∈ paths, ∃ e ∈ p.entries, e.isVisible o = true ∧
      e.hasReservedId ∧ e.id = t.id := by
  obtain ⟨p, hp, hsp⟩ := List.mem_flatMap.1 hs
  obtain ⟨q, hq, htq⟩ := List.mem_flatMap.1 ht
  rcases (hruns p hp).mem_visible_iff.1 hsp with rfl | rfl | ⟨e, he, hvisible, rfl⟩ <;>
    rcases (hruns q hq).mem_visible_iff.1 htq with rfl | rfl | ⟨e', he', hvisible', rfl⟩
  · exact .inl rfl
  · exact absurd hid (by decide)
  · rw [Stop.id_ofEntry] at hid ⊢
    rw [Stop.kind_ofEntry]
    exact .inr ⟨e'.kind_ne_start.symm, q, hq, e', he', hvisible', .inl hid.symm, rfl⟩
  · exact absurd hid (by decide)
  · exact .inl rfl
  · rw [Stop.id_ofEntry] at hid ⊢
    rw [Stop.kind_ofEntry]
    exact .inr ⟨e'.kind_ne_finish.symm, q, hq, e', he', hvisible', .inr hid.symm, rfl⟩
  · rw [Stop.id_ofEntry] at hid
    rw [Stop.kind_ofEntry]
    exact .inr ⟨e.kind_ne_start, p, hp, e, he, hvisible, .inl hid, hid⟩
  · rw [Stop.id_ofEntry] at hid
    rw [Stop.kind_ofEntry]
    exact .inr ⟨e.kind_ne_finish, p, hp, e, he, hvisible, .inr hid, hid⟩
  · rw [Stop.id_ofEntry, Stop.id_ofEntry] at hid
    have hentry := (hruns p hp).mem_of_mem_entries he
    rw [hw.entry_eq_of_id_eq hentry ((hruns q hq).mem_of_mem_entries he') hid,
      Stop.node_ofEntry, Stop.node_ofEntry]
    exact .inl rfl

/-- Visible stops of paths of one workflow with the same id and the same kind have the same node. -/
theorem node_eq_of_kind_eq (hw : w.WellFormed) (hruns : ∀ p ∈ paths, p.RunsThrough w)
    (hs : s ∈ paths.flatMap (·.visible o)) (ht : t ∈ paths.flatMap (·.visible o))
    (hid : s.id = t.id) (hkind : s.kind = t.kind) : s.node o = t.node o := by
  rcases node_eq_or_hasReservedId hw hruns hs ht hid with hnode | ⟨hne, -⟩
  · exact hnode
  · exact absurd hkind hne

/-- Where the paths of a workflow make no diagram, the error names the id of a visible entry, and
it is a reserved one. -/
theorem exists_reserved_of_ofPaths_eq_error (hw : w.WellFormed) (hne : paths ≠ [])
    (hruns : ∀ p ∈ paths, p.RunsThrough w) {error : DiagramError}
    (h : ofPaths o paths = .error error) :
    ∃ p ∈ paths, ∃ e ∈ p.entries, e.isVisible o = true ∧ e.hasReservedId ∧
      ∃ existing incoming, error = .conflict e.id existing incoming := by
  have hmerged := ofPaths_mergesTo o paths
  rw [h, strands_of_ne_nil o hne, ← List.flatMap_def] at hmerged
  obtain ⟨s, hs, t, ht, hid, hkind, rfl⟩ := hmerged
  rcases node_eq_or_hasReservedId hw hruns hs ht hid with
    hnode | ⟨-, p, hp, e, he, hvisible, hreserved, heq⟩
  · exact absurd (congrArg Node.kind hnode) hkind
  · exact ⟨p, hp, e, he, hvisible, hreserved, s.kind, t.kind, by rw [heq]⟩

/-- A visible entry with a reserved id keeps the paths from making a diagram. -/
theorem not_hasReservedId_of_ofPaths (hruns : ∀ p ∈ paths, p.RunsThrough w)
    (h : ofPaths o paths = .ok d) {p : Path} (hp : p ∈ paths) {e : Entry} (he : e ∈ p.entries)
    (hvisible : e.isVisible o = true) : ¬ e.hasReservedId := by
  have hunion := isUnion_of_ofPaths_of_ne_nil (List.ne_nil_of_mem hp) h
  have hrun := hruns p hp
  have hmem {s : Stop} (hs : s ∈ p.visible o) : s ∈ paths.flatMap (·.visible o) :=
    List.mem_flatMap.2 ⟨p, hp, hs⟩
  have hentry := hmem (hrun.ofEntry_mem_visible he hvisible)
  rintro (hid | hid)
  · have hkind := hunion.kind_eq _ hentry _ (hmem hrun.start_mem_visible)
      ((Stop.id_ofEntry _ _).trans hid)
    exact e.kind_ne_start ((Stop.kind_ofEntry _ _).symm.trans hkind)
  · have hkind := hunion.kind_eq _ hentry _ (hmem hrun.finish_mem_visible)
      ((Stop.id_ofEntry _ _).trans hid)
    exact e.kind_ne_finish ((Stop.kind_ofEntry _ _).symm.trans hkind)

/-- In a diagram of paths of one workflow, visible stops with the same id have the same node. -/
theorem node_eq_of_id_eq (hw : w.WellFormed) (hruns : ∀ p ∈ paths, p.RunsThrough w)
    (h : ofPaths o paths = .ok d) (hs : s ∈ paths.flatMap (·.visible o))
    (ht : t ∈ paths.flatMap (·.visible o)) (hid : s.id = t.id) : s.node o = t.node o := by
  obtain ⟨p, hp, -⟩ := List.mem_flatMap.1 hs
  have hunion := isUnion_of_ofPaths_of_ne_nil (List.ne_nil_of_mem hp) h
  exact node_eq_of_kind_eq hw hruns hs ht hid (hunion.kind_eq s hs t ht hid)

end Diagram

end WorkflowPaths
