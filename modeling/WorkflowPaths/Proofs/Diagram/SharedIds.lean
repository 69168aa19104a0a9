import WorkflowPaths.Proofs.Diagram.Flow

/-!
# Paths that share ids

Merging keeps the first node of every id, so what comes out could depend on the order of the paths.
Whether anything comes out does not: the paths make a diagram exactly when no two visible stops of
different kinds have the same id (`exists_ofPaths_eq_ok_iff`), and for this it only matters which
paths there are.

Which node is kept matters where stops of one id and one kind show different texts, for these are
not told apart: the first text is shown for all of them (`node?_eq_find?`). It does not happen among
the paths of one workflow, whose entries have different ids (`textsAgree_of_paths`). So for those
the order of the paths and repetitions among them change neither the nodes nor the edges.
-/

namespace WorkflowPaths

theorem find?_firstByKey {α κ : Type} [DecidableEq κ] (key : α → κ) (k : κ) (l : List α) :
    (firstByKey key l).find? (key · == k) = l.find? (key · == k) := by
  induction l with
  | nil => rfl
  | cons a r ih =>
    rw [firstByKey, List.find?_cons, List.find?_cons]
    by_cases ha : key a = k
    · simp [ha]
    · -- What is left out behind `a` has its key, and so not the one looked for.
      have hrest : ((firstByKey key r).filter (key · ≠ key a)).find? (key · == k)
          = (firstByKey key r).find? (key · == k) := by
        rw [List.find?_filter]
        refine congrArg (List.find? · _) (funext fun x => ?_)
        by_cases hx : key x = k
        · simp [hx, Ne.symm ha]
        · simp [hx]
      rw [hrest, ih]

namespace Diagram

variable {o : Options} {paths ps qs : List Path} {d : Diagram} {s t : Stop} {w : Workflow}

/-! ### When paths can be merged -/

/-- Paths make a diagram exactly when stops with one id are of one kind. -/
theorem exists_ofPaths_eq_ok_iff :
    (∃ d, ofPaths o paths = .ok d) ↔
      ∀ s ∈ (strands o paths).flatten, ∀ t ∈ (strands o paths).flatten,
        s.id = t.id → s.kind = t.kind := by
  have hmerged := ofPaths_mergesTo o paths
  cases h : ofPaths o paths with
  | ok d =>
    rw [h] at hmerged
    exact ⟨fun _ => hmerged.kind_eq, fun _ => ⟨d, rfl⟩⟩
  | error e =>
    rw [h] at hmerged
    obtain ⟨s, hs, t, ht, hid, hkind, -⟩ := hmerged
    constructor
    · rintro ⟨d, hd⟩
      cases hd
    · exact fun hkinds => absurd (hkinds s hs t ht hid) hkind

/-- Paths that make no diagram have a conflict. -/
theorem exists_conflict_of_ofPaths_eq_error {error : DiagramError}
    (h : ofPaths o paths = .error error) :
    ∃ id existing incoming, error = .conflict id existing incoming := by
  have hmerged := ofPaths_mergesTo o paths
  rw [h] at hmerged
  obtain ⟨s, -, t, -, -, -, rfl⟩ := hmerged
  exact ⟨t.id, s.kind, t.kind, rfl⟩

/-! ### Order and repetition of paths -/

/-- In a diagram of paths of one workflow, stops that are drawn under one id have one node. -/
theorem node_eq_of_mem_strands (hw : w.WellFormed) (hruns : ∀ p ∈ paths, p.RunsThrough w)
    (h : ofPaths o paths = .ok d) (hs : s ∈ (strands o paths).flatten)
    (ht : t ∈ (strands o paths).flatten) (hid : s.id = t.id) : s.node o = t.node o := by
  by_cases hne : paths = []
  · have hstrands : (strands o paths).flatten = [.start, .finish] := by simp [strands, hne]
    rw [hstrands] at hs ht
    have hids : startId ≠ finishId := by decide
    rcases List.mem_pair.1 hs with rfl | rfl <;> rcases List.mem_pair.1 ht with rfl | rfl
    · rfl
    · exact absurd hid hids
    · exact absurd hid hids.symm
    · rfl
  · rw [strands_of_ne_nil o hne, ← List.flatMap_def] at hs ht
    exact node_eq_of_id_eq hw hruns h hs ht hid

theorem IsUnion.nodup_nodes {stops : List Stop} {edges : List Edge} (h : d.IsUnion o stops edges) :
    d.nodes.Nodup :=
  h.nodup_ids.of_map

theorem IsUnion.nodup_edges {stops : List Stop} {edges : List Edge} (h : d.IsUnion o stops edges) :
    d.edges.Nodup := by
  rw [h.edges_eq]
  exact (nodup_map_firstByKey Edge.key edges).of_map

section SameMembers

variable {d' : Diagram} (hsame : ∀ p, p ∈ ps ↔ p ∈ qs)
include hsame

/-- What is drawn depends on which paths there are. -/
theorem mem_strands_congr {strand : List Stop} : strand ∈ strands o ps ↔ strand ∈ strands o qs := by
  by_cases hps : ps = []
  · have hqs : qs = [] := List.eq_nil_iff_forall_not_mem.2 fun p hp => by
      simpa [hps] using (hsame p).2 hp
    rw [hps, hqs]
  · have hqs : qs ≠ [] := by
      obtain ⟨p, hp⟩ := List.exists_mem_of_ne_nil ps hps
      exact List.ne_nil_of_mem ((hsame p).1 hp)
    simp only [strands_of_ne_nil o hps, strands_of_ne_nil o hqs, List.mem_map, hsame]

theorem mem_flatten_strands_congr :
    s ∈ (strands o ps).flatten ↔ s ∈ (strands o qs).flatten := by
  simp only [List.mem_flatten, mem_strands_congr hsame]

theorem exists_ofPaths_eq_ok_congr :
    (∃ d, ofPaths o ps = .ok d) ↔ ∃ d, ofPaths o qs = .ok d := by
  simp only [exists_ofPaths_eq_ok_iff, mem_flatten_strands_congr hsame]

/-- The edges do not depend on the order of the paths, also where these are of several workflows. -/
theorem edges_perm_of_same_members (hd : ofPaths o ps = .ok d) (hd' : ofPaths o qs = .ok d') :
    d.edges.Perm d'.edges := by
  have hunion := isUnion_of_ofPaths hd
  have hunion' := isUnion_of_ofPaths hd'
  refine (List.perm_ext_iff_of_nodup hunion.nodup_edges hunion'.nodup_edges).2 fun e => ?_
  simp only [hunion.mem_edges_iff, hunion'.mem_edges_iff, List.mem_flatMap, mem_strands_congr hsame]

theorem nodes_perm_of_same_members (hw : w.WellFormed) (hruns : ∀ p ∈ ps, p.RunsThrough w)
    (hd : ofPaths o ps = .ok d) (hd' : ofPaths o qs = .ok d') : d.nodes.Perm d'.nodes := by
  have hruns' (p : Path) (hp : p ∈ qs) := hruns p ((hsame p).2 hp)
  have hunion := isUnion_of_ofPaths hd
  have hunion' := isUnion_of_ofPaths hd'
  refine (List.perm_ext_iff_of_nodup hunion.nodup_nodes hunion'.nodup_nodes).2 fun n => ?_
  rw [hunion.mem_nodes_iff fun s hs t ht => node_eq_of_mem_strands hw hruns hd hs ht,
    hunion'.mem_nodes_iff fun s hs t ht => node_eq_of_mem_strands hw hruns' hd' hs ht]
  simp only [mem_flatten_strands_congr hsame]

end SameMembers

/-- **The order of the paths and repetitions among them do not matter.** Two lists of paths of a
workflow with the same members both make no diagram, because of a conflict, or both make one, with
the same nodes and the same edges. -/
theorem ofPaths_perm_of_same_members {o' : Options} (h : w.paths o' = .ok paths) (hps : ps ⊆ paths)
    (hsame : ∀ p, p ∈ ps ↔ p ∈ qs) :
    ((∃ id existing incoming, ofPaths o ps = .error (.conflict id existing incoming)) ∧
      ∃ id existing incoming, ofPaths o qs = .error (.conflict id existing incoming)) ∨
    ∃ d d', ofPaths o ps = .ok d ∧ ofPaths o qs = .ok d' ∧
      d.nodes.Perm d'.nodes ∧ d.edges.Perm d'.edges := by
  have hruns (p : Path) (hp : p ∈ ps) := Path.runsThrough_of_mem_paths h (hps hp)
  have hiff := exists_ofPaths_eq_ok_congr (o := o) hsame
  cases hd : ofPaths o ps with
  | ok d =>
    obtain ⟨d', hd'⟩ := hiff.1 ⟨d, hd⟩
    have hnodes := nodes_perm_of_same_members hsame (Workflow.wellFormed_of_paths h) hruns hd hd'
    exact .inr ⟨d, d', rfl, hd', hnodes, edges_perm_of_same_members hsame hd hd'⟩
  | error e =>
    cases hd' : ofPaths o qs with
    | ok d' =>
      obtain ⟨d, hok⟩ := hiff.2 ⟨d', hd'⟩
      rw [hd] at hok
      cases hok
    | error e' =>
      obtain ⟨id, existing, incoming, rfl⟩ := exists_conflict_of_ofPaths_eq_error hd
      obtain ⟨id', existing', incoming', rfl⟩ := exists_conflict_of_ofPaths_eq_error hd'
      exact .inl ⟨⟨id, existing, incoming, rfl⟩, ⟨id', existing', incoming', rfl⟩⟩

open Workflow (orderApproval orderApprovalDiagram orderApproval_paths)

/-- From the last path to the first, and with all of them repeated, the nodes and edges of orders
above a limit come in another order. -/
theorem ofPaths_perm_of_same_members_orderApproval :
    ∃ d, ofPaths {} (orderApproval.allPaths.reverse ++ orderApproval.allPaths) = .ok d ∧
      d ≠ orderApprovalDiagram ∧ d.nodes.Perm orderApprovalDiagram.nodes ∧
      d.edges.Perm orderApprovalDiagram.edges := by
  have hd : ofPaths {} orderApproval.allPaths = .ok orderApprovalDiagram := by decide +kernel
  have hne : ofPaths {} (orderApproval.allPaths.reverse ++ orderApproval.allPaths)
      ≠ .ok orderApprovalDiagram := by
    decide +kernel
  have hsame (p : Path) : p ∈ orderApproval.allPaths.reverse ++ orderApproval.allPaths ↔
      p ∈ orderApproval.allPaths := by
    simp
  rcases ofPaths_perm_of_same_members orderApproval_paths (fun p => (hsame p).1) hsame with
    ⟨-, _, _, _, herror⟩ | ⟨d, d', hrev, hok, hnodes, hedges⟩
  · rw [hd] at herror
    cases herror
  · obtain rfl : orderApprovalDiagram = d' := by
      rw [hd] at hok
      exact Except.ok.inj hok
    exact ⟨d, hrev, fun heq => hne (heq ▸ hrev), hnodes, hedges⟩

/-! ### Stops of one id and one kind -/

/-- The stops of the paths that are drawn. -/
def visibleStops (o : Options) (paths : List Path) : List Stop :=
  paths.flatMap (·.visible o)

/-- Stops of one id and one kind show one text. -/
def TextsAgree (o : Options) (stops : List Stop) : Prop :=
  ∀ s ∈ stops, ∀ t ∈ stops, s.id = t.id → s.kind = t.kind → s.label o = t.label o

/-- The paths make no diagram, and the error names an id that visible stops of different kinds
share. -/
def FailsOnSharedId (o : Options) (paths : List Path) : Prop :=
  ∃ s ∈ visibleStops o paths, ∃ t ∈ visibleStops o paths, s.id = t.id ∧ s.kind ≠ t.kind ∧
    ofPaths o paths = .error (.conflict t.id s.kind t.kind)

theorem ne_nil_of_mem_visibleStops (hs : s ∈ visibleStops o paths) : paths ≠ [] := by
  obtain ⟨p, hp, -⟩ := List.mem_flatMap.1 hs
  exact List.ne_nil_of_mem hp

/-- Stops of different kinds under one id are always found. -/
theorem failsOnSharedId_of_kind_ne (hs : s ∈ visibleStops o paths) (ht : t ∈ visibleStops o paths)
    (hid : s.id = t.id) (hkind : s.kind ≠ t.kind) : FailsOnSharedId o paths := by
  have hmerged := ofPaths_mergesTo o paths
  rw [strands_of_ne_nil o (ne_nil_of_mem_visibleStops hs), ← List.flatMap_def] at hmerged
  cases h : ofPaths o paths with
  | ok d =>
    rw [h] at hmerged
    exact absurd (hmerged.kind_eq s hs t ht hid) hkind
  | error e =>
    rw [h] at hmerged
    obtain ⟨a, ha, b, hb, hab, hne, rfl⟩ := hmerged
    exact ⟨a, ha, b, hb, hab, hne, h⟩

/-- Under the id of a visible stop, the first one with this id is shown. -/
theorem node?_eq_find? (h : ofPaths o paths = .ok d) (hs : s ∈ visibleStops o paths) :
    d.node? s.id = ((visibleStops o paths).find? (·.id == s.id)).map (Stop.node o) := by
  have hunion := isUnion_of_ofPaths_of_ne_nil (ne_nil_of_mem_visibleStops hs) h
  rw [hunion.indexed.node?_eq_find?, hunion.nodes_eq, find?_firstByKey Node.id, List.find?_map]
  rfl

/-- What is shown under the id of a visible stop is that of a visible stop of the same kind. -/
theorem exists_stop_of_node? (h : ofPaths o paths = .ok d) (hs : s ∈ visibleStops o paths) :
    ∃ t ∈ visibleStops o paths, t.id = s.id ∧ t.kind = s.kind ∧
      (visibleStops o paths).find? (·.id == s.id) = some t ∧ d.node? s.id = some (t.node o) := by
  have hunion := isUnion_of_ofPaths_of_ne_nil (ne_nil_of_mem_visibleStops hs) h
  cases hfind : (visibleStops o paths).find? (·.id == s.id) with
  | none =>
    rw [List.find?_eq_none] at hfind
    exact absurd (beq_self_eq_true s.id) (hfind s hs)
  | some t =>
    have ht := List.mem_of_find?_eq_some hfind
    have hid : t.id = s.id := by simpa using List.find?_some hfind
    refine ⟨t, ht, hid, hunion.kind_eq t ht s hs hid, rfl, ?_⟩
    rw [node?_eq_find? h hs, hfind, Option.map_some]

theorem node_eq_of_label_eq (hid : s.id = t.id) (hkind : s.kind = t.kind)
    (hlabel : s.label o = t.label o) : s.node o = t.node o := by
  rw [Stop.node, Stop.node, hid, hkind, hlabel]

/-- Every visible stop is shown with its own text exactly when stops of one id and one kind show one
text. -/
theorem node?_eq_node_iff_textsAgree (h : ofPaths o paths = .ok d) :
    (∀ s ∈ visibleStops o paths, d.node? s.id = some (s.node o)) ↔
      TextsAgree o (visibleStops o paths) := by
  constructor
  · intro hshown s hs t ht hid _
    have hnode : some (s.node o) = some (t.node o) := by
      rw [← hshown s hs, ← hshown t ht, hid]
    exact congrArg Node.label (Option.some.inj hnode)
  · intro hagree s hs
    obtain ⟨t, ht, hid, hkind, -, hnode⟩ := exists_stop_of_node? h hs
    rw [hnode, node_eq_of_label_eq hid hkind (hagree t ht s hs hid hkind)]

/-- The visible stops of paths of one workflow show one text for one id and one kind. -/
theorem textsAgree_of_paths {o' : Options} (h : w.paths o' = .ok ps) (hsub : paths ⊆ ps) :
    TextsAgree o (visibleStops o paths) := by
  have hruns (p : Path) (hp : p ∈ paths) := Path.runsThrough_of_mem_paths h (hsub hp)
  intro s hs t ht hid hkind
  have hnode := node_eq_of_kind_eq (Workflow.wellFormed_of_paths h) hruns hs ht hid hkind
  exact congrArg Node.label hnode

/-- **Stops with one id are told apart by their kinds, and by nothing else.** Visible stops of
different kinds with the same id keep the paths from making a diagram, and the error names an id
that is shared in this way. Visible stops with the same id and different nodes do so exactly when
stops of one id and one kind show one text, or when there is no diagram anyway. Under the same
condition every visible stop of a diagram is shown with its own text; otherwise the first stop with
the id is shown for all of them. Paths of one workflow always meet the condition. -/
theorem node_ne_fails_iff_textsAgree (o : Options) (paths : List Path) :
    (∀ s ∈ visibleStops o paths, ∀ t ∈ visibleStops o paths, s.id = t.id → s.kind ≠ t.kind →
      FailsOnSharedId o paths) ∧
    ((∀ s ∈ visibleStops o paths, ∀ t ∈ visibleStops o paths, s.id = t.id → s.node o ≠ t.node o →
      FailsOnSharedId o paths) ↔
        TextsAgree o (visibleStops o paths) ∨ FailsOnSharedId o paths) ∧
    (∀ d, ofPaths o paths = .ok d →
      ((∀ s ∈ visibleStops o paths, d.node? s.id = some (s.node o)) ↔
        TextsAgree o (visibleStops o paths)) ∧
      ∀ s ∈ visibleStops o paths, ∃ t, (visibleStops o paths).find? (·.id == s.id) = some t ∧
        t.kind = s.kind ∧ d.node? s.id = some (t.node o)) ∧
    ∀ (o' : Options) (w : Workflow) (ps : List Path), w.paths o' = .ok ps → paths ⊆ ps →
      TextsAgree o (visibleStops o paths) := by
  refine ⟨fun s hs t ht => failsOnSharedId_of_kind_ne hs ht, ⟨fun hfails => ?_, ?_⟩,
    fun d h => ⟨node?_eq_node_iff_textsAgree h, fun s hs => ?_⟩,
    fun o' w ps h hsub => textsAgree_of_paths h hsub⟩
  · by_cases hfail : FailsOnSharedId o paths
    · exact .inr hfail
    · refine .inl fun s hs t ht hid _ => ?_
      by_contra hlabel
      exact hfail (hfails s hs t ht hid fun hnode => hlabel (congrArg Node.label hnode))
  · rintro (hagree | hfail) s hs t ht hid hnode
    · refine failsOnSharedId_of_kind_ne hs ht hid fun hkind => hnode ?_
      exact node_eq_of_label_eq hid hkind (hagree s hs t ht hid hkind)
    · exact hfail
  · obtain ⟨t, -, -, hkind, hfind, hnode⟩ := exists_stop_of_node? h hs
    exact ⟨t, hfind, hkind, hnode⟩

end Diagram

namespace Workflow

/-- The packing of an order. -/
def pack : Step := ⟨.activity, "Pack", "1", 1, .always⟩

/-- The workflow that packs an order. -/
def packing : Workflow := ⟨"Packing", [pack], []⟩

/-- The sending of an order, under the id of the packing. -/
def send : Step := ⟨.activity, "Send", "1", 1, .always⟩

/-- The workflow that sends an order. -/
def sending : Workflow := ⟨"Sending", [send], []⟩

/-- The call of the workflow that sends an order, under the id of the packing. -/
def forward : Step := ⟨.childWorkflow, "Sending", "1", 1, .always⟩

/-- The workflow that has an order sent. -/
def forwarding : Workflow := ⟨"Forwarding", [forward], []⟩

end Workflow

namespace Diagram

open Workflow (pack packing send sending forward forwarding orderApproval orderApprovalDiagram
  orderApproval_paths)

/-- The paths of packing and of forwarding have a call and an activity under one id. Those of orders
above a limit share no id. -/
theorem node_ne_fails_iff_textsAgree_forwarding :
    FailsOnSharedId {} (packing.allPaths ++ forwarding.allPaths) ∧
      TextsAgree {} (visibleStops {} orderApproval.allPaths) ∧
      ∀ s ∈ visibleStops {} orderApproval.allPaths,
        orderApprovalDiagram.node? s.id = some (s.node {}) := by
  have hd : ofPaths {} orderApproval.allPaths = .ok orderApprovalDiagram := by decide +kernel
  obtain ⟨-, -, hshown, hagree⟩ := node_ne_fails_iff_textsAgree {} orderApproval.allPaths
  have htexts := hagree {} _ _ orderApproval_paths (List.Subset.refl _)
  refine ⟨?_, htexts, (hshown _ hd).1.2 htexts⟩
  exact (node_ne_fails_iff_textsAgree {} (packing.allPaths ++ forwarding.allPaths)).1
    (.step pack) (by decide +kernel) (.step forward) (by decide +kernel) rfl (by decide)

/-- Packing and sending have activities under one id. They are drawn as one, the packing. -/
theorem sending_drawn_as_packing :
    packing.paths {} = .ok packing.allPaths ∧ sending.paths {} = .ok sending.allPaths ∧
      .step pack ∈ visibleStops {} (packing.allPaths ++ sending.allPaths) ∧
      .step send ∈ visibleStops {} (packing.allPaths ++ sending.allPaths) ∧
      pack.id = send.id ∧ pack.label {} ≠ send.label {} ∧
      ∃ d, ofPaths {} (packing.allPaths ++ sending.allPaths) = .ok d ∧
        d.node? send.id = some ((Stop.step pack).node {}) := by
  refine ⟨?_, ?_, by decide +kernel, by decide +kernel, rfl, by decide +kernel,
    .of [⟨"s", .start, "Start"⟩, ⟨"1", .activity, "Pack"⟩, ⟨"e", .finish, "End"⟩]
      [⟨"s", "1", .plain⟩, ⟨"1", "e", .plain⟩], by decide +kernel, by decide +kernel⟩
  · exact Workflow.paths_eq_ok_iff.2 ⟨by decide +kernel, by decide +kernel, by decide +kernel, rfl⟩
  · exact Workflow.paths_eq_ok_iff.2 ⟨by decide +kernel, by decide +kernel, by decide +kernel, rfl⟩

end Diagram

end WorkflowPaths
