import WorkflowPaths.Proofs.Diagram.Index
import WorkflowPaths.Proofs.Path.Enumeration

/-!
# The diagram is the union of the paths

Paths are merged stop by stop, with a node and the label of an outcome carried along, and edges
drawn by what is already there. This module says what comes out without the merging: the nodes are
those of the visible stops, the edges those between visible stops that follow each other on a path,
and of nodes with one id, as of edges with the same ends and label, the first one is kept. How an
edge is drawn is said by `Stop.arrowTo`, with the texts of its label and its style.

The invariant is `IsUnion`: a diagram is the union of some stops and edges, its index and its keys
are those of its nodes and edges, and no two of the stops have one id and different kinds. Adding a
stop either keeps it or finds two such stops, and that is the only way in which merging can fail
(`ofPaths_mergesTo`). It is also why the nodes that are already there tell how an edge is drawn:
they are of the same kinds as the stops at its ends (`IsUnion.link_eq`).
-/

namespace WorkflowPaths

/-! ### First occurrences -/

section FirstByKey

variable {α κ : Type} [DecidableEq κ]

/-- The elements of a list whose key no element before them has. -/
def firstByKey (key : α → κ) : List α → List α
  | [] => []
  | a :: r => a :: (firstByKey key r).filter (key · ≠ key a)

variable {key : α → κ} {a : α} {l : List α}

theorem mem_of_mem_firstByKey (h : a ∈ firstByKey key l) : a ∈ l := by
  induction l with
  | nil => exact h
  | cons b r ih =>
    rcases List.mem_cons.1 h with rfl | h
    · exact List.mem_cons_self
    · exact List.mem_cons_of_mem b (ih (List.mem_filter.1 h).1)

theorem exists_mem_firstByKey (key : α → κ) (h : a ∈ l) :
    ∃ b ∈ firstByKey key l, key b = key a := by
  induction l with
  | nil => cases h
  | cons c r ih =>
    by_cases hkey : key c = key a
    · exact ⟨c, List.mem_cons_self, hkey⟩
    · rcases List.mem_cons.1 h with rfl | h
      · exact absurd rfl hkey
      · obtain ⟨b, hb, hba⟩ := ih h
        refine ⟨b, List.mem_cons_of_mem c (List.mem_filter.2 ⟨hb, ?_⟩), hba⟩
        simpa [hba] using Ne.symm hkey

theorem nodup_map_firstByKey (key : α → κ) (l : List α) : ((firstByKey key l).map key).Nodup := by
  induction l with
  | nil => exact .nil
  | cons a r ih =>
    rw [firstByKey, List.map_cons, List.nodup_cons]
    constructor
    · simp
    · exact ih.sublist (List.filter_sublist.map key)

theorem firstByKey_concat_of_notMem (h : key a ∉ l.map key) :
    firstByKey key (l ++ [a]) = firstByKey key l ++ [a] := by
  induction l with
  | nil => rfl
  | cons b r ih =>
    rw [List.map_cons, List.mem_cons, not_or] at h
    rw [List.cons_append, firstByKey, ih h.2, List.filter_append]
    simp [firstByKey, h.1]

theorem firstByKey_concat_of_mem (h : key a ∈ l.map key) :
    firstByKey key (l ++ [a]) = firstByKey key l := by
  induction l with
  | nil => cases h
  | cons b r ih =>
    rw [List.cons_append, firstByKey, firstByKey]
    by_cases hr : key a ∈ r.map key
    · rw [ih hr]
    · have hab : key a = key b := (List.mem_cons.1 h).resolve_right hr
      simp [firstByKey_concat_of_notMem hr, hab]

/-- The first occurrences may be found before or after a map that keeps the keys. -/
theorem map_firstByKey {β : Type} {f : α → β} {key' : β → κ} (h : ∀ a, key' (f a) = key a)
    (l : List α) : (firstByKey key l).map f = firstByKey key' (l.map f) := by
  induction l with
  | nil => rfl
  | cons a r ih =>
    rw [List.map_cons, firstByKey, firstByKey, List.map_cons, ← ih, List.filter_map]
    simp only [Function.comp_def, h]

end FirstByKey

/-! ### Edges between stops -/

namespace Stop

@[simp] theorem id_node (o : Options) (s : Stop) : (s.node o).id = s.id := rfl

@[simp] theorem kind_node (o : Options) (s : Stop) : (s.node o).kind = s.kind := rfl

/-- The stop is a step that sends a signal to another workflow. -/
def sendsSignal : Stop → Bool
  | .step ⟨.externalSignal _, _, _, _, _⟩ => true
  | _ => false

theorem isExternalSignal_eq (s : Stop) : s.isExternalSignal = s.sendsSignal := by
  cases s with
  | start | finish => rfl
  | branch b taken =>
    obtain ⟨test, _, _, _, _⟩ := b
    cases test <;> rfl
  | step s =>
    obtain ⟨action, _, _, _, _⟩ := s
    cases action <;> rfl

theorem isVisible_start (o : Options) : isVisible o .start = true := by
  simp [isVisible, isExternalSignal, kind]

theorem isVisible_finish (o : Options) : isVisible o .finish = true := by
  simp [isVisible, isExternalSignal, kind]

/-- How the edge from one stop to the next one is drawn: with the outcome if it leaves a branch
point, else as a signal if one of the two is an external signal. -/
def linkTo (o : Options) (s next : Stop) : Link :=
  match s with
  | .branch b taken => .branch (b.outcomeLabel o taken)
  | _ => if s.isExternalSignal || next.isExternalSignal then .signal else .plain

/-- The edge from one stop to the next one. -/
def edgeTo (o : Options) (s next : Stop) : Edge :=
  ⟨s.id, next.id, s.linkTo o next⟩

end Stop

/-- The stops of a path that are drawn: all of them, but for external signals where these are not
shown. -/
def Path.visible (o : Options) (p : Path) : List Stop :=
  p.stops.filter fun s => o.showExternalSignals || !s.sendsSignal

theorem Path.visible_eq (o : Options) (p : Path) : p.visible o = p.stops.filter (·.isVisible o) := by
  simp only [visible, Stop.isVisible, Stop.isExternalSignal_eq]

theorem Path.mem_visible {o : Options} {p : Path} {s : Stop} :
    s ∈ p.visible o ↔ s ∈ p.stops ∧ s.isVisible o = true := by
  rw [visible_eq, List.mem_filter]

/-- What is drawn of an edge. -/
structure Arrow where
  /-- The id of the node that it leaves. -/
  source : String
  /-- The id of the node that it enters. -/
  target : String
  /-- The text beside it. -/
  label : Option String
  /-- The name of its style. -/
  style : String
deriving DecidableEq

/-- Of arrows with the same ends and label only one is drawn. -/
def Arrow.key (a : Arrow) : String × String × Option String :=
  (a.source, a.target, a.label)

/-- How an edge is drawn. -/
def Edge.arrow (e : Edge) : Arrow :=
  ⟨e.source, e.target, e.link.label, e.link.style⟩

/-- The arrow from one stop to the next one: with the outcome if it leaves a branch point, else as a
signal if one of the two is an external signal, else without a label. -/
def Stop.arrowTo (o : Options) (s next : Stop) : Arrow :=
  match s with
  | .branch b taken => ⟨s.id, next.id, some (b.outcomeLabel o taken), "branch"⟩
  | _ =>
    if s.sendsSignal || next.sendsSignal then ⟨s.id, next.id, some "signal", "signal"⟩
    else ⟨s.id, next.id, none, "plain"⟩

theorem Stop.arrow_edgeTo (o : Options) (s t : Stop) : (s.edgeTo o t).arrow = s.arrowTo o t := by
  cases s with
  | branch b taken => rfl
  | start | step | finish =>
    simp only [edgeTo, linkTo, arrowTo, Edge.arrow, isExternalSignal_eq]
    split <;> rfl

/-- The node shows a decision or a wait for a signal. -/
def NodeKind.isBranch : NodeKind → Bool
  | .decision | .signalWait => true
  | _ => false

theorem Branch.isBranch_kind (b : Branch) : b.kind.isBranch = true := by
  rw [Branch.kind]
  cases b.test <;> rfl

theorem Branch.kind_ne_externalSignal (b : Branch) : b.kind ≠ .externalSignal := by
  intro hkind
  have hbranch := b.isBranch_kind
  rw [hkind] at hbranch
  cases hbranch

theorem Step.isBranch_kind (s : Step) : s.kind.isBranch = false := by
  rw [Step.kind]
  cases s.action <;> rfl

/-- How an edge between nodes of the given kinds is drawn. -/
def styleBetween (source target : NodeKind) : String :=
  if source.isBranch then "branch"
  else if source = .externalSignal ∨ target = .externalSignal then "signal"
  else "plain"

/-- Only an edge from a branch point shows an outcome. -/
theorem Stop.linkTo_of_isBranch_eq_false {o : Options} {s : Stop} (h : s.kind.isBranch = false)
    (t : Stop) : s.linkTo o t =
      if s.kind = .externalSignal ∨ t.kind = .externalSignal then .signal else .plain := by
  cases s with
  | branch b taken =>
    rw [Stop.kind, b.isBranch_kind] at h
    cases h
  | start | step | finish =>
    simp only [Stop.linkTo, Stop.isExternalSignal, Bool.or_eq_true, decide_eq_true_eq]

/-- The label and the style of an edge say how it is drawn. -/
theorem Link.eq_of_label_of_style {a b : Link} (hlabel : a.label = b.label)
    (hstyle : a.style = b.style) : a = b := by
  cases a <;> cases b <;> simp_all [Link.label, Link.style]

theorem Stop.style_linkTo (o : Options) (s t : Stop) :
    (s.linkTo o t).style = styleBetween s.kind t.kind := by
  cases h : s.kind.isBranch with
  | false =>
    rw [linkTo_of_isBranch_eq_false h, styleBetween, h]
    by_cases hsignal : s.kind = .externalSignal ∨ t.kind = .externalSignal
    · simp [hsignal, Link.style]
    · simp [hsignal, Link.style]
  | true =>
    rw [styleBetween, if_pos h]
    cases s with
    | branch b taken => rfl
    | step s =>
      rw [Stop.kind, s.isBranch_kind] at h
      cases h
    | start | finish => cases h

/-- The edges between stops that follow each other. -/
def edgesAlong (o : Options) (stops : List Stop) : List Edge :=
  stops.zipWith (Stop.edgeTo o) stops.tail

/-- The arrows between stops that follow each other. -/
def arrowsAlong (o : Options) (stops : List Stop) : List Arrow :=
  stops.zipWith (Stop.arrowTo o) stops.tail

theorem map_arrow_edgesAlong (o : Options) (stops : List Stop) :
    (edgesAlong o stops).map Edge.arrow = arrowsAlong o stops := by
  simp only [edgesAlong, arrowsAlong, List.map_zipWith, Stop.arrow_edgeTo]

theorem edgesAlong_cons_cons (o : Options) (s t : Stop) (stops : List Stop) :
    edgesAlong o (s :: t :: stops) = s.edgeTo o t :: edgesAlong o (t :: stops) :=
  rfl

/-- An edge of a list of stops joins two stops that follow each other. -/
theorem mem_edgesAlong_iff {o : Options} {e : Edge} {stops : List Stop} :
    e ∈ edgesAlong o stops ↔ ∃ s t, [s, t] <:+: stops ∧ e = s.edgeTo o t := by
  induction stops with
  | nil => simp [edgesAlong]
  | cons a r ih =>
    cases r with
    | nil => simp [edgesAlong, List.infix_cons_iff]
    | cons b r =>
      rw [edgesAlong_cons_cons, List.mem_cons, ih]
      constructor
      · rintro (rfl | ⟨s, t, hst, rfl⟩)
        · exact ⟨a, b, ⟨[], r, rfl⟩, rfl⟩
        · exact ⟨s, t, List.infix_cons hst, rfl⟩
      · rintro ⟨s, t, hst, rfl⟩
        rcases List.infix_cons_iff.1 hst with hst | hst
        · simp only [List.cons_prefix_cons] at hst
          obtain ⟨rfl, rfl, -⟩ := hst
          exact .inl rfl
        · exact .inr ⟨s, t, hst, rfl⟩

namespace Diagram

/-! ### Unions of stops and edges -/

/-- The diagram is the union of the stops and the edges. The edges join stops, and stops with one
id are of one kind. -/
structure IsUnion (o : Options) (d : Diagram) (stops : List Stop) (edges : List Edge) : Prop where
  /-- The nodes are those of the stops. -/
  nodes_eq : d.nodes = firstByKey Node.id (stops.map (Stop.node o))
  /-- The edges of the diagram are the given ones. -/
  edges_eq : d.edges = firstByKey Edge.key edges
  /-- They are looked up by an index and by keys. -/
  indexed : d.IsIndexed
  /-- Stops with one id are of one kind. -/
  kind_eq : ∀ s ∈ stops, ∀ t ∈ stops, s.id = t.id → s.kind = t.kind
  /-- Every edge joins two stops. -/
  joins : ∀ e ∈ edges, ∃ s ∈ stops, ∃ t ∈ stops, e = s.edgeTo o t

variable {o : Options} {d : Diagram} {stops : List Stop} {edges : List Edge}

theorem isUnion_empty (o : Options) : empty.IsUnion o [] [] := by
  refine ⟨rfl, rfl, isIndexed_empty, ?_, ?_⟩ <;> simp

namespace IsUnion

theorem nodup_ids (h : d.IsUnion o stops edges) : (d.nodes.map Node.id).Nodup := by
  rw [h.nodes_eq]
  exact nodup_map_firstByKey _ _

theorem node?_eq_some_iff (h : d.IsUnion o stops edges) {id : String} {n : Node} :
    d.node? id = some n ↔ n ∈ d.nodes ∧ n.id = id :=
  h.indexed.node?_eq_some_iff h.nodup_ids

theorem exists_stop_of_mem_nodes (h : d.IsUnion o stops edges) {n : Node} (hn : n ∈ d.nodes) :
    ∃ s ∈ stops, s.node o = n := by
  rw [h.nodes_eq] at hn
  exact List.mem_map.1 (mem_of_mem_firstByKey hn)

/-- The node that is found under the id of a stop is of the kind of the stop. -/
theorem exists_node? (h : d.IsUnion o stops edges) {s : Stop} (hs : s ∈ stops) :
    ∃ n, d.node? s.id = some n ∧ n.kind = s.kind := by
  have hmem : s.node o ∈ stops.map (Stop.node o) := List.mem_map_of_mem hs
  obtain ⟨n, hn, hid⟩ := exists_mem_firstByKey Node.id hmem
  rw [← h.nodes_eq] at hn
  obtain ⟨t, ht, rfl⟩ := h.exists_stop_of_mem_nodes hn
  exact ⟨_, h.node?_eq_some_iff.2 ⟨hn, hid⟩, h.kind_eq t ht s hs hid⟩

/-- Where stops with one id have one node, the nodes of a union are those of all stops. -/
theorem mem_nodes_iff (h : d.IsUnion o stops edges)
    (hnodes : ∀ s ∈ stops, ∀ t ∈ stops, s.id = t.id → s.node o = t.node o) {n : Node} :
    n ∈ d.nodes ↔ ∃ s ∈ stops, s.node o = n := by
  refine ⟨h.exists_stop_of_mem_nodes, ?_⟩
  rintro ⟨s, hs, rfl⟩
  obtain ⟨n, hn, -⟩ := h.exists_node? hs
  obtain ⟨hmem, hid⟩ := h.node?_eq_some_iff.1 hn
  obtain ⟨t, ht, rfl⟩ := h.exists_stop_of_mem_nodes hmem
  rwa [hnodes s hs t ht hid.symm]

theorem node?_eq_none_iff (h : d.IsUnion o stops edges) {id : String} :
    d.node? id = none ↔ ∀ s ∈ stops, s.id ≠ id := by
  constructor
  · rintro hnone s hs rfl
    obtain ⟨n, hn, -⟩ := h.exists_node? hs
    rw [hnone] at hn
    cases hn
  · intro hne
    rw [h.indexed.node?_eq_find?, List.find?_eq_none]
    intro n hn
    obtain ⟨s, hs, rfl⟩ := h.exists_stop_of_mem_nodes hn
    simpa using hne s hs

theorem isSignal_eq (h : d.IsUnion o stops edges) {s : Stop} (hs : s ∈ stops) :
    d.isSignal s.id = s.isExternalSignal := by
  obtain ⟨n, hn, hkind⟩ := h.exists_node? hs
  simp only [isSignal, hn, Option.any_some, hkind, Stop.isExternalSignal]
  rfl

/-- The nodes that are there tell how an edge between two stops is drawn. -/
theorem link_eq (h : d.IsUnion o stops edges) {s t : Stop} (hs : s ∈ stops) (ht : t ∈ stops) :
    d.link s.id t.id (s.outcome? o) = s.linkTo o t := by
  cases s with
  | branch b taken => rfl
  | start | step | finish =>
    simp only [link, Stop.outcome?, Stop.linkTo, h.isSignal_eq hs, h.isSignal_eq ht]

/-! ### Steps of the merging -/

/-- A stop is added to the union when it is of the kind of all stops with its id. -/
theorem concat (h : d.IsUnion o stops edges) {d' : Diagram} {s : Stop}
    (hnodes : d'.nodes = firstByKey Node.id (stops.map (Stop.node o) ++ [s.node o]))
    (hedges : d'.edges = d.edges) (hindexed : d'.IsIndexed)
    (hkind : ∀ t ∈ stops, t.id = s.id → t.kind = s.kind) : d'.IsUnion o (stops ++ [s]) edges where
  nodes_eq := by rw [hnodes, List.map_append, List.map_singleton]
  edges_eq := hedges.trans h.edges_eq
  indexed := hindexed
  kind_eq := by
    intro a ha b hb hab
    rw [List.mem_append, List.mem_singleton] at ha hb
    rcases ha with ha | rfl
    · rcases hb with hb | rfl
      · exact h.kind_eq a ha b hb hab
      · exact hkind a ha hab
    · rcases hb with hb | rfl
      · exact (hkind b hb hab.symm).symm
      · rfl
  joins := by
    intro e he
    obtain ⟨a, ha, b, hb, rfl⟩ := h.joins e he
    exact ⟨a, List.mem_append_left _ ha, b, List.mem_append_left _ hb, rfl⟩

/-- A stop whose id is new adds its node. -/
theorem concat_of_node?_eq_none (h : d.IsUnion o stops edges) {s : Stop}
    (hnone : d.node? s.id = none) :
    IsUnion o { d with
      nodes := d.nodes ++ [s.node o]
      index := d.index ++ [(s.id, d.nodes.length)] } (stops ++ [s]) edges := by
  have hne := h.node?_eq_none_iff.1 hnone
  have hnew : (s.node o).id ∉ (stops.map (Stop.node o)).map Node.id := by
    rw [List.map_map]
    intro hmem
    obtain ⟨t, ht, hid⟩ := List.mem_map.1 hmem
    exact hne t ht hid
  refine h.concat ?_ rfl (h.indexed.concat_node (s.node o)) fun t ht hid => absurd hid (hne t ht)
  rw [firstByKey_concat_of_notMem hnew, ← h.nodes_eq]

/-- A stop of the id and the kind of another one adds nothing. -/
theorem concat_of_mem (h : d.IsUnion o stops edges) {s t : Stop} (ht : t ∈ stops)
    (hid : t.id = s.id) (hkind : t.kind = s.kind) : d.IsUnion o (stops ++ [s]) edges := by
  have hold : (s.node o).id ∈ (stops.map (Stop.node o)).map Node.id := by
    rw [List.map_map]
    exact List.mem_map.2 ⟨t, ht, hid⟩
  refine h.concat ?_ rfl h.indexed fun a ha hab =>
    (h.kind_eq a ha t ht (hab.trans hid.symm)).trans hkind
  rw [firstByKey_concat_of_mem hold, ← h.nodes_eq]

/-- Joining two stops adds the edge between them. -/
theorem insertEdge (h : d.IsUnion o stops edges) {s t : Stop} (hs : s ∈ stops) (ht : t ∈ stops) :
    (d.insertEdge s.id t.id (s.outcome? o)).IsUnion o stops (edges ++ [s.edgeTo o t]) := by
  have hjoins : ∀ e ∈ edges ++ [s.edgeTo o t], ∃ a ∈ stops, ∃ b ∈ stops, e = a.edgeTo o b := by
    intro e he
    rw [List.mem_append, List.mem_singleton] at he
    rcases he with he | rfl
    · exact h.joins e he
    · exact ⟨s, hs, t, ht, rfl⟩
  have hkeys : (s.edgeTo o t).key ∈ d.keys ↔ (s.edgeTo o t).key ∈ edges.map Edge.key := by
    simp only [h.indexed.mem_keys_iff, h.edges_eq, List.mem_map]
    constructor
    · rintro ⟨e, he, hkey⟩
      exact ⟨e, mem_of_mem_firstByKey he, hkey⟩
    · rintro ⟨e, he, hkey⟩
      obtain ⟨e', he', hkey'⟩ := exists_mem_firstByKey Edge.key he
      exact ⟨e', he', hkey'.trans hkey⟩
  have hinsert : d.insertEdge s.id t.id (s.outcome? o) =
      if (s.edgeTo o t).key ∈ d.keys then d
      else { d with
        edges := d.edges ++ [s.edgeTo o t]
        keys := d.keys ++ [(s.edgeTo o t).key] } := by
    rw [Diagram.insertEdge, h.link_eq hs ht]
    rfl
  rw [hinsert]
  split
  next hold =>
    refine ⟨h.nodes_eq, ?_, h.indexed, h.kind_eq, hjoins⟩
    rw [firstByKey_concat_of_mem (hkeys.1 hold), ← h.edges_eq]
  next hnew =>
    refine ⟨h.nodes_eq, ?_, h.indexed.concat_edge _, h.kind_eq, hjoins⟩
    rw [firstByKey_concat_of_notMem fun hold => hnew (hkeys.2 hold), ← h.edges_eq]

/-- Edges with the same ends and label are equal: their ends are of the same kinds, so that they are
drawn in the same style. -/
theorem eq_of_key_eq (h : d.IsUnion o stops edges) {e e' : Edge} (he : e ∈ edges) (he' : e' ∈ edges)
    (hkey : e.key = e'.key) : e = e' := by
  obtain ⟨s, hs, t, ht, rfl⟩ := h.joins e he
  obtain ⟨s', hs', t', ht', rfl⟩ := h.joins e' he'
  simp only [Edge.key, Stop.edgeTo, Prod.mk.injEq] at hkey
  obtain ⟨hsource, htarget, hlabel⟩ := hkey
  have hstyle : (s.linkTo o t).style = (s'.linkTo o t').style := by
    rw [Stop.style_linkTo, Stop.style_linkTo, h.kind_eq s hs s' hs' hsource,
      h.kind_eq t ht t' ht' htarget]
  rw [Stop.edgeTo, Stop.edgeTo, hsource, htarget, Link.eq_of_label_of_style hlabel hstyle]

/-- Leaving out repeated edges loses none. -/
theorem mem_edges_iff (h : d.IsUnion o stops edges) {e : Edge} : e ∈ d.edges ↔ e ∈ edges := by
  rw [h.edges_eq]
  constructor
  · exact mem_of_mem_firstByKey
  · intro he
    obtain ⟨e', he', hkey⟩ := exists_mem_firstByKey Edge.key he
    rwa [← h.eq_of_key_eq (mem_of_mem_firstByKey he') he hkey]

/-- Both ends of every edge of a union are there. -/
theorem undeclared?_eq_none (h : d.IsUnion o stops edges) : d.undeclared? = none := by
  rw [undeclared?, List.find?_eq_none]
  intro id hid
  obtain ⟨e, he, hend⟩ := List.mem_flatMap.1 hid
  obtain ⟨s, hs, t, ht, rfl⟩ := h.joins e (h.mem_edges_iff.1 he)
  have hstop : ∃ a ∈ stops, a.id = id := by
    rcases List.mem_pair.1 hend with rfl | rfl
    · exact ⟨s, hs, rfl⟩
    · exact ⟨t, ht, rfl⟩
  obtain ⟨a, ha, rfl⟩ := hstop
  obtain ⟨n, hn, -⟩ := h.exists_node? ha
  obtain ⟨i, hi, -⟩ := Option.bind_eq_some_iff.1 hn
  simp [hi]

end IsUnion

/-! ### Runs of the merging -/

/-- What comes of merging the stops and the edges: their union, or an error that names the id of
two stops of different kinds. -/
def MergesTo (o : Options) (stops : List Stop) (edges : List Edge) :
    Except DiagramError Diagram → Prop
  | .ok d => d.IsUnion o stops edges
  | .error e => ∃ s ∈ stops, ∃ t ∈ stops, s.id = t.id ∧ s.kind ≠ t.kind ∧
      e = .conflict t.id s.kind t.kind

/-- Merging goes on from the union of what came first; an error in what came first is one. -/
theorem MergesTo.bind {result : Except DiagramError Diagram} {stops' : List Stop}
    {edges' : List Edge} {next : Diagram → Except DiagramError Diagram}
    (h : MergesTo o stops edges result) (hsub : stops ⊆ stops')
    (hnext : ∀ d, d.IsUnion o stops edges → MergesTo o stops' edges' (next d)) :
    MergesTo o stops' edges' (result >>= next) := by
  cases result with
  | ok d => exact hnext d h
  | error e =>
    obtain ⟨s, hs, t, ht, hconflict⟩ := h
    exact ⟨s, hsub hs, t, hsub ht, hconflict⟩

theorem insertStop_mergesTo (h : d.IsUnion o stops edges) (s : Stop) :
    MergesTo o (stops ++ [s]) edges (d.insertStop o s) := by
  cases hfind : d.node? s.id with
  | none =>
    rw [insertStop, hfind]
    exact h.concat_of_node?_eq_none hfind
  | some n =>
    obtain ⟨hn, hid⟩ := h.node?_eq_some_iff.1 hfind
    obtain ⟨t, ht, rfl⟩ := h.exists_stop_of_mem_nodes hn
    rw [insertStop, hfind]
    dsimp only
    split
    next hkind => exact h.concat_of_mem ht hid hkind
    next hkind =>
      exact ⟨t, List.mem_append_left _ ht, s, List.mem_append_right _ (.head _), hid, hkind, rfl⟩

/-- Adding the stops of a path adds those that are visible and the edges between them, the edge
from the stop before them included. -/
theorem addStops_mergesTo (l : List Stop) (previous : Option Stop)
    (hprevious : ∀ p ∈ previous, p ∈ stops) (h : d.IsUnion o stops edges) :
    MergesTo o (stops ++ l.filter (·.isVisible o))
      (edges ++ edgesAlong o (previous.toList ++ l.filter (·.isVisible o)))
      (addStops o d (previous.map fun p => (p.id, p.outcome? o)) l) := by
  induction l generalizing d previous stops edges with
  | nil =>
    have hedges : edgesAlong o (previous.toList ++ []) = [] := by cases previous <;> rfl
    rw [List.filter_nil, hedges, List.append_nil, List.append_nil]
    exact h
  | cons s rest ih =>
    rw [addStops]
    split
    next hvisible =>
      rw [List.filter_cons_of_pos hvisible, List.append_cons stops]
      refine (insertStop_mergesTo h s).bind (List.subset_append_left _ _) fun d' hd' => ?_
      have hs : s ∈ stops ++ [s] := List.mem_append_right _ (.head _)
      have hself : ∀ p ∈ some s, p ∈ stops ++ [s] := fun p hp => Option.some.inj hp ▸ hs
      cases previous with
      | none => exact ih (some s) hself hd'
      | some p =>
        have hp : p ∈ stops ++ [s] := List.mem_append_left _ (hprevious p rfl)
        have hrest := ih (some s) hself (hd'.insertEdge hp hs)
        rw [List.append_assoc edges] at hrest
        exact hrest
    next hhidden =>
      rw [List.filter_cons_of_neg hhidden]
      exact ih previous hprevious h

theorem addPaths_mergesTo (paths : List Path) (h : d.IsUnion o stops edges) :
    MergesTo o (stops ++ paths.flatMap (·.visible o))
      (edges ++ paths.flatMap fun p => edgesAlong o (p.visible o)) (addPaths o d paths) := by
  induction paths generalizing d stops edges with
  | nil =>
    rw [List.flatMap_nil, List.flatMap_nil, List.append_nil, List.append_nil]
    exact h
  | cons p rest ih =>
    rw [List.flatMap_cons, List.flatMap_cons, ← List.append_assoc, ← List.append_assoc]
    have hstops : MergesTo o (stops ++ p.visible o) (edges ++ edgesAlong o (p.visible o))
        (addStops o d none p.stops) := by
      rw [Path.visible_eq]
      exact addStops_mergesTo p.stops none (fun q hq => nomatch hq) h
    exact hstops.bind (List.subset_append_left _ _) fun d' hd' => ih hd'

theorem IsUnion.mergesTo_checked (h : d.IsUnion o stops edges) :
    MergesTo o stops edges (match d.undeclared? with
      | some id => .error (.undeclared id)
      | none => .ok d) := by
  rw [h.undeclared?_eq_none]
  exact h

/-- The stops that are drawn, path by path; without paths, the start and the end. -/
def strands (o : Options) (paths : List Path) : List (List Stop) :=
  if paths.isEmpty then [[.start, .finish]] else paths.map (·.visible o)

theorem strands_of_ne_nil (o : Options) {paths : List Path} (h : paths ≠ []) :
    strands o paths = paths.map (·.visible o) := by
  simp [strands, h]

/-- Merging paths gives the union of what is drawn, unless two stops of different kinds have the
same id. -/
theorem ofPaths_mergesTo (o : Options) (paths : List Path) :
    MergesTo o (strands o paths).flatten ((strands o paths).flatMap (edgesAlong o))
      (ofPaths o paths) := by
  rw [ofPaths, strands]
  split
  next =>
    have hvisible : [Stop.start, .finish].filter (·.isVisible o) = [.start, .finish] := by
      simp [Stop.isVisible_start, Stop.isVisible_finish]
    have hmerged := addStops_mergesTo [.start, .finish] none (fun p hp => nomatch hp)
      (isUnion_empty o)
    rw [hvisible] at hmerged
    exact hmerged.bind (List.Subset.refl _) fun d hd => hd.mergesTo_checked
  next =>
    have hmerged := addPaths_mergesTo paths (isUnion_empty o)
    rw [List.flatMap_map, ← List.flatMap_def]
    exact hmerged.bind (List.Subset.refl _) fun d hd => hd.mergesTo_checked

theorem isUnion_of_ofPaths {paths : List Path} (h : ofPaths o paths = .ok d) :
    d.IsUnion o (strands o paths).flatten ((strands o paths).flatMap (edgesAlong o)) := by
  have hmerged := ofPaths_mergesTo o paths
  rw [h] at hmerged
  exact hmerged

/-- The diagram of one path or more is the union of their visible stops and of the edges between
them. -/
theorem isUnion_of_ofPaths_of_ne_nil {paths : List Path} (hne : paths ≠ [])
    (h : ofPaths o paths = .ok d) :
    d.IsUnion o (paths.flatMap (·.visible o))
      (paths.flatMap fun p => edgesAlong o (p.visible o)) := by
  have hunion := isUnion_of_ofPaths h
  rwa [strands_of_ne_nil o hne, ← List.flatMap_def, List.flatMap_map] at hunion

/-- The edges of a diagram join the visible stops that follow each other on a path. -/
theorem mem_edges_ofPaths_iff {paths : List Path} (hne : paths ≠ []) (h : ofPaths o paths = .ok d)
    {e : Edge} :
    e ∈ d.edges ↔ ∃ p ∈ paths, ∃ s t, [s, t] <:+: p.visible o ∧ e = s.edgeTo o t := by
  rw [(isUnion_of_ofPaths_of_ne_nil hne h).mem_edges_iff, List.mem_flatMap]
  simp only [mem_edgesAlong_iff]

/-! ### The union -/

variable {paths : List Path}

/-- Both ends of every edge have a node, and their kinds tell how the edge is drawn. -/
theorem IsUnion.exists_ends (h : d.IsUnion o stops edges) {e : Edge} (he : e ∈ d.edges) :
    ∃ a b, d.node? e.source = some a ∧ d.node? e.target = some b ∧
      e.link.style = styleBetween a.kind b.kind := by
  obtain ⟨s, hs, t, ht, rfl⟩ := h.joins e (h.mem_edges_iff.1 he)
  obtain ⟨a, ha, hakind⟩ := h.exists_node? hs
  obtain ⟨b, hb, hbkind⟩ := h.exists_node? ht
  refine ⟨a, b, ha, hb, ?_⟩
  rw [hakind, hbkind]
  exact Stop.style_linkTo o s t

/-- The arrows of a union are those of its edges, the first one of each pair of ends and label. -/
theorem IsUnion.map_arrow_edges (h : d.IsUnion o stops edges) :
    d.edges.map Edge.arrow = firstByKey Arrow.key (edges.map Edge.arrow) := by
  have hkey (e : Edge) : e.arrow.key = e.key := rfl
  rw [h.edges_eq, map_firstByKey hkey]

theorem ofPaths_nil (h : ofPaths o [] = .ok d) :
    d.nodes = [⟨"s", .start, o.startLabel⟩, ⟨"e", .finish, o.finishLabel⟩] ∧
      d.edges.map Edge.arrow = [⟨"s", "e", none, "plain"⟩] := by
  have hunion := isUnion_of_ofPaths h
  exact ⟨hunion.nodes_eq, hunion.map_arrow_edges⟩

/-- **The diagram is the union of the paths.** For one path or more, its nodes are those of the
visible stops, in the order of the paths, the first one of each id; its edges are drawn as the
arrows between visible stops that follow each other on a path, in the same order, the first one of
each pair of ends and label. For no paths, it is the start joined to the end. In every case the ids
of the nodes are different, the index leads to the place of the node with the id that is looked up,
and to no other, the keys are those of the edges, both ends of every edge have nodes, and the kinds
of these nodes tell how the edge is drawn. -/
theorem ofPaths_eq_union (h : ofPaths o paths = .ok d) :
    (paths ≠ [] →
      d.nodes = firstByKey Node.id ((paths.flatMap (·.visible o)).map (Stop.node o)) ∧
      d.edges.map Edge.arrow =
        firstByKey Arrow.key (paths.flatMap fun p => arrowsAlong o (p.visible o))) ∧
    (paths = [] → d.nodes = [⟨"s", .start, o.startLabel⟩, ⟨"e", .finish, o.finishLabel⟩] ∧
      d.edges.map Edge.arrow = [⟨"s", "e", none, "plain"⟩]) ∧
    (d.nodes.map Node.id).Nodup ∧
    (∀ id i, d.index.lookup id = some i ↔ ∃ n, d.nodes[i]? = some n ∧ n.id = id) ∧
    (∀ id n, d.node? id = some n ↔ n ∈ d.nodes ∧ n.id = id) ∧
    (∀ key, key ∈ d.keys ↔ ∃ e ∈ d.edges, e.arrow.key = key) ∧
    ∀ e ∈ d.edges, ∃ a b, d.node? e.source = some a ∧ d.node? e.target = some b ∧
      e.link.style = styleBetween a.kind b.kind := by
  have hunion := isUnion_of_ofPaths h
  refine ⟨fun hne => ?_, ?_, hunion.nodup_ids,
    fun id i => hunion.indexed.lookup_eq_some_iff hunion.nodup_ids,
    fun id n => hunion.node?_eq_some_iff, fun key => hunion.indexed.mem_keys_iff,
    fun e he => hunion.exists_ends he⟩
  · have hvisible := isUnion_of_ofPaths_of_ne_nil hne h
    have harrows := hvisible.map_arrow_edges
    simp only [List.map_flatMap, map_arrow_edgesAlong] at harrows
    exact ⟨hvisible.nodes_eq, harrows⟩
  · rintro rfl
    exact ofPaths_nil h

/-- Without paths there is no stop, but the diagram is not empty. -/
theorem ofPaths_nil_ne_union :
    ∃ d, ofPaths {} [] = .ok d ∧
      d.nodes ≠ firstByKey Node.id ((([] : List Path).flatMap (·.visible {})).map (Stop.node {})) ∧
      d.edges.map Edge.arrow ≠
        firstByKey Arrow.key (([] : List Path).flatMap fun p => arrowsAlong {} (p.visible {})) :=
  ⟨.of [⟨"s", .start, "Start"⟩, ⟨"e", .finish, "End"⟩] [⟨"s", "e", .plain⟩], by decide +kernel,
    List.cons_ne_nil _ _, List.cons_ne_nil _ _⟩

end Diagram

/-- Where an order goes by express, the depot is told. -/
def Workflow.express : Workflow where
  name := "Express"
  steps := [
    ⟨.externalSignal (.exact "depot"), "Notify", "ext_sig_notify_3", 3, .known [⟨"d0", true⟩]⟩]
  branches := [⟨.decision, "Express", "d0", 2, .always⟩]

namespace Diagram

/-- Express orders and orders for approval in one diagram. The decisions of the two workflows have
the same id, so the first one is shown for both. -/
def orders : Diagram :=
  .of [
    ⟨"s", .start, "Start"⟩,
    ⟨"d0", .decision, "Express"⟩,
    ⟨"e", .finish, "End"⟩,
    ⟨"ext_sig_notify_3", .externalSignal, "Signal 'Notify'"⟩,
    ⟨"1", .activity, "Reserve"⟩,
    ⟨"sig_approved_3", .signalWait, "Approved"⟩,
    ⟨"2", .activity, "Ship"⟩] [
    ⟨"s", "d0", .plain⟩,
    ⟨"d0", "e", .branch "no"⟩,
    ⟨"d0", "ext_sig_notify_3", .branch "yes"⟩,
    ⟨"ext_sig_notify_3", "e", .signal⟩,
    ⟨"s", "1", .plain⟩,
    ⟨"1", "d0", .plain⟩,
    ⟨"d0", "sig_approved_3", .branch "yes"⟩,
    ⟨"sig_approved_3", "e", .branch "no"⟩,
    ⟨"sig_approved_3", "2", .branch "yes"⟩,
    ⟨"2", "e", .plain⟩]

theorem ofPaths_eq_union_orders :
    ofPaths {} (Workflow.express.allPaths ++ Workflow.orderApproval.allPaths) = .ok orders ∧
      orders.edges.map Edge.arrow = [
        ⟨"s", "d0", none, "plain"⟩,
        ⟨"d0", "e", some "no", "branch"⟩,
        ⟨"d0", "ext_sig_notify_3", some "yes", "branch"⟩,
        ⟨"ext_sig_notify_3", "e", some "signal", "signal"⟩,
        ⟨"s", "1", none, "plain"⟩,
        ⟨"1", "d0", none, "plain"⟩,
        ⟨"d0", "sig_approved_3", some "yes", "branch"⟩,
        ⟨"sig_approved_3", "e", some "no", "branch"⟩,
        ⟨"sig_approved_3", "2", some "yes", "branch"⟩,
        ⟨"2", "e", none, "plain"⟩] ∧
      orders.edges.map Edge.arrow = firstByKey Arrow.key ((Workflow.express.allPaths
        ++ Workflow.orderApproval.allPaths).flatMap fun p => arrowsAlong {} (p.visible {})) ∧
      orders.node? "ext_sig_notify_3" =
        some ⟨"ext_sig_notify_3", .externalSignal, "Signal 'Notify'"⟩ ∧
      orders.node? "d1" = none := by
  have h : ofPaths {} (Workflow.express.allPaths ++ Workflow.orderApproval.allPaths)
      = .ok orders := by
    decide +kernel
  obtain ⟨hunion, -, -, -, hnode, -, -⟩ := ofPaths_eq_union h
  refine ⟨h, by decide +kernel, (hunion (by decide +kernel)).2, (hnode _ _).2 (by decide), ?_⟩
  refine Option.eq_none_iff_forall_ne_some.2 fun n hn => ?_
  obtain ⟨hmem, hid⟩ := (hnode _ _).1 hn
  have hother : orders.nodes.all (·.id != "d1") = true := by decide +kernel
  exact absurd hid (by simpa using List.all_eq_true.1 hother n hmem)

-- Where signals are hidden, the outcome is shown on the edge past the signal.
example : (ofPaths { showExternalSignals := false } Workflow.express.allPaths).map
    (·.edges.map Edge.arrow) = .ok [
      ⟨"s", "d0", none, "plain"⟩,
      ⟨"d0", "e", some "no", "branch"⟩,
      ⟨"d0", "e", some "yes", "branch"⟩] := by
  decide +kernel

end Diagram

end WorkflowPaths
