import Mathlib.Data.List.Nodup
import WorkflowPaths.Diagram.Merge
import WorkflowPaths.Outcomes

/-!
# Looking up nodes and edges

A diagram keeps, beside its nodes and edges, an index of the nodes and the keys of the edges. While
paths are merged only these are looked at, to find a node or to see that an edge is there already.
This module shows that they always say what the two lists say.

A diagram is *indexed* when its index and its keys are those of its nodes and edges
(`Diagram.IsIndexed`). Adding a stop and adding an edge keep it so (`IsIndexed.concat_node`,
`IsIndexed.concat_edge`), and in an indexed diagram a look-up is a search through the list
(`IsIndexed.node?_eq_find?`, `IsIndexed.mem_keys_iff`).
-/

namespace WorkflowPaths.Diagram

/-- The diagram with the given nodes and edges. -/
def of (nodes : List Node) (edges : List Edge) : Diagram where
  nodes := nodes
  index := nodes.zipIdx.map fun x => (x.1.id, x.2)
  edges := edges
  keys := edges.map Edge.key

/-- The index and the keys of the diagram are those of its nodes and edges. -/
def IsIndexed (d : Diagram) : Prop :=
  d = .of d.nodes d.edges

variable {d : Diagram}

theorem isIndexed_empty : empty.IsIndexed := rfl

/-! ### Looking up -/

/-- The index has for an id the place of the first node with this id. -/
theorem lookup_index (nodes : List Node) (k : Nat) (id : String) :
    ((nodes.zipIdx k).map fun x => (x.1.id, x.2)).lookup id
      = (nodes.findIdx? (·.id == id)).map (· + k) := by
  induction nodes generalizing k with
  | nil => rfl
  | cons n r ih =>
    rw [List.zipIdx_cons, List.map_cons, List.lookup_cons, List.findIdx?_cons, BEq.comm, ih]
    cases n.id == id with
    | true => simp
    | false => simp [Function.comp_def, Nat.add_comm, Nat.add_left_comm]

theorem node?_of (nodes : List Node) (edges : List Edge) (id : String) :
    (of nodes edges).node? id = nodes.find? (·.id == id) := by
  have hlookup : (of nodes edges).index.lookup id = nodes.findIdx? (·.id == id) :=
    (lookup_index nodes 0 id).trans Option.map_id'
  rw [node?, hlookup, List.find?_eq_bind_findIdx?_getElem?]
  rfl

namespace IsIndexed

/-- Looking up an id is searching for a node with this id. -/
theorem node?_eq_find? (h : d.IsIndexed) (id : String) :
    d.node? id = d.nodes.find? (·.id == id) := by
  have hfind := node?_of d.nodes d.edges id
  rwa [← h] at hfind

theorem index_eq (h : d.IsIndexed) : d.index = d.nodes.zipIdx.map fun x => (x.1.id, x.2) :=
  congrArg index h

theorem keys_eq (h : d.IsIndexed) : d.keys = d.edges.map Edge.key :=
  congrArg keys h

/-- The keys are those of the edges. -/
theorem mem_keys_iff (h : d.IsIndexed) {key : String × String × Option String} :
    key ∈ d.keys ↔ ∃ e ∈ d.edges, e.key = key := by
  rw [h.keys_eq, List.mem_map]

/-- Where no two nodes share an id, the index leads from an id to the place of its node, and from no
other text anywhere. -/
theorem lookup_eq_some_iff (h : d.IsIndexed) (hids : (d.nodes.map Node.id).Nodup) {id : String}
    {i : Nat} : d.index.lookup id = some i ↔ ∃ n, d.nodes[i]? = some n ∧ n.id = id := by
  have hkeys : (d.index.map Prod.fst).Nodup := by
    rw [h.index_eq, List.map_map]
    have hfst : Prod.fst ∘ (fun x : Node × Nat => (x.1.id, x.2)) = Node.id ∘ Prod.fst := rfl
    rwa [hfst, ← List.map_map, List.zipIdx_map_fst]
  rw [WorkflowPaths.lookup_eq_some_iff hkeys, h.index_eq, List.mem_map]
  constructor
  · rintro ⟨⟨n, j⟩, hmem, heq⟩
    cases heq
    exact ⟨n, List.mk_mem_zipIdx_iff_getElem?.1 hmem, rfl⟩
  · rintro ⟨n, hn, rfl⟩
    exact ⟨(n, i), List.mk_mem_zipIdx_iff_getElem?.2 hn, rfl⟩

theorem node?_eq_some_iff (h : d.IsIndexed) (hids : (d.nodes.map Node.id).Nodup) {id : String}
    {n : Node} : d.node? id = some n ↔ n ∈ d.nodes ∧ n.id = id := by
  rw [node?, Option.bind_eq_some_iff]
  simp only [h.lookup_eq_some_iff hids]
  constructor
  · rintro ⟨i, ⟨m, hm, hid⟩, hn⟩
    cases hm.symm.trans hn
    exact ⟨List.mem_of_getElem? hn, hid⟩
  · rintro ⟨hn, hid⟩
    obtain ⟨i, hi⟩ := List.mem_iff_getElem?.1 hn
    exact ⟨i, ⟨n, hi, hid⟩, hi⟩

/-! ### Steps -/

/-- A node that is added is put into the index with its place. -/
theorem concat_node (h : d.IsIndexed) (n : Node) :
    IsIndexed { d with nodes := d.nodes ++ [n], index := d.index ++ [(n.id, d.nodes.length)] } := by
  rw [IsIndexed, of, List.zipIdx_append, List.map_append, ← h.index_eq, ← h.keys_eq,
    Nat.zero_add]
  rfl

/-- An edge that is added is put into the keys. -/
theorem concat_edge (h : d.IsIndexed) (e : Edge) :
    IsIndexed { d with edges := d.edges ++ [e], keys := d.keys ++ [e.key] } := by
  rw [IsIndexed, of, List.map_append, ← h.index_eq, ← h.keys_eq]
  rfl

end IsIndexed

end WorkflowPaths.Diagram
