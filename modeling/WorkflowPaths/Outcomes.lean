/-!
# Outcomes

A table of the outcomes of branch points, from their ids to truth values. The ids are in order
and each occurs once, so two tables with the same outcomes are equal. `get?_insert` says what a
table holds after one more outcome is recorded.
-/

namespace WorkflowPaths

/-- Where no key occurs twice, looking up a key finds exactly what the list holds for it. -/
theorem lookup_eq_some_iff {κ ν : Type} [BEq κ] [LawfulBEq κ] {es : List (κ × ν)}
    (h : (es.map Prod.fst).Nodup) {k : κ} {v : ν} : es.lookup k = some v ↔ (k, v) ∈ es := by
  rw [List.lookup_eq_some_iff]
  constructor
  · rintro ⟨before, after, rfl, -⟩
    simp
  · intro hmem
    obtain ⟨before, after, rfl⟩ := List.append_of_mem hmem
    rw [List.map_append, List.map_cons, List.nodup_append] at h
    refine ⟨before, after, rfl, fun p hp => ?_⟩
    simpa using (h.2.2 p.1 (List.mem_map.2 ⟨p, hp, rfl⟩) k List.mem_cons_self).symm

/-- A table of outcomes by branch id. -/
structure Outcomes where
  /-- The ids with their outcomes. -/
  entries : List (String × Bool)
  /-- The ids are in increasing order. -/
  ordered : entries.Pairwise (fun a b => a.1 < b.1)
deriving DecidableEq

namespace Outcomes

/-- The table without outcomes. -/
def empty : Outcomes := ⟨[], .nil⟩

/-- Puts an outcome at its place in an ordered list, over the one that was there. -/
def place (id : String) (outcome : Bool) : List (String × Bool) → List (String × Bool)
  | [] => [(id, outcome)]
  | e :: r =>
    if id < e.1 then (id, outcome) :: e :: r
    else if id = e.1 then (id, outcome) :: r
    else e :: place id outcome r

/-- The ids of a list after `place` are the old ones and the new one. -/
theorem mem_place {id : String} {outcome : Bool} {es : List (String × Bool)}
    {e : String × Bool} (h : e ∈ place id outcome es) : e = (id, outcome) ∨ e ∈ es := by
  induction es with
  | nil => simpa [place] using h
  | cons d r ih => grind [place]

/-- `place` keeps the order of the ids. -/
theorem ordered_place (id : String) (outcome : Bool) (es : List (String × Bool))
    (h : es.Pairwise (fun a b => a.1 < b.1)) :
    (place id outcome es).Pairwise (fun a b => a.1 < b.1) := by
  induction es with
  | nil => simp [place]
  | cons d r ih =>
    rw [List.pairwise_cons] at h
    unfold place
    split
    next hlt =>
      refine List.pairwise_cons.2 ⟨fun e he => ?_, List.pairwise_cons.2 h⟩
      rcases List.mem_cons.1 he with rfl | he
      · exact hlt
      · exact String.lt_trans hlt (h.1 e he)
    next hlt =>
      split
      next heq =>
        refine List.pairwise_cons.2 ⟨fun e he => ?_, h.2⟩
        have := h.1 e he
        simpa [heq] using this
      next hne =>
        refine List.pairwise_cons.2 ⟨fun e he => ?_, ih h.2⟩
        rcases mem_place he with rfl | he
        · -- Neither before `d` nor equal to it, so behind it.
          rcases String.le_total id d.1 with hle | hle
          · exact absurd (String.le_antisymm hle (String.not_lt.1 hlt)) hne
          · exact Std.lt_of_le_of_ne hle (Ne.symm hne)
        · exact h.1 e he

/-- Records an outcome, over the one that was there. -/
def insert (o : Outcomes) (id : String) (outcome : Bool) : Outcomes :=
  ⟨place id outcome o.entries, ordered_place id outcome o.entries o.ordered⟩

/-- The table of a list of outcomes; of two for the same id the later one counts. -/
def ofList (es : List (String × Bool)) : Outcomes :=
  es.foldl (fun o e => o.insert e.1 e.2) empty

/-- The outcome recorded for an id. -/
def get? (o : Outcomes) (id : String) : Option Bool :=
  o.entries.lookup id

/-- How many outcomes are recorded. -/
def size (o : Outcomes) : Nat :=
  o.entries.length

@[simp] theorem get?_empty (id : String) : empty.get? id = none := rfl

theorem lookup_cons (x id : String) (outcome : Bool) (es : List (String × Bool)) :
    ((id, outcome) :: es).lookup x = if x = id then some outcome else es.lookup x := by
  by_cases h : x = id
  · simp [h]
  · have hb : (x == id) = false := by simpa using h
    simp [List.lookup_cons, hb, h]

/-- Looking up an id after `place` finds the new outcome, or what was there for another id. -/
theorem lookup_place (id : String) (outcome : Bool) (es : List (String × Bool)) (x : String) :
    (place id outcome es).lookup x = if x = id then some outcome else es.lookup x := by
  induction es with
  | nil => exact lookup_cons x id outcome []
  | cons e r ih =>
    obtain ⟨d, old⟩ := e
    rw [place]
    split
    next => exact lookup_cons x id outcome _
    next =>
      split
      next heq =>
        subst heq
        rw [lookup_cons, lookup_cons]
        split <;> rfl
      next hne =>
        rw [lookup_cons, lookup_cons, ih]
        by_cases hx : x = d
        · simp [hx, Ne.symm hne]
        · simp [hx]

@[simp] theorem get?_insert (o : Outcomes) (id : String) (outcome : Bool) (x : String) :
    (o.insert id outcome).get? x = if x = id then some outcome else o.get? x :=
  lookup_place id outcome o.entries x

end Outcomes

end WorkflowPaths
