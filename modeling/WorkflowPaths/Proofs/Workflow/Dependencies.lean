import Mathlib.Data.Finset.Card
import Mathlib.Logic.Relation
import WorkflowPaths.Workflow.Validity

/-!
# Dependencies between branch points

The closure of some conditions is found by a search. This module says what it finds without
the search: a condition *follows* from some conditions when it is one of them, or a condition of
the first branch point that a condition which follows is on. The closure holds exactly the
conditions that follow (`mem_closure_iff`), for all lists of branch points: ids may repeat or be
missing, and branch points may depend on each other in a circle.

A branch point depends on another one when it has a condition on its id. Where no two branch
points share an id, the search finds a circle exactly when there is no rank on branch points
that falls along dependencies: the number of ids that a branch point's conditions lead to is such
a rank (`acyclic_of_not_isCircular`), and a circle that the search finds is one of dependencies
(`transGen_of_isCircular`), along which no rank can fall.
-/

namespace WorkflowPaths

/-- The condition is one of those that the membership is known to have. -/
inductive Membership.Requires : Membership → Condition → Prop where
  /-- The membership is known by a list with the condition. -/
  | known {cs : List Condition} {c : Condition} : c ∈ cs → Requires (.known cs) c

theorem Membership.mem_conditions_iff {m : Membership} {c : Condition} :
    c ∈ m.conditions ↔ m.Requires c := by
  constructor
  · cases m with
    | known cs => exact .known
    | unknown => exact fun h => absurd h List.not_mem_nil
  · rintro ⟨h⟩
    exact h

theorem Membership.requires_known_iff {cs : List Condition} {c : Condition} :
    (Membership.known cs).Requires c ↔ c ∈ cs :=
  mem_conditions_iff.symm

namespace Workflow

/-! ### Conditions that follow from others -/

/-- A condition follows from the conditions `cs`, given the branch points `bs`. -/
inductive Follows (bs : List Branch) (cs : List Condition) : Condition → Prop where
  /-- The condition is one of those given. -/
  | given {c : Condition} : c ∈ cs → Follows bs cs c
  /-- A condition that follows is on a branch point with this condition. -/
  | expand {c d : Condition} {b : Branch} : Follows bs cs c →
      bs.find? (·.id == c.branch) = some b → b.membership.Requires d → Follows bs cs d

/-- What follows from conditions that follow, follows. -/
theorem Follows.trans {bs : List Branch} {cs cs' : List Condition} {d : Condition}
    (h : Follows bs cs d) (hcs : ∀ c ∈ cs, Follows bs cs' c) : Follows bs cs' d := by
  induction h with
  | given hc => exact hcs _ hc
  | expand _ hb hd ih => exact .expand ih hb hd

/-- What follows from some conditions is one of them, or follows from the conditions of a branch
point that one of them is on. -/
theorem follows_iff_head {bs : List Branch} {cs : List Condition} {d : Condition} :
    Follows bs cs d ↔ d ∈ cs ∨ ∃ c ∈ cs, ∃ b, bs.find? (·.id == c.branch) = some b ∧
      Follows bs b.membership.conditions d := by
  constructor
  · intro h
    induction h with
    | given hd => exact .inl hd
    | expand _ hb hd ih =>
      rcases ih with hc | ⟨c, hc, b, hfind, hfollows⟩
      · exact .inr ⟨_, hc, _, hb, .given (Membership.mem_conditions_iff.2 hd)⟩
      · exact .inr ⟨c, hc, b, hfind, .expand hfollows hb hd⟩
  · rintro (hd | ⟨c, hc, b, hfind, hfollows⟩)
    · exact .given hd
    · exact hfollows.trans fun e he =>
        .expand (.given hc) hfind (Membership.mem_conditions_iff.1 he)

/-- Nothing follows from no conditions. -/
theorem not_follows_nil {bs : List Branch} {c : Condition} : ¬ Follows bs [] c := by
  intro h
  induction h with
  | given hc => simp at hc
  | expand _ _ _ ih => exact ih

theorem find?_others_self (id : String) (bs : List Branch) :
    (others id bs).find? (·.id == id) = none := by
  simp [others]

theorem find?_others_of_ne {id x : String} (h : x ≠ id) (bs : List Branch) :
    (others id bs).find? (·.id == x) = bs.find? (·.id == x) := by
  induction bs with
  | nil => rfl
  | cons b r ih =>
    by_cases hb : b.id = id
    · have hbx : b.id ≠ x := fun hx => h (hx.symm.trans hb)
      have hcons : others id (b :: r) = others id r := by simp [others, hb]
      rw [hcons, ih]
      simp [hbx]
    · have hcons : others id (b :: r) = b :: others id r := by simp [others, hb]
      rw [hcons, List.find?_cons, List.find?_cons, ih]

/-- Visiting a condition on an id that no branch point has adds nothing else. -/
theorem follows_cons_of_find?_eq_none {bs : List Branch} {c d : Condition} {cs : List Condition}
    (hc : bs.find? (·.id == c.branch) = none) :
    Follows bs (c :: cs) d ↔ d = c ∨ Follows bs cs d := by
  constructor
  · intro h
    induction h with
    | given hd =>
      rcases List.mem_cons.1 hd with rfl | hd
      · exact .inl rfl
      · exact .inr (.given hd)
    | expand _ hb hd ih =>
      rcases ih with rfl | ih
      · rw [hc] at hb
        cases hb
      · exact .inr (.expand ih hb hd)
  · rintro (rfl | h)
    · exact .given List.mem_cons_self
    · exact h.trans fun e he => .given (List.mem_cons_of_mem c he)

/-- Visiting a condition on a branch point adds the conditions of the branch point, and after
that the branch points with its id are not needed any more. -/
theorem follows_cons_of_find?_eq_some {bs : List Branch} {c d : Condition} {cs : List Condition}
    {b : Branch} (hc : bs.find? (·.id == c.branch) = some b) :
    Follows bs (c :: cs) d ↔
      d = c ∨ Follows (others c.branch bs) (cs ++ b.membership.conditions) d := by
  constructor
  · intro h
    induction h with
    | given hd =>
      rcases List.mem_cons.1 hd with rfl | hd
      · exact .inl rfl
      · exact .inr (.given (List.mem_append_left _ hd))
    | @expand e f b' _ hb hf ih =>
      -- Where the search comes by the same id again, the conditions are already in the queue.
      by_cases he : e.branch = c.branch
      · rw [he, hc] at hb
        cases hb
        exact .inr (.given (List.mem_append_right _ (Membership.mem_conditions_iff.2 hf)))
      · rcases ih with rfl | ih
        · exact absurd rfl he
        · exact .inr (.expand ih ((find?_others_of_ne he bs).trans hb) hf)
  · have hmem : ∀ e ∈ b.membership.conditions, Follows bs (c :: cs) e := fun e he =>
      .expand (.given List.mem_cons_self) hc (Membership.mem_conditions_iff.1 he)
    rintro (rfl | h)
    · exact .given List.mem_cons_self
    · induction h with
      | given he =>
        rcases List.mem_append.1 he with he | he
        · exact .given (List.mem_cons_of_mem c he)
        · exact hmem _ he
      | @expand e f b' _ hb hf ih =>
        have he : e.branch ≠ c.branch := by
          intro he
          rw [he, find?_others_self] at hb
          cases hb
        exact .expand ih ((find?_others_of_ne he bs).symm.trans hb) hf

/-- The search visits exactly the conditions that follow from its queue. -/
theorem mem_visited_iff {unexpanded : List Branch} {queue : List Condition} {d : Condition} :
    d ∈ visited unexpanded queue ↔ Follows unexpanded queue d := by
  fun_induction visited unexpanded queue with
  | case1 => simp [not_follows_nil]
  | case2 unexpanded c rest b hb ih =>
    rw [List.mem_cons, ih, follows_cons_of_find?_eq_some hb]
  | case3 unexpanded c rest hb ih =>
    rw [List.mem_cons, ih, follows_cons_of_find?_eq_none hb]

theorem mem_firstOccurrences_iff {α : Type} [DecidableEq α] {seen l : List α} {x : α} :
    x ∈ firstOccurrences seen l ↔ x ∈ l ∧ x ∉ seen := by
  induction l generalizing seen with
  | nil => simp [firstOccurrences]
  | cons a r ih =>
    rw [firstOccurrences]
    split
    next ha =>
      rw [ih, List.mem_cons]
      constructor
      · rintro ⟨hx, hs⟩
        exact ⟨.inr hx, hs⟩
      · rintro ⟨rfl | hx, hs⟩
        · exact absurd ha hs
        · exact ⟨hx, hs⟩
    next ha =>
      rw [List.mem_cons, ih, List.mem_cons, List.mem_cons]
      by_cases hx : x = a
      · simp [hx, ha]
      · simp [hx]

/-- The closure of some conditions holds exactly the conditions that follow from them. -/
theorem mem_closure_iff {w : Workflow} {cs : List Condition} {d : Condition} :
    d ∈ w.closure cs ↔ Follows w.branches cs d := by
  rw [closure, mem_firstOccurrences_iff, mem_visited_iff]
  simp

/-! ### Branch points by their ids -/

theorem mem_of_branch?_eq_some {w : Workflow} {id : String} {b : Branch}
    (h : w.branch? id = some b) : b ∈ w.branches ∧ b.id = id := by
  constructor
  · exact List.mem_of_find?_eq_some h
  · simpa using List.find?_some h

/-- Where no two branch points share an id, a branch point is the one found under its id. -/
theorem branch?_id {w : Workflow} (hids : (w.branches.map Branch.id).Nodup) {b : Branch}
    (hb : b ∈ w.branches) : w.branch? b.id = some b := by
  cases h : w.branch? b.id with
  | none =>
    rw [branch?, List.find?_eq_none] at h
    exact absurd (beq_self_eq_true b.id) (h b hb)
  | some c =>
    obtain ⟨hc, hid⟩ := mem_of_branch?_eq_some h
    rw [List.inj_on_of_nodup_map hids hc hb hid]

/-! ### Dependencies -/

/-- The branch point `x` of the workflow has a condition on its branch point `y`. -/
def DependsOn (w : Workflow) (x y : Branch) : Prop :=
  x ∈ w.branches ∧ y ∈ w.branches ∧ ∃ c, x.membership.Requires c ∧ c.branch = y.id

/-- No branch point depends on itself, not even through others: there is a rank on branch points
that falls along dependencies. -/
def Acyclic (w : Workflow) : Prop :=
  ∃ rank : Branch → Nat, ∀ x y, w.DependsOn x y → rank y < rank x

theorem isCircular_iff {w : Workflow} {b : Branch} :
    w.isCircular b = true ↔ ∃ c, Follows w.branches b.membership.conditions c ∧ c.branch = b.id := by
  simp [isCircular, mem_closure_iff]

/-- A condition that follows from those of a branch point is on a branch point that this one
depends on, through any number of others. -/
theorem transGen_of_follows {w : Workflow} {x : Branch} (hx : x ∈ w.branches) {c : Condition}
    (h : Follows w.branches x.membership.conditions c) :
    ∀ y ∈ w.branches, c.branch = y.id → Relation.TransGen w.DependsOn x y := by
  induction h with
  | given hc => exact fun y hy hcy => .single ⟨hx, hy, _, Membership.mem_conditions_iff.1 hc, hcy⟩
  | expand _ hb hd ih =>
    intro y hy hdy
    obtain ⟨hmem, hid⟩ := mem_of_branch?_eq_some hb
    exact .tail (ih _ hmem hid.symm) ⟨hmem, hy, _, hd, hdy⟩

/-- A branch point that the search leads back to depends on itself. -/
theorem transGen_of_isCircular {w : Workflow} {b : Branch} (hb : b ∈ w.branches)
    (h : w.isCircular b = true) : Relation.TransGen w.DependsOn b b := by
  obtain ⟨c, hc, hcb⟩ := isCircular_iff.1 h
  exact transGen_of_follows hb hc b hb hcb

/-- A rank that falls along dependencies falls along chains of them. -/
theorem rank_lt_of_transGen {w : Workflow} {rank : Branch → Nat}
    (hrank : ∀ x y, w.DependsOn x y → rank y < rank x) {x y : Branch}
    (h : Relation.TransGen w.DependsOn x y) : rank y < rank x := by
  induction h with
  | single hxy => exact hrank _ _ hxy
  | tail _ hyz ih => exact (hrank _ _ hyz).trans ih

theorem Acyclic.not_transGen_self {w : Workflow} (h : w.Acyclic) (b : Branch) :
    ¬ Relation.TransGen w.DependsOn b b := by
  obtain ⟨rank, hrank⟩ := h
  intro hbb
  exact lt_irrefl _ (rank_lt_of_transGen hrank hbb)

/-- The ids that the conditions of a branch point lead to. -/
def leadsTo (w : Workflow) (b : Branch) : Finset String :=
  ((w.closure b.membership.conditions).map Condition.branch).toFinset

theorem mem_leadsTo_iff {w : Workflow} {b : Branch} {id : String} :
    id ∈ w.leadsTo b ↔ ∃ c, Follows w.branches b.membership.conditions c ∧ c.branch = id := by
  simp [leadsTo, mem_closure_iff]

/-- Along a dependency the search leads to fewer ids, unless it comes back. -/
theorem leadsTo_ssubset {w : Workflow} (hids : (w.branches.map Branch.id).Nodup) {x y : Branch}
    (h : w.DependsOn x y) (hy : w.isCircular y = false) : w.leadsTo y ⊂ w.leadsTo x := by
  obtain ⟨-, hmem, c, hc, hcy⟩ := h
  have hmem' := Membership.mem_conditions_iff.2 hc
  have hfind : w.branch? c.branch = some y := by rw [hcy]; exact branch?_id hids hmem
  rw [Finset.ssubset_iff_of_subset]
  · refine ⟨y.id, mem_leadsTo_iff.2 ⟨c, .given hmem', hcy⟩, fun hself => ?_⟩
    rw [mem_leadsTo_iff, ← isCircular_iff, hy] at hself
    cases hself
  · intro id hid
    obtain ⟨d, hd, rfl⟩ := mem_leadsTo_iff.1 hid
    have hfollows := hd.trans fun e he =>
      .expand (.given hmem') hfind (Membership.mem_conditions_iff.1 he)
    exact mem_leadsTo_iff.2 ⟨d, hfollows, rfl⟩

/-- Where no two branch points share an id and the search finds no circle, the number of ids
that a branch point leads to is a rank. -/
theorem acyclic_of_not_isCircular {w : Workflow} (hids : (w.branches.map Branch.id).Nodup)
    (h : ∀ b ∈ w.branches, w.isCircular b = false) : w.Acyclic := by
  refine ⟨fun b => (w.leadsTo b).card, fun x y hxy => ?_⟩
  exact Finset.card_lt_card (leadsTo_ssubset hids hxy (h y hxy.2.1))

end Workflow

end WorkflowPaths
