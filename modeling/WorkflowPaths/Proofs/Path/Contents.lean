import WorkflowPaths.Proofs.Path.Enumeration

/-!
# What is on a path

A path shows its entries in source order, and the outcomes it records say which ones. Whether an
entry takes part is found out from a flat list of conditions, collected beforehand. This module
shows that the flat list means what the nesting of branch points means: an entry is on a path
exactly when every branch point that one of its conditions is on is itself on the path, with the
outcome that the condition asks for (`mem_entries_iff_conditions`).

From this follows which of the recorded outcomes matter. Two paths have the same stops exactly
when they agree on the branch points that are on the first one; the outcomes of all others are
recorded, and have no effect. This rests on the branch points of a well-formed workflow not
depending on each other in a circle: the entries of the two paths are compared by induction on
the rank of branch points.
-/

namespace WorkflowPaths

/-! ### Source order -/

namespace Workflow

/-- One entry is listed before another one: a step before a branch point, and a step or a branch
point before those behind it in the same list. -/
def ListedBefore (w : Workflow) : Entry → Entry → Prop
  | .step s, .step t => [s, t].Sublist w.steps
  | .step _, .branch _ => True
  | .branch _, .step _ => False
  | .branch b, .branch c => [b, c].Sublist w.branches

/-- One entry comes before another one in source order: it is on an earlier line, or on the same
line and listed before it. -/
def ComesBefore (w : Workflow) (a b : Entry) : Prop :=
  a.line < b.line ∨ a.line = b.line ∧ w.ListedBefore a b

theorem pairwise_entries (w : Workflow) : w.entries.Pairwise w.ListedBefore := by
  rw [entries, List.pairwise_append, List.pairwise_map, List.pairwise_map]
  refine ⟨?_, ?_, ?_⟩
  · exact List.pairwise_iff_forall_sublist.2 fun hst => hst
  · exact List.pairwise_iff_forall_sublist.2 fun hbc => hbc
  · intro a ha b hb
    obtain ⟨s, -, rfl⟩ := List.mem_map.1 ha
    obtain ⟨c, -, rfl⟩ := List.mem_map.1 hb
    trivial

theorem timeline_perm (w : Workflow) : w.timeline.Perm w.entries :=
  SourceOrder.perm_sort Entry.line w.entries

/-- The timeline is in source order. -/
theorem pairwise_timeline (w : Workflow) : w.timeline.Pairwise w.ComesBefore :=
  SourceOrder.pairwise_sort_of_pairwise Entry.line w.pairwise_entries

theorem WellFormed.nodup_timeline {w : Workflow} (h : w.WellFormed) : w.timeline.Nodup :=
  w.timeline_perm.nodup_iff.2 h.ids_nodup.of_map

/-! ### Which entries take part -/

theorem holds_iff {o : Outcomes} {c : Condition} :
    c.holds o = true ↔ o.get? c.branch = some c.outcome := by
  simp [Condition.holds]

/-- The entries that take part under the given outcomes, in source order. -/
def taking (w : Workflow) (o : Outcomes) : List Entry :=
  w.timeline.filter fun e => (w.effective e.membership).satisfied o

theorem satisfied_effective_iff {w : Workflow} {m : Membership} {o : Outcomes} :
    (w.effective m).satisfied o = true ↔
      ∀ c, Follows w.branches m.conditions c → o.get? c.branch = some c.outcome := by
  cases m with
  | known cs =>
    simp [effective, Membership.satisfied, Membership.conditions, mem_closure_iff, holds_iff]
  | unknown =>
    simp [effective, Membership.satisfied, Membership.conditions, not_follows_nil]

theorem mem_taking_iff {w : Workflow} {o : Outcomes} {e : Entry} :
    e ∈ w.taking o ↔ e ∈ w.entries ∧
      ∀ c, Follows w.branches e.membership.conditions c → o.get? c.branch = some c.outcome := by
  rw [taking, List.mem_filter, w.timeline_perm.mem_iff, satisfied_effective_iff]

/-- An entry takes part exactly when, for each of its conditions, the branch point that it is on
takes part and has the outcome that it asks for. -/
theorem mem_taking_iff_conditions {w : Workflow} (hw : w.WellFormed) {o : Outcomes} {e : Entry}
    (he : e ∈ w.entries) :
    e ∈ w.taking o ↔ ∀ c, e.membership.Requires c → ∃ b ∈ w.branches, b.id = c.branch ∧
      .branch b ∈ w.taking o ∧ o.get? b.id = some c.outcome := by
  constructor
  · intro h c hc
    obtain ⟨b, hb, hid⟩ := hw.conditions_known e he c hc
    have hfind : w.branch? c.branch = some b := by
      rw [← hid]
      exact branch?_id hw.branch_ids_nodup hb
    obtain ⟨-, hall⟩ := mem_taking_iff.1 h
    refine ⟨b, hb, hid, mem_taking_iff.2 ⟨branch_mem_entries.2 hb, fun d hd => ?_⟩, ?_⟩
    · exact hall d (follows_iff_head.2 (.inr ⟨c, Membership.mem_conditions_iff.2 hc, b, hfind, hd⟩))
    · rw [hid]
      exact hall c (.given (Membership.mem_conditions_iff.2 hc))
  · intro h
    refine mem_taking_iff.2 ⟨he, fun d hd => ?_⟩
    rcases follows_iff_head.1 hd with hd | ⟨c, hc, b, hfind, hfollows⟩
    · obtain ⟨b, -, hid, -, hget⟩ := h d (Membership.mem_conditions_iff.1 hd)
      rwa [hid] at hget
    · obtain ⟨b', hb', hid, htaking, -⟩ := h c (Membership.mem_conditions_iff.1 hc)
      obtain ⟨hb, hid'⟩ := mem_of_branch?_eq_some hfind
      obtain rfl := hw.branch_eq_of_id_eq hb' hb (hid.trans hid'.symm)
      exact (mem_taking_iff.1 htaking).2 d hfollows

end Workflow

/-! ### Stops -/

/-- The step or branch point that a stop shows. -/
def Stop.shown? : Stop → Option Entry
  | .start => none
  | .step s => some (.step s)
  | .branch b _ => some (.branch b)
  | .finish => none

/-- The steps and branch points on a path, in order. -/
def Path.entries (p : Path) : List Entry :=
  p.stops.filterMap Stop.shown?

/-- The path runs through the workflow: it records an outcome of every branch point, and shows
the entries that take part under the outcomes it records. -/
structure Path.RunsThrough (p : Path) (w : Workflow) : Prop where
  /-- The path is the one of the outcomes that it records. -/
  eq_along : p = .along w.guardedTimeline p.outcomes
  /-- Every branch point has an outcome. -/
  recorded : ∀ b ∈ w.branches, ∃ taken, p.outcomes.get? b.id = some taken

namespace Path

variable {w : Workflow} {p q : Path}

theorem runsThrough_of_mem_paths {o : Options} {paths : List Path} (h : w.paths o = .ok paths)
    (hp : p ∈ paths) : p.RunsThrough w := by
  obtain ⟨k, hk⟩ := List.mem_iff_getElem?.1 hp
  obtain ⟨-, rfl⟩ := (Workflow.getElem?_paths h).1 hk
  refine ⟨rfl, fun b hb => ?_⟩
  obtain ⟨i, hi⟩ := List.mem_iff_getElem?.1 hb
  have hids := (Workflow.wellFormed_of_paths h).branch_ids_nodup
  exact ⟨_, Workflow.get?_outcomesAt hids hi k⟩

theorem stops_along (w : Workflow) (o : Outcomes) :
    (along w.guardedTimeline o).stops = .start :: (w.taking o).map (.ofEntry o) ++ [.finish] := by
  have hmiddle (l : List Entry) (P : Entry → Bool) (f : Entry → Stop) :
      (l.filterMap fun e => if P e then some (f e) else none) = (l.filter P).map f := by
    induction l with
    | nil => rfl
    | cons e r ih => by_cases he : P e <;> simp [he, ih]
  simp only [along, Workflow.guardedTimeline, List.filterMap_map, Function.comp_def,
    Workflow.taking, hmiddle]

@[simp] theorem shown?_ofEntry (o : Outcomes) (e : Entry) : (Stop.ofEntry o e).shown? = some e := by
  cases e <;> rfl

theorem RunsThrough.stops_eq_taking (h : p.RunsThrough w) :
    p.stops = .start :: (w.taking p.outcomes).map (.ofEntry p.outcomes) ++ [.finish] :=
  (congrArg stops h.eq_along).trans (stops_along w p.outcomes)

theorem RunsThrough.entries_eq (h : p.RunsThrough w) : p.entries = w.taking p.outcomes := by
  have hentries : ((w.taking p.outcomes).map (Stop.ofEntry p.outcomes)).filterMap Stop.shown?
      = w.taking p.outcomes := by
    simp [List.filterMap_map]
  rw [entries, h.stops_eq_taking, List.filterMap_append, List.filterMap_cons, hentries]
  exact List.append_nil _

/-- A path starts at the start, passes its entries, and ends at the end. -/
theorem RunsThrough.stops_eq (h : p.RunsThrough w) :
    p.stops = .start :: p.entries.map (.ofEntry p.outcomes) ++ [.finish] := by
  rw [h.entries_eq]
  exact h.stops_eq_taking

theorem RunsThrough.mem_of_mem_entries (h : p.RunsThrough w) {e : Entry} (he : e ∈ p.entries) :
    e ∈ w.entries := by
  rw [h.entries_eq] at he
  exact (Workflow.mem_taking_iff.1 he).1

/-- A branch point is a stop with an outcome exactly when it is on the path and the path records
this outcome. -/
theorem RunsThrough.branch_mem_stops_iff (h : p.RunsThrough w) {b : Branch} {taken : Bool} :
    .branch b taken ∈ p.stops ↔ .branch b ∈ p.entries ∧ p.outcomes.get? b.id = some taken := by
  have hstop : .branch b taken ∈ p.stops ↔
      ∃ e ∈ p.entries, Stop.ofEntry p.outcomes e = .branch b taken := by
    rw [h.stops_eq]
    simp
  rw [hstop]
  constructor
  · rintro ⟨e, he, heq⟩
    cases e with
    | step s => cases heq
    | branch c =>
      cases heq
      obtain ⟨t, ht⟩ := h.recorded b (Workflow.branch_mem_entries.1 (h.mem_of_mem_entries he))
      exact ⟨he, by rw [ht, Option.getD_some]⟩
  · rintro ⟨he, hget⟩
    exact ⟨.branch b, he, by rw [Stop.ofEntry, hget, Option.getD_some]⟩

/-- An entry is on a path exactly when every branch point that one of its conditions is on is on
the path itself, with the outcome that the condition asks for. -/
theorem RunsThrough.mem_entries_iff_conditions (h : p.RunsThrough w) (hw : w.WellFormed)
    {e : Entry} (he : e ∈ w.entries) :
    e ∈ p.entries ↔ ∀ c, e.membership.Requires c → ∃ b ∈ w.branches, b.id = c.branch ∧
      .branch b c.outcome ∈ p.stops := by
  simp only [h.branch_mem_stops_iff, h.entries_eq, Workflow.mem_taking_iff_conditions hw he]

end Path

/-! ### Nesting -/

namespace Workflow

/-- The entry lies under an outcome of a branch point: it has a condition that asks for it, or a
condition on a branch point that lies under it. -/
inductive LiesUnder (w : Workflow) : Entry → Branch → Bool → Prop where
  /-- A condition of the entry asks for the outcome. -/
  | asks {e : Entry} {b : Branch} {taken : Bool} : b ∈ w.branches →
      e.membership.Requires ⟨b.id, taken⟩ → w.LiesUnder e b taken
  /-- A condition of the entry is on a branch point that lies under the outcome. -/
  | nested {e : Entry} {b' b : Branch} {taken' taken : Bool} : b' ∈ w.branches →
      e.membership.Requires ⟨b'.id, taken'⟩ → w.LiesUnder (.branch b') b taken →
      w.LiesUnder e b taken

end Workflow

namespace Path

variable {w : Workflow} {p q : Path}

/-- The branch point that a condition of an entry on the path is on is on the path, with the
outcome that the condition asks for. -/
theorem RunsThrough.branch_mem_stops_of_condition (h : p.RunsThrough w) (hw : w.WellFormed)
    {e : Entry} {b : Branch} {taken : Bool} (hb : b ∈ w.branches)
    (hc : e.membership.Requires ⟨b.id, taken⟩) (he : e ∈ p.entries) :
    .branch b taken ∈ p.stops := by
  obtain ⟨b', hb', hid, hstop⟩ :=
    (h.mem_entries_iff_conditions hw (h.mem_of_mem_entries he)).1 he _ hc
  rwa [hw.branch_eq_of_id_eq hb' hb hid] at hstop

/-- What is on a path lies only under outcomes that the path comes by. -/
theorem RunsThrough.branch_mem_stops_of_liesUnder (h : p.RunsThrough w) (hw : w.WellFormed)
    {e : Entry} {b : Branch} {taken : Bool} (hunder : w.LiesUnder e b taken) :
    e ∈ p.entries → .branch b taken ∈ p.stops := by
  induction hunder with
  | asks hb hc => exact fun he => h.branch_mem_stops_of_condition hw hb hc he
  | nested hb hc _ ih =>
    intro he
    have hstop := h.branch_mem_stops_of_condition hw hb hc he
    exact ih (h.branch_mem_stops_iff.1 hstop).1

/-! ### Which outcomes matter -/

/-- Where two paths agree on the branch points of the first one, an entry is on both or on none,
if this holds of the branch points that its conditions are on. -/
theorem RunsThrough.mem_entries_congr (hp : p.RunsThrough w) (hq : q.RunsThrough w)
    (hw : w.WellFormed)
    (hagree : ∀ b, .branch b ∈ p.entries → p.outcomes.get? b.id = q.outcomes.get? b.id)
    {e : Entry} (he : e ∈ w.entries)
    (hconds : ∀ c, e.membership.Requires c → ∀ b ∈ w.branches, b.id = c.branch →
      (.branch b ∈ p.entries ↔ .branch b ∈ q.entries)) :
    e ∈ p.entries ↔ e ∈ q.entries := by
  rw [hp.mem_entries_iff_conditions hw he, hq.mem_entries_iff_conditions hw he]
  refine forall₂_congr fun c hc => exists_congr fun b => and_congr_right fun hb =>
    and_congr_right fun hid => ?_
  rw [hp.branch_mem_stops_iff, hq.branch_mem_stops_iff, ← hconds c hc b hb hid]
  exact and_congr_right fun hmem => by rw [hagree b hmem]

/-- Where two paths agree on the branch points of the first one, a branch point is on both or on
none. -/
theorem RunsThrough.branch_mem_entries_congr (hp : p.RunsThrough w) (hq : q.RunsThrough w)
    (hw : w.WellFormed)
    (hagree : ∀ b, .branch b ∈ p.entries → p.outcomes.get? b.id = q.outcomes.get? b.id) :
    ∀ b ∈ w.branches, (.branch b ∈ p.entries ↔ .branch b ∈ q.entries) := by
  obtain ⟨rank, hrank⟩ := hw.acyclic
  intro b
  -- The branch points that `b` has conditions on are of a lower rank.
  induction hn : rank b using Nat.strong_induction_on generalizing b with
  | _ n ih =>
    intro hb
    refine hp.mem_entries_congr hq hw hagree (Workflow.branch_mem_entries.2 hb)
      fun c hc b' hb' hid => ?_
    exact ih (rank b') (hn ▸ hrank b b' ⟨hb, hb', c, hc, hid.symm⟩) b' rfl hb'

/-- Where two paths agree on the branch points of the first one, they have the same entries. -/
theorem RunsThrough.entries_congr (hp : p.RunsThrough w) (hq : q.RunsThrough w)
    (hw : w.WellFormed)
    (hagree : ∀ b, .branch b ∈ p.entries → p.outcomes.get? b.id = q.outcomes.get? b.id) :
    p.entries = q.entries := by
  have hmem : ∀ e ∈ w.entries, e ∈ p.entries ↔ e ∈ q.entries := fun e he =>
    hp.mem_entries_congr hq hw hagree he fun c hc b hb _ =>
      hp.branch_mem_entries_congr hq hw hagree b hb
  rw [hp.entries_eq, hq.entries_eq] at hmem ⊢
  refine List.filter_congr fun e he => ?_
  have := hmem e (w.timeline_perm.mem_iff.1 he)
  simpa [Workflow.taking, he] using this

end Path

namespace Workflow

variable {o : Options} {w : Workflow} {paths : List Path} {p q : Path}

/-- **A path shows exactly what can be reached.** It starts at the start, passes entries of the
workflow in source order, each at most once, and ends at the end. A branch point on it has the
outcome that the path records. An entry of unknown membership is on every path; any other one is
on the path exactly when every branch point that one of its conditions is on is on the path
itself, with the outcome that the condition asks for. So an entry is on no path that misses an
outcome which the entry lies under, however deep. -/
theorem path_shows_reachable (h : w.paths o = .ok paths) (hp : p ∈ paths) :
    p.stops = .start :: p.entries.map (.ofEntry p.outcomes) ++ [.finish] ∧
    p.entries.Sublist w.timeline ∧ w.timeline.Perm w.entries ∧
    w.timeline.Pairwise w.ComesBefore ∧ p.entries.Nodup ∧
    (∀ b taken, .branch b taken ∈ p.stops → p.outcomes.get? b.id = some taken) ∧
    (∀ e ∈ w.entries, e.membership = .unknown → e ∈ p.entries) ∧
    (∀ e ∈ w.entries, ∀ cs, e.membership = .known cs →
      (e ∈ p.entries ↔ ∀ c ∈ cs, ∃ b ∈ w.branches, b.id = c.branch ∧
        .branch b c.outcome ∈ p.stops)) ∧
    ∀ e b taken, w.LiesUnder e b taken → .branch b taken ∉ p.stops → e ∉ p.entries := by
  have hw := wellFormed_of_paths h
  have hrun := Path.runsThrough_of_mem_paths h hp
  have hsub : p.entries.Sublist w.timeline := by
    rw [hrun.entries_eq]
    exact List.filter_sublist
  refine ⟨hrun.stops_eq, hsub, w.timeline_perm, w.pairwise_timeline, hsub.nodup hw.nodup_timeline,
    ?_, ?_, ?_, ?_⟩
  · exact fun b taken hstop => (hrun.branch_mem_stops_iff.1 hstop).2
  · intro e he hunknown
    rw [hrun.mem_entries_iff_conditions hw he, hunknown]
    intro c hc
    cases hc
  · intro e he cs hknown
    rw [hrun.mem_entries_iff_conditions hw he, hknown]
    simp only [Membership.requires_known_iff]
  · intro e b taken hunder hstop he
    exact hstop (hrun.branch_mem_stops_of_liesUnder hw hunder he)

theorem along_mem_orderApproval (k : Nat) (hk : k < 2 ^ 2) :
    .along orderApproval.guardedTimeline (orderApproval.outcomesAt k) ∈ orderApproval.allPaths :=
  List.mem_of_getElem? (getElem?_allPaths.2 ⟨hk, rfl⟩)

/-- An order that is not above the limit is not shipped, also where an approval is recorded. An
order that is approved is shipped at last, though the steps are listed before the branch points. -/
theorem path_shows_reachable_orderApproval :
    (∃ p ∈ orderApproval.allPaths, p.outcomes.get? approved.id = some true ∧
      .branch aboveLimit true ∉ p.stops ∧ .step ship ∉ p.entries) ∧
    ∃ p ∈ orderApproval.allPaths,
      p.entries = [.step reserve, .branch aboveLimit, .branch approved, .step ship] ∧
      p.entries.Pairwise orderApproval.ComesBefore := by
  refine ⟨?_, ?_⟩
  · have hp := along_mem_orderApproval 2 (by decide)
    obtain ⟨-, -, -, -, -, -, -, -, hnested⟩ := path_shows_reachable orderApproval_paths hp
    have hunder : orderApproval.LiesUnder (.step ship) aboveLimit true :=
      .nested (.tail _ (.head _)) (.known (.head _)) (.asks (.head _) (.known (.head _)))
    have hmissing : .branch aboveLimit true ∉
        (Path.along orderApproval.guardedTimeline (orderApproval.outcomesAt 2)).stops := by
      decide +kernel
    exact ⟨_, hp, by decide +kernel, hmissing, hnested _ _ _ hunder hmissing⟩
  · have hp := along_mem_orderApproval 3 (by decide)
    obtain ⟨-, hsub, -, horder, -⟩ := path_shows_reachable orderApproval_paths hp
    exact ⟨_, hp, by decide +kernel, horder.sublist hsub⟩

/-- **Outcomes of branch points that are not on the path do not matter**: two paths have the same
stops exactly when they record the same outcomes of the branch points on the first one. -/
theorem stops_eq_iff_agree (h : w.paths o = .ok paths) (hp : p ∈ paths) (hq : q ∈ paths) :
    p.stops = q.stops ↔
      ∀ b taken, .branch b taken ∈ p.stops → p.outcomes.get? b.id = q.outcomes.get? b.id := by
  have hw := wellFormed_of_paths h
  have hprun := Path.runsThrough_of_mem_paths h hp
  have hqrun := Path.runsThrough_of_mem_paths h hq
  constructor
  · intro hstops b taken hstop
    have hptaken := (hprun.branch_mem_stops_iff.1 hstop).2
    rw [hstops] at hstop
    rw [hptaken, (hqrun.branch_mem_stops_iff.1 hstop).2]
  · intro hagree
    have hagree' : ∀ b, .branch b ∈ p.entries → p.outcomes.get? b.id = q.outcomes.get? b.id := by
      intro b hb
      obtain ⟨taken, ht⟩ :=
        hprun.recorded b (branch_mem_entries.1 (hprun.mem_of_mem_entries hb))
      exact hagree b taken (hprun.branch_mem_stops_iff.2 ⟨hb, ht⟩)
    rw [hprun.stops_eq, hqrun.stops_eq, ← hprun.entries_congr hqrun hw hagree']
    have hmap : p.entries.map (Stop.ofEntry p.outcomes) = p.entries.map (.ofEntry q.outcomes) := by
      refine List.map_congr_left fun e he => ?_
      cases e with
      | step s => rfl
      | branch b => rw [Stop.ofEntry, Stop.ofEntry, hagree' b he]
    rw [hmap]

/-- For an order that is not above the limit, the approval makes no difference. -/
theorem stops_eq_iff_agree_orderApproval :
    ∃ p ∈ orderApproval.allPaths, ∃ q ∈ orderApproval.allPaths,
      p.outcomes.get? approved.id ≠ q.outcomes.get? approved.id ∧ p.stops = q.stops := by
  have hp := along_mem_orderApproval 0 (by decide)
  have hq := along_mem_orderApproval 2 (by decide)
  refine ⟨_, hp, _, hq, by decide +kernel, ?_⟩
  rw [stops_eq_iff_agree orderApproval_paths hp hq]
  have hstops : (Path.along orderApproval.guardedTimeline (orderApproval.outcomesAt 0)).stops
      = [.start, .step reserve, .branch aboveLimit false, .finish] := by
    decide +kernel
  intro b taken hstop
  rw [hstops] at hstop
  obtain ⟨rfl, -⟩ : b = aboveLimit ∧ taken = false := by simpa using hstop
  decide +kernel

end Workflow

end WorkflowPaths
