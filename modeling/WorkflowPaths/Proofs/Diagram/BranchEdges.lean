import WorkflowPaths.Proofs.Diagram.Flow

/-!
# The edges that leave a branch point

An edge that leaves a branch point shows the label of an outcome. It is there because a path takes
the branch point with an outcome of this label and goes on at the other end of the edge
(`exists_outcome_edge_iff`). Whether the label tells which outcome it was depends on the two
outcomes having different labels. The labels of the options always differ, but a wait for a signal
may have labels of its own, and nothing keeps these from being the same, or one of them from being
the other label of the options.
-/

namespace WorkflowPaths

/-! ### Labels of outcomes -/

/-- The labels of outcomes differ in valid options. -/
theorem Options.trueLabel_ne_falseLabel_of_check {o : Options} (h : o.check = .ok ()) :
    o.trueLabel ≠ o.falseLabel := by
  intro heq
  have hflaws := o.flaws_eq_nil_of_check h
  simp [Options.flaws, heq] at hflaws

/-- The outcomes of a branch point without labels of its own have different labels. -/
theorem Branch.outcomeLabel_ne_of_check {o : Options} (h : o.check = .ok ()) {b : Branch}
    (htrue : b.ownLabel true = none) (hfalse : b.ownLabel false = none) :
    b.outcomeLabel o true ≠ b.outcomeLabel o false := by
  rw [outcomeLabel, outcomeLabel, htrue, hfalse]
  exact Options.trueLabel_ne_falseLabel_of_check h

/-- Of different labels, each belongs to one outcome. -/
theorem Branch.outcomeLabel_inj {o : Options} {b : Branch}
    (hne : b.outcomeLabel o true ≠ b.outcomeLabel o false) {taken taken' : Bool}
    (h : b.outcomeLabel o taken = b.outcomeLabel o taken') : taken = taken' := by
  cases taken <;> cases taken'
  · rfl
  · exact absurd h.symm hne
  · exact absurd h hne
  · rfl

/-! ### Edges between nodes -/

/-- The edge leads from one node of the diagram to another one. -/
def Diagram.Joins (d : Diagram) (e : Edge) (a b : Node) : Prop :=
  e ∈ d.edges ∧ d.node? e.source = some a ∧ d.node? e.target = some b

/-- One of the paths takes the branch point with the given outcome, and the next thing that is drawn
on it is the node. -/
def Branch.ContinuesTo (o : Options) (paths : List Path) (b : Branch) (taken : Bool) (n : Node) :
    Prop :=
  ∃ p ∈ paths, ∃ t, [.branch b taken, t] <:+: p.visible o ∧ t.node o = n

section

variable {o : Options} {w : Workflow} {paths : List Path} {p : Path} {d : Diagram} {b : Branch}

/-- The edges between two nodes are those between neighbours that the nodes show. -/
theorem Diagram.joins_iff (hw : w.WellFormed) (hruns : ∀ p ∈ paths, p.RunsThrough w)
    (hne : paths ≠ []) (h : ofPaths o paths = .ok d) {e : Edge} {a n : Node} :
    d.Joins e a n ↔ ∃ p ∈ paths, ∃ s t, [s, t] <:+: p.visible o ∧ e = s.edgeTo o t ∧
      s.node o = a ∧ t.node o = n := by
  have hends {p : Path} (hp : p ∈ paths) {s t : Stop} (hst : [s, t] <:+: p.visible o) :
      d.node? s.id = some (s.node o) ∧ d.node? t.id = some (t.node o) :=
    ⟨node?_id hruns h hw hp (hst.subset (by simp)), node?_id hruns h hw hp (hst.subset (by simp))⟩
  constructor
  · rintro ⟨he, ha, hn⟩
    obtain ⟨p, hp, s, t, hst, rfl⟩ := (mem_edges_ofPaths_iff hne h).1 he
    obtain ⟨hs, ht⟩ := hends hp hst
    exact ⟨p, hp, s, t, hst, rfl, Option.some.inj (hs.symm.trans ha),
      Option.some.inj (ht.symm.trans hn)⟩
  · rintro ⟨p, hp, s, t, hst, rfl, rfl, rfl⟩
    exact ⟨(mem_edges_ofPaths_iff hne h).2 ⟨p, hp, s, t, hst, rfl⟩, hends hp hst⟩

/-- The node of a branch point shows this branch point and nothing else. -/
theorem Path.RunsThrough.eq_branch_of_node_eq (hw : w.WellFormed) (h : p.RunsThrough w)
    (hb : b ∈ w.branches) {s : Stop} (hs : s ∈ p.visible o)
    (hnode : s.node o = Entry.node o (.branch b)) : ∃ taken, s = .branch b taken := by
  have hkind : s.kind = b.kind := congrArg Node.kind hnode
  rcases h.mem_visible_iff.1 hs with rfl | rfl | ⟨e, he, -, rfl⟩
  · exact absurd hkind.symm (Entry.kind_ne_start (.branch b))
  · exact absurd hkind.symm (Entry.kind_ne_finish (.branch b))
  · have hid : e.id = b.id := (Stop.id_ofEntry _ e).symm.trans (congrArg Node.id hnode)
    obtain rfl := hw.entry_eq_of_id_eq (h.mem_of_mem_entries he)
      (Workflow.branch_mem_entries.2 hb) hid
    exact ⟨_, rfl⟩

namespace Workflow

/-- An edge from a branch point with the label of an outcome is there because a path takes the
branch point with an outcome of this label. -/
theorem exists_outcome_edge_iff (h : w.paths o = .ok paths) (hd : Diagram.ofPaths o paths = .ok d)
    (hb : b ∈ w.branches) {label : String} {n : Node} :
    (∃ e, d.Joins e (Entry.node o (.branch b)) n ∧ e.link.label = some label) ↔
      ∃ taken, b.outcomeLabel o taken = label ∧ b.ContinuesTo o paths taken n := by
  have hw := wellFormed_of_paths h
  have hruns (p : Path) (hp : p ∈ paths) := Path.runsThrough_of_mem_paths h hp
  simp only [Diagram.joins_iff hw hruns (paths_ne_nil h) hd]
  constructor
  · rintro ⟨_, ⟨p, hp, s, t, hst, rfl, hnode, hn⟩, hlabel⟩
    obtain ⟨taken, rfl⟩ :=
      (hruns p hp).eq_branch_of_node_eq hw hb (hst.subset (by simp)) hnode
    exact ⟨taken, Option.some.inj hlabel, p, hp, t, hst, hn⟩
  · rintro ⟨taken, rfl, p, hp, t, hst, hn⟩
    exact ⟨_, ⟨p, hp, .branch b taken, t, hst, rfl, rfl, hn⟩, rfl⟩

/-- **The edges of a branch point are faithful to its outcomes if these have different labels.**
Then an edge from the branch point to a node has the label of an outcome exactly when a path takes
the branch point with this outcome and the node is the next thing drawn on it. The labels differ
unless the branch point has one of its own. Where they are the same, such an edge only says that a
path with one of the two outcomes goes on at the node. -/
theorem branch_edges_faithful (h : w.paths o = .ok paths) (hd : Diagram.ofPaths o paths = .ok d)
    (hb : b ∈ w.branches) :
    (b.outcomeLabel o true ≠ b.outcomeLabel o false → ∀ taken n,
      ((∃ e, d.Joins e (Entry.node o (.branch b)) n ∧
        e.link.label = some (b.outcomeLabel o taken)) ↔ b.ContinuesTo o paths taken n)) ∧
    (b.ownLabel true = none → b.ownLabel false = none →
      b.outcomeLabel o true ≠ b.outcomeLabel o false) ∧
    (b.outcomeLabel o true = b.outcomeLabel o false → ∀ taken n,
      ((∃ e, d.Joins e (Entry.node o (.branch b)) n ∧
        e.link.label = some (b.outcomeLabel o taken)) ↔
          b.ContinuesTo o paths true n ∨ b.ContinuesTo o paths false n)) := by
  simp only [exists_outcome_edge_iff h hd hb]
  refine ⟨fun hne taken n => ?_, Branch.outcomeLabel_ne_of_check (paths_eq_ok_iff.1 h).1,
    fun heq taken n => ?_⟩
  · constructor
    · rintro ⟨taken', hlabel, hcontinues⟩
      rwa [← Branch.outcomeLabel_inj hne hlabel]
    · exact fun hcontinues => ⟨taken, rfl, hcontinues⟩
  · have hall (taken' : Bool) : b.outcomeLabel o taken' = b.outcomeLabel o taken := by
      cases taken <;> cases taken' <;> simp [heq]
    simp [hall, or_comm]

end Workflow

end

namespace Workflow

/-- An order is shipped after an approval, and only then. -/
theorem branch_edges_faithful_orderApproval :
    orderApproval.paths {} = .ok orderApproval.allPaths ∧
      Diagram.ofPaths {} orderApproval.allPaths = .ok orderApprovalDiagram ∧
      approved ∈ orderApproval.branches ∧
      approved.outcomeLabel {} true ≠ approved.outcomeLabel {} false ∧
      approved.ContinuesTo {} orderApproval.allPaths true ⟨"2", .activity, "Ship"⟩ ∧
      ¬ approved.ContinuesTo {} orderApproval.allPaths false ⟨"2", .activity, "Ship"⟩ := by
  have hd : Diagram.ofPaths {} orderApproval.allPaths = .ok orderApprovalDiagram := by
    decide +kernel
  have hb : approved ∈ orderApproval.branches := .tail _ (.head _)
  obtain ⟨hfaithful, hlabels, -⟩ := branch_edges_faithful orderApproval_paths hd hb
  have hne := hlabels rfl rfl
  refine ⟨orderApproval_paths, hd, hb, hne, ?_, ?_⟩
  · refine (hfaithful hne _ _).1
      ⟨⟨approved.id, "2", .branch "yes"⟩, ⟨?_, ?_, ?_⟩, rfl⟩ <;> decide +kernel
  · have hnone : ∀ e ∈ orderApprovalDiagram.edges, e.target = "2" →
        e.link.label ≠ some (approved.outcomeLabel {} false) := by
      decide +kernel
    rw [← hfaithful hne]
    rintro ⟨e, ⟨he, -, htarget⟩, hlabel⟩
    have hship : "2" = e.target :=
      ((Diagram.isUnion_of_ofPaths hd).node?_eq_some_iff.1 htarget).2
    exact hnone e he hship.symm hlabel

/-- The wait for a payment, which is done when the payment came and when it did not. -/
def paid : Branch :=
  ⟨.signalWait "paid" "1h" (some "done") (some "done"), "Paid", "sig_paid_1", 1, .always⟩

/-- The receipt for a payment that came. -/
def receipt : Step := ⟨.activity, "Receipt", "1", 2, .known [⟨"sig_paid_1", true⟩]⟩

/-- A payment is waited for, and a receipt is sent if it came. -/
def payment : Workflow := ⟨"Payment", [receipt], [paid]⟩

/-- The diagram of the payment. -/
def paymentDiagram : Diagram :=
  .of [
    ⟨"s", .start, "Start"⟩,
    ⟨"sig_paid_1", .signalWait, "Paid"⟩,
    ⟨"e", .finish, "End"⟩,
    ⟨"1", .activity, "Receipt"⟩] [
    ⟨"s", "sig_paid_1", .plain⟩,
    ⟨"sig_paid_1", "e", .branch "done"⟩,
    ⟨"sig_paid_1", "1", .branch "done"⟩,
    ⟨"1", "e", .plain⟩]

/-- An edge with the label of a payment that came leads to the end, where only a payment that did
not come leads. -/
theorem payment_edge_not_faithful :
    payment.paths {} = .ok payment.allPaths ∧
      Diagram.ofPaths {} payment.allPaths = .ok paymentDiagram ∧ paid ∈ payment.branches ∧
      (∃ e, paymentDiagram.Joins e (Entry.node {} (.branch paid)) (Stop.finish.node {}) ∧
        e.link.label = some (paid.outcomeLabel {} true)) ∧
      ¬ paid.ContinuesTo {} payment.allPaths true (Stop.finish.node {}) := by
  refine ⟨?_, by decide +kernel, .head _,
    ⟨⟨paid.id, finishId, .branch "done"⟩, ⟨?_, ?_, ?_⟩, rfl⟩, ?_⟩
  · exact paths_eq_ok_iff.2 ⟨by decide +kernel, by decide +kernel, by decide +kernel, rfl⟩
  · decide +kernel
  · decide +kernel
  · decide +kernel
  · rintro ⟨p, hp, t, hst, hnode⟩
    have hvisible : payment.allPaths.map (·.visible {}) =
        [[.start, .branch paid false, .finish],
          [.start, .branch paid true, .step receipt, .finish]] := by
      decide +kernel
    have hmem : p.visible {} ∈ payment.allPaths.map (·.visible {}) := List.mem_map_of_mem hp
    rw [hvisible] at hmem
    rcases List.mem_pair.1 hmem with heq | heq
    · rw [heq] at hst
      simp [List.infix_cons_iff, List.prefix_cons_iff] at hst
    · rw [heq] at hst
      obtain rfl : t = .step receipt := by
        simpa [List.infix_cons_iff, List.prefix_cons_iff] using hst
      exact absurd hnode (by decide)

end Workflow

end WorkflowPaths
