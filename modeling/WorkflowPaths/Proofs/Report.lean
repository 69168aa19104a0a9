import WorkflowPaths.Proofs.Path.Reachability
import WorkflowPaths.Report

/-!
# The report agrees with the paths

The report on a workflow is made without looking at its paths: an entry is said to be unreachable
because of the conditions that it lies under. This module shows that the report is right about the
paths. An entry is reported as unreachable exactly when it is on no path, and one that is reported
because its membership is unknown is on every path.

The findings are in the order of their lines. That the workflow runs no activity is said last, also
where other findings are on the largest line: this finding is the last one before the findings are
put in order, and putting them in order keeps it there.
-/

namespace WorkflowPaths

/-- The id of the entry whose membership the finding is about. -/
def Warning.subject? : Warning → Option String
  | .unknownMembership id _ => some id
  | .unreachable id _ _ => some id
  | .dynamicTarget _ _ => none
  | .noActivities _ => none

/-- The finding is about something on the line. Only a finding about the whole workflow is on none. -/
inductive Warning.IsOnLine : Warning → UInt32 → Prop where
  /-- The entry is on the line. -/
  | unknownMembership {id : String} {line : UInt32} : IsOnLine (.unknownMembership id line) line
  /-- The entry is on the line. -/
  | unreachable {id name : String} {line : UInt32} : IsOnLine (.unreachable id name line) line
  /-- The signal is sent on the line. -/
  | dynamicTarget {signal : String} {line : UInt32} : IsOnLine (.dynamicTarget signal line) line

theorem Warning.IsOnLine.line_eq {warning : Warning} {line : UInt32} (h : warning.IsOnLine line) :
    warning.line = line := by
  cases h <;> rfl

theorem Warning.line_le_max (warning : Warning) : warning.line ≤ 0xFFFFFFFF :=
  UInt32.le_iff_toNat_le.2 (Nat.le_of_lt_succ warning.line.toNat_lt)

namespace Report

variable {w : Workflow} {e : Entry} {warning : Warning}

/-! ### Single findings -/

theorem membershipWarning_eq_unreachable_iff {id name : String} {line : UInt32} :
    membershipWarning w e = some (.unreachable id name line) ↔
      (w.effective e.membership).contradictory = true ∧ id = e.id ∧ name = e.name ∧
        line = e.line := by
  rw [membershipWarning]
  split
  next hunknown =>
    have hconsistent : (w.effective e.membership).contradictory = false := by
      rw [hunknown]
      rfl
    simp [hconsistent]
  next =>
    split
    next hcontra => simp [hcontra, eq_comm]
    next hconsistent => simp [hconsistent]

theorem membershipWarning_eq_unknownMembership_iff {id : String} {line : UInt32} :
    membershipWarning w e = some (.unknownMembership id line) ↔
      e.membership = .unknown ∧ id = e.id ∧ line = e.line := by
  rw [membershipWarning]
  split
  next hunknown => simp [hunknown, eq_comm]
  next cs hknown => simp [hknown]

/-- A finding about an entry's membership is about this entry. -/
theorem subject?_of_membershipWarning (h : membershipWarning w e = some warning) :
    warning.subject? = some e.id := by
  rw [membershipWarning] at h
  split at h
  next =>
    cases h
    rfl
  next =>
    split at h
    next =>
      cases h
      rfl
    next => cases h

theorem eq_dynamicTarget_of_targetWarning {s : Step} (h : targetWarning s = some warning) :
    warning = .dynamicTarget s.name s.line := by
  rw [targetWarning] at h
  split at h
  next =>
    cases h
    rfl
  next => cases h

/-! ### All findings -/

/-- The findings about the workflow's memberships and receivers. -/
def entryFindings (w : Workflow) : List Warning :=
  (w.branches.map Entry.branch ++ w.steps.map Entry.step).filterMap (membershipWarning w)
    ++ w.steps.filterMap targetWarning

theorem mem_entryFindings_iff : warning ∈ entryFindings w ↔
    (∃ e ∈ w.entries, membershipWarning w e = some warning) ∨
      ∃ s ∈ w.steps, targetWarning s = some warning := by
  have hcomm (e : Entry) :
      e ∈ w.branches.map Entry.branch ++ w.steps.map Entry.step ↔ e ∈ w.entries :=
    List.perm_append_comm.mem_iff
  rw [entryFindings, List.mem_append, List.mem_filterMap, List.mem_filterMap]
  simp only [hcomm]

theorem exists_isOnLine_of_mem_entryFindings (h : warning ∈ entryFindings w) :
    ∃ line, warning.IsOnLine line := by
  rcases mem_entryFindings_iff.1 h with ⟨e, -, hfinding⟩ | ⟨s, -, hfinding⟩
  · cases warning with
    | unknownMembership id line => exact ⟨line, .unknownMembership⟩
    | unreachable id name line => exact ⟨line, .unreachable⟩
    | dynamicTarget signal line => exact ⟨line, .dynamicTarget⟩
    | noActivities name => cases subject?_of_membershipWarning hfinding
  · rw [eq_dynamicTarget_of_targetWarning hfinding]
    exact ⟨s.line, .dynamicTarget⟩

theorem findings_of_activity (h : ∃ s ∈ w.steps, s.kind = .activity) :
    findings w = entryFindings w := by
  have hany : w.steps.any (·.kind == .activity) = true := by simpa using h
  simp [findings, entryFindings, hany]

theorem findings_of_no_activity (h : ∀ s ∈ w.steps, s.kind ≠ .activity) :
    findings w = entryFindings w ++ [.noActivities w.name] := by
  have hany : w.steps.any (·.kind == .activity) = false := by simpa using h
  simp [findings, entryFindings, hany]

/-- A finding is about an entry's membership, about the receiver of a signal, or about a workflow
without activities. -/
theorem mem_warnings_iff : warning ∈ (ofWorkflow w).warnings ↔
    warning ∈ entryFindings w ∨
      warning = .noActivities w.name ∧ ∀ s ∈ w.steps, s.kind ≠ .activity := by
  have hsort : warning ∈ (ofWorkflow w).warnings ↔ warning ∈ findings w :=
    (SourceOrder.perm_sort Warning.line (findings w)).mem_iff
  rw [hsort]
  by_cases h : ∀ s ∈ w.steps, s.kind ≠ .activity
  · rw [findings_of_no_activity h, List.mem_append, List.mem_singleton, and_iff_left h]
  · have hactivity : ∃ s ∈ w.steps, s.kind = .activity := by simpa using h
    rw [findings_of_activity hactivity, or_iff_left fun hnone => h hnone.2]

/-- The findings about memberships are those of the single entries. -/
theorem mem_warnings_iff_of_subject {id : String} (h : warning.subject? = some id) :
    warning ∈ (ofWorkflow w).warnings ↔ ∃ e ∈ w.entries, membershipWarning w e = some warning := by
  rw [mem_warnings_iff, mem_entryFindings_iff]
  constructor
  · rintro ((hfinding | ⟨s, -, hfinding⟩) | ⟨rfl, -⟩)
    · exact hfinding
    · rw [eq_dynamicTarget_of_targetWarning hfinding] at h
      cases h
    · cases h
  · exact fun hfinding => .inl (.inl hfinding)

theorem noActivities_mem_warnings_iff {name : String} :
    .noActivities name ∈ (ofWorkflow w).warnings ↔
      name = w.name ∧ ∀ s ∈ w.steps, s.kind ≠ .activity := by
  rw [mem_warnings_iff, mem_entryFindings_iff]
  constructor
  · rintro ((⟨e, -, hfinding⟩ | ⟨s, -, hfinding⟩) | ⟨hfinding, hnone⟩)
    · cases subject?_of_membershipWarning hfinding
    · cases eq_dynamicTarget_of_targetWarning hfinding
    · exact ⟨Warning.noActivities.inj hfinding, hnone⟩
  · rintro ⟨rfl, hnone⟩
    exact .inr ⟨rfl, hnone⟩

/-! ### At most one finding for each entry -/

theorem subjects_sublist (w : Workflow) (l : List Entry) :
    ((l.filterMap (membershipWarning w)).filterMap Warning.subject?).Sublist (l.map Entry.id) := by
  induction l with
  | nil => exact .slnil
  | cons e r ih =>
    rw [List.map_cons]
    cases h : membershipWarning w e with
    | none =>
      rw [List.filterMap_cons_none h]
      exact ih.cons e.id
    | some warning =>
      rw [List.filterMap_cons_some h, List.filterMap_cons_some (subject?_of_membershipWarning h)]
      exact ih.cons_cons e.id

theorem subjects_entryFindings (w : Workflow) :
    (entryFindings w).filterMap Warning.subject? =
      ((w.branches.map Entry.branch ++ w.steps.map Entry.step).filterMap
        (membershipWarning w)).filterMap Warning.subject? := by
  have htargets : (w.steps.filterMap targetWarning).filterMap Warning.subject? = [] := by
    refine List.filterMap_eq_nil_iff.2 fun warning hmem => ?_
    obtain ⟨s, -, hs⟩ := List.mem_filterMap.1 hmem
    rw [eq_dynamicTarget_of_targetWarning hs]
    rfl
  rw [entryFindings, List.filterMap_append, htargets, List.append_nil]

theorem subjects_findings (w : Workflow) :
    (findings w).filterMap Warning.subject? = (entryFindings w).filterMap Warning.subject? := by
  by_cases h : ∀ s ∈ w.steps, s.kind ≠ .activity
  · rw [findings_of_no_activity h, List.filterMap_append]
    exact List.append_nil _
  · have hactivity : ∃ s ∈ w.steps, s.kind = .activity := by simpa using h
    rw [findings_of_activity hactivity]

/-- No two findings about memberships are about the same entry. -/
theorem nodup_subjects (hw : w.WellFormed) :
    ((ofWorkflow w).warnings.filterMap Warning.subject?).Nodup := by
  have hperm : ((ofWorkflow w).warnings.filterMap Warning.subject?).Perm
      ((findings w).filterMap Warning.subject?) :=
    (SourceOrder.perm_sort Warning.line (findings w)).filterMap _
  have hids : ((w.branches.map Entry.branch ++ w.steps.map Entry.step).map Entry.id).Nodup :=
    (List.perm_append_comm.map Entry.id).nodup_iff.2 hw.ids_nodup
  rw [hperm.nodup_iff, subjects_findings, subjects_entryFindings]
  exact (subjects_sublist w _).nodup hids

/-! ### The order of the findings -/

/-- The findings are in the order of their lines. -/
theorem pairwise_warnings (w : Workflow) : (ofWorkflow w).warnings.Pairwise fun a b =>
    ∀ m n, a.IsOnLine m → b.IsOnLine n → m ≤ n := by
  refine (SourceOrder.pairwise_sort Warning.line (findings w)).imp fun {a b} hab m n hm hn => ?_
  rwa [hm.line_eq, hn.line_eq] at hab

/-- That there is no activity is the last finding, and the only one that is not on a line. -/
theorem exists_warnings_eq_concat (h : ∀ s ∈ w.steps, s.kind ≠ .activity) :
    ∃ before, (ofWorkflow w).warnings = before ++ [.noActivities w.name] ∧
      ∀ warning ∈ before, ∃ line, warning.IsOnLine line := by
  refine ⟨SourceOrder.sort Warning.line (entryFindings w), ?_, fun warning hmem => ?_⟩
  · rw [ofWorkflow, findings_of_no_activity h]
    exact SourceOrder.sort_concat fun warning _ => warning.line_le_max
  · have hmem' := (SourceOrder.perm_sort Warning.line (entryFindings w)).mem_iff.1 hmem
    exact exists_isOnLine_of_mem_entryFindings hmem'

end Report

namespace Workflow

/-- **The report agrees with the paths.** An entry is reported as unreachable, with its name and
its line, exactly when it is on no path; it is reported for its unknown membership exactly when
its membership is unknown, and then it is on every path. No entry is reported twice. The findings
are in the order of their lines; that the workflow runs no activity is reported exactly when it is
so, and then behind all other findings, whatever lines these are on. -/
theorem report_agrees_with_paths {o : Options} {w : Workflow} {paths : List Path}
    (h : w.paths o = .ok paths) :
    (∀ e ∈ w.entries,
      (∀ name line, .unreachable e.id name line ∈ (Report.ofWorkflow w).warnings ↔
        name = e.name ∧ line = e.line ∧ ∀ p ∈ paths, e ∉ p.entries) ∧
      (∀ line, .unknownMembership e.id line ∈ (Report.ofWorkflow w).warnings ↔
        line = e.line ∧ e.membership = .unknown) ∧
      (e.membership = .unknown → ∀ p ∈ paths, e ∈ p.entries)) ∧
    ((Report.ofWorkflow w).warnings.filterMap Warning.subject?).Nodup ∧
    ((Report.ofWorkflow w).warnings.Pairwise fun a b =>
      ∀ m n, a.IsOnLine m → b.IsOnLine n → m ≤ n) ∧
    (∀ name, .noActivities name ∈ (Report.ofWorkflow w).warnings ↔
      name = w.name ∧ ∀ s ∈ w.steps, s.kind ≠ .activity) ∧
    ((∀ s ∈ w.steps, s.kind ≠ .activity) →
      ∃ before, (Report.ofWorkflow w).warnings = before ++ [.noActivities w.name] ∧
        ∀ warning ∈ before, ∃ line, warning.IsOnLine line) := by
  have hw := wellFormed_of_paths h
  refine ⟨fun e he => ⟨fun name line => ?_, fun line => ?_, fun hunknown p hp => ?_⟩,
    Report.nodup_subjects hw, Report.pairwise_warnings w,
    fun name => Report.noActivities_mem_warnings_iff, Report.exists_warnings_eq_concat⟩
  · have hnowhere : (∀ p ∈ paths, e ∉ p.entries) ↔
        (w.effective e.membership).contradictory = true := by
      rw [← Bool.not_eq_false, ← exists_mem_entries_iff h he]
      simp
    rw [Report.mem_warnings_iff_of_subject rfl, hnowhere]
    simp only [Report.membershipWarning_eq_unreachable_iff]
    constructor
    · rintro ⟨e', he', hcontra, hid, hname, hline⟩
      obtain rfl := hw.entry_eq_of_id_eq he he' hid
      exact ⟨hname, hline, hcontra⟩
    · rintro ⟨hname, hline, hcontra⟩
      exact ⟨e, he, hcontra, rfl, hname, hline⟩
  · rw [Report.mem_warnings_iff_of_subject rfl]
    simp only [Report.membershipWarning_eq_unknownMembership_iff]
    constructor
    · rintro ⟨e', he', hunknown, hid, hline⟩
      obtain rfl := hw.entry_eq_of_id_eq he he' hid
      exact ⟨hline, hunknown⟩
    · rintro ⟨hline, hunknown⟩
      exact ⟨e, he, hunknown, rfl, hline⟩
  · have hrun := Path.runsThrough_of_mem_paths h hp
    rw [hrun.mem_entries_iff_conditions hw he, hunknown]
    intro c hc
    cases hc

/-- The refund of an order that is disputed but not paid for. -/
def refund : Step :=
  ⟨.childWorkflow, "Refund", "child_refund_9", 9, .known [⟨"d1", true⟩, ⟨"d0", false⟩]⟩

/-- A call at the end of a file, of which it is not known when it takes part. -/
def audit : Step := ⟨.childWorkflow, "Audit", "child_audit_4294967295", 0xFFFFFFFF, .unknown⟩

/-- Only an order that is paid for can be disputed, so there is never a refund. -/
def disputes : Workflow where
  name := "Disputes"
  steps := [audit, refund]
  branches := [
    ⟨.decision, "Paid", "d0", 2, .always⟩,
    ⟨.decision, "Disputed", "d1", 3, .known [⟨"d0", true⟩]⟩]

/-- The audit is found first and reported behind the refund, and both before the missing activity. -/
theorem report_agrees_with_paths_disputes :
    disputes.paths {} = .ok disputes.allPaths ∧
      (∀ p ∈ disputes.allPaths, .step refund ∉ p.entries) ∧
      (∀ p ∈ disputes.allPaths, .step audit ∈ p.entries) ∧
      (Report.ofWorkflow disputes).warnings = [.unreachable "child_refund_9" "Refund" 9,
        .unknownMembership "child_audit_4294967295" 0xFFFFFFFF, .noActivities "Disputes"] ∧
      ((Report.ofWorkflow disputes).warnings.Pairwise fun a b =>
        ∀ m n, a.IsOnLine m → b.IsOnLine n → m ≤ n) ∧
      (Report.ofWorkflow disputes).warnings.getLast? = some (.noActivities "Disputes") := by
  have h : disputes.paths {} = .ok disputes.allPaths :=
    paths_eq_ok_iff.2 ⟨by decide +kernel, by decide +kernel, by decide +kernel, rfl⟩
  obtain ⟨hentries, -, horder, -, hlast⟩ := report_agrees_with_paths h
  obtain ⟨hrefund, -, -⟩ := hentries (.step refund) (step_mem_entries.2 (.tail _ (.head _)))
  obtain ⟨-, -, haudit⟩ := hentries (.step audit) (step_mem_entries.2 (.head _))
  have hwarnings : (Report.ofWorkflow disputes).warnings = [.unreachable "child_refund_9" "Refund" 9,
      .unknownMembership "child_audit_4294967295" 0xFFFFFFFF, .noActivities "Disputes"] := by
    decide +kernel
  have hreported : .unreachable refund.id refund.name refund.line
      ∈ (Report.ofWorkflow disputes).warnings := by
    rw [hwarnings]
    exact .head _
  obtain ⟨before, hbefore, -⟩ := hlast (by decide)
  refine ⟨h, ((hrefund _ _).1 hreported).2.2, haudit rfl, hwarnings, horder, ?_⟩
  rw [hbefore, List.getLast?_concat]
  rfl

end Workflow

end WorkflowPaths
