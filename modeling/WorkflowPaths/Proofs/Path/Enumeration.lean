import Mathlib.Data.Nat.Bitwise
import WorkflowPaths.Diagram.Document
import WorkflowPaths.Path.Enumeration
import WorkflowPaths.Proofs.Counting
import WorkflowPaths.Proofs.Workflow.WellFormed

/-!
# The enumeration is exact

The paths of a workflow count in binary: the product of the outcomes, read against the branch
points from the last one to the first, gives the branch point with index `i` the outcome that bit
`i` of the path's number says (`allPaths_eq`). No outcome gets lost in a table, because the ids of
a well-formed workflow are different, so every assignment of outcomes belongs to exactly one path.

Numbers are exact here. The count of runs that the output and the limits work with saturates, but
not for a workflow whose paths are enumerated (`runs_eq_two_pow`).
-/

namespace WorkflowPaths

/-! ### Tables of outcomes -/

namespace Outcomes

theorem nodup_ids (o : Outcomes) : (o.entries.map Prod.fst).Nodup := by
  refine List.pairwise_map.2 (o.ordered.imp fun {a b} hab heq => ?_)
  rw [heq] at hab
  exact String.lt_irrefl _ hab

theorem get?_eq_some_iff {o : Outcomes} {x : String} {v : Bool} :
    o.get? x = some v ↔ (x, v) ∈ o.entries :=
  lookup_eq_some_iff o.nodup_ids

/-- Recording outcomes of different ids in turn keeps all of them, over what was there. -/
theorem get?_foldl_insert {es : List (String × Bool)} (h : (es.map Prod.fst).Nodup)
    (o : Outcomes) {x : String} {v : Bool} :
    (es.foldl (fun o e => o.insert e.1 e.2) o).get? x = some v ↔
      (x, v) ∈ es ∨ x ∉ es.map Prod.fst ∧ o.get? x = some v := by
  induction es generalizing o with
  | nil => simp
  | cons e r ih =>
    obtain ⟨id, outcome⟩ := e
    obtain ⟨hid, hr⟩ := List.nodup_cons.1 h
    rw [List.foldl_cons, ih hr, get?_insert]
    by_cases hx : x = id
    · have hnot (v : Bool) : (id, v) ∉ r := fun hmem => hid (List.mem_map.2 ⟨_, hmem, rfl⟩)
      simp [hx, hnot, eq_comm]
    · simp [hx]

theorem get?_ofList {es : List (String × Bool)} (h : (es.map Prod.fst).Nodup) {x : String}
    {v : Bool} : (ofList es).get? x = some v ↔ (x, v) ∈ es := by
  rw [ofList, get?_foldl_insert h]
  simp

/-- The table of outcomes of different ids has exactly these ids. -/
theorem ids_ofList_perm {es : List (String × Bool)} (h : (es.map Prod.fst).Nodup) :
    ((ofList es).entries.map Prod.fst).Perm (es.map Prod.fst) := by
  rw [List.perm_ext_iff_of_nodup (nodup_ids _) h]
  intro x
  have hmem (l : List (String × Bool)) : x ∈ l.map Prod.fst ↔ ∃ v, (x, v) ∈ l := by simp
  simp only [hmem, ← get?_eq_some_iff, get?_ofList h]

end Outcomes

/-- Valid options have no flaws. -/
theorem Options.flaws_eq_nil_of_check (o : Options) (h : o.check = .ok ()) : o.flaws = [] := by
  rw [check] at h
  split at h
  next hnil => exact hnil
  next => cases h

/-- The heading of a listing names the number of branch points and the number of paths. -/
theorem Listing.heading_eq (paths : List Path) :
    heading paths = "Decision Points: " ++ toString (branchCount paths) ++ " (2^"
      ++ toString (branchCount paths) ++ " = " ++ toString paths.length ++ " paths)" :=
  rfl

/-! ### Counting in binary -/

namespace Workflow

/-- The lists of `n` outcomes, in order, are the binary digits of the numbers below `2 ^ n`, the
highest digit first. -/
theorem outcomeLists_eq (n : Nat) :
    outcomeLists n = (List.range (2 ^ n)).map fun k => (List.range n).reverse.map k.testBit := by
  induction n with
  | zero => rfl
  | succ n ih =>
    have hdigits (k : Nat) : (List.range (n + 1)).reverse.map k.testBit
        = k.testBit n :: (List.range n).reverse.map k.testBit := by
      simp [List.range_succ]
    have hlow : (outcomeLists n).map (false :: ·)
        = (List.range (2 ^ n)).map fun k => (List.range (n + 1)).reverse.map k.testBit := by
      rw [ih, List.map_map]
      refine List.map_congr_left fun k hk => ?_
      rw [hdigits, Nat.testBit_lt_two_pow (List.mem_range.1 hk)]
      rfl
    have hhigh : (outcomeLists n).map (true :: ·) = ((List.range (2 ^ n)).map (2 ^ n + ·)).map
        fun k => (List.range (n + 1)).reverse.map k.testBit := by
      rw [ih, List.map_map, List.map_map]
      refine List.map_congr_left fun k hk => ?_
      -- The highest digit is set, and the others are those of `k`.
      have htop : (2 ^ n + k).testBit n = true := by
        rw [Nat.testBit_two_pow_add_eq, Nat.testBit_lt_two_pow (List.mem_range.1 hk)]
        rfl
      have hrest : (List.range n).reverse.map (2 ^ n + k).testBit
          = (List.range n).reverse.map k.testBit := by
        refine List.map_congr_left fun i hi => ?_
        exact Nat.testBit_two_pow_add_gt (List.mem_range.1 (List.mem_reverse.1 hi)) k
      simp only [Function.comp, hdigits, htop, hrest]
    calc outcomeLists (n + 1)
        = (outcomeLists n).map (false :: ·) ++ (outcomeLists n).map (true :: ·) := by
          simp [outcomeLists]
      _ = _ := by rw [hlow, hhigh, ← List.map_append, ← List.range_add, pow_succ, mul_two]

/-- The outcomes on path `k`. -/
def outcomesAt (w : Workflow) (k : Nat) : Outcomes :=
  .ofList (w.branches.zipIdx.reverse.map fun (b, i) => (b.id, k.testBit i))

theorem recordOutcomes_digits (w : Workflow) (k : Nat) :
    w.recordOutcomes ((List.range w.branches.length).reverse.map k.testBit) = w.outcomesAt k := by
  have hzip : w.branches.reverse.zip (List.range w.branches.length).reverse
      = w.branches.zipIdx.reverse := by
    rw [List.zipIdx_eq_zip_range', ← List.range_eq_range', List.zip,
      List.reverse_zipWith (by simp)]
  rw [recordOutcomes, outcomesAt, List.zip_map_right, hzip, List.map_map]
  rfl

/-- The paths of a workflow are those of the numbers below `2 ^ n`, in order. -/
theorem allPaths_eq (w : Workflow) :
    w.allPaths = (List.range (2 ^ w.branches.length)).map
      fun k => .along w.guardedTimeline (w.outcomesAt k) := by
  rw [allPaths]
  split
  next hempty =>
    -- Without branch points the one number is zero, and its digits are no outcomes.
    simp only [outcomesAt, List.isEmpty_iff.1 hempty]
    rfl
  next =>
    simp only [outcomeLists_eq, List.map_map, Function.comp_def, recordOutcomes_digits]

theorem getElem?_allPaths {w : Workflow} {k : Nat} {p : Path} :
    w.allPaths[k]? = some p ↔
      k < 2 ^ w.branches.length ∧ p = .along w.guardedTimeline (w.outcomesAt k) := by
  rw [allPaths_eq, List.getElem?_map, Option.map_eq_some_iff]
  constructor
  · rintro ⟨j, hj, rfl⟩
    obtain ⟨hk, rfl⟩ := List.getElem?_eq_some_iff.1 hj
    rw [List.length_range] at hk
    simp [hk]
  · rintro ⟨hk, rfl⟩
    exact ⟨k, List.getElem?_range hk, rfl⟩

theorem map_fst_recorded (w : Workflow) (k : Nat) :
    (w.branches.zipIdx.reverse.map fun (b, i) => (b.id, k.testBit i)).map Prod.fst
      = (w.branches.map Branch.id).reverse := by
  calc (w.branches.zipIdx.reverse.map fun (b, i) => (b.id, k.testBit i)).map Prod.fst
      = (w.branches.zipIdx.map Prod.fst).reverse.map Branch.id := by
        simp only [← List.map_reverse, List.map_map, Function.comp_def]
    _ = (w.branches.map Branch.id).reverse := by rw [List.zipIdx_map_fst, List.map_reverse]

theorem nodup_recorded_ids {w : Workflow} (hids : (w.branches.map Branch.id).Nodup) (k : Nat) :
    ((w.branches.zipIdx.reverse.map fun (b, i) => (b.id, k.testBit i)).map Prod.fst).Nodup := by
  rw [map_fst_recorded]
  exact List.nodup_reverse.2 hids

/-- Path `k` records bit `i` of `k` as the outcome of the branch point with index `i`. -/
theorem get?_outcomesAt {w : Workflow} (hids : (w.branches.map Branch.id).Nodup) {i : Nat}
    {b : Branch} (hi : w.branches[i]? = some b) (k : Nat) :
    (w.outcomesAt k).get? b.id = some (k.testBit i) := by
  rw [outcomesAt, Outcomes.get?_ofList (nodup_recorded_ids hids k), List.mem_map]
  exact ⟨(b, i), List.mem_reverse.2 (List.mk_mem_zipIdx_iff_getElem?.2 hi), rfl⟩

/-- Path `k` records outcomes of the branch points of the workflow, and of nothing else. -/
theorem ids_outcomesAt_perm {w : Workflow} (hids : (w.branches.map Branch.id).Nodup) (k : Nat) :
    ((w.outcomesAt k).entries.map Prod.fst).Perm (w.branches.map Branch.id) := by
  have hperm := Outcomes.ids_ofList_perm (nodup_recorded_ids hids k)
  rw [map_fst_recorded] at hperm
  exact hperm.trans (List.reverse_perm _)

/-- Paths that record the same outcomes of all branch points have the same number. -/
theorem eq_of_get?_outcomesAt {w : Workflow} (hids : (w.branches.map Branch.id).Nodup) {j k : Nat}
    (hj : j < 2 ^ w.branches.length) (hk : k < 2 ^ w.branches.length)
    (h : ∀ b ∈ w.branches, (w.outcomesAt j).get? b.id = (w.outcomesAt k).get? b.id) : j = k := by
  refine Nat.eq_of_testBit_eq fun i => ?_
  by_cases hi : i < w.branches.length
  · have hget := List.getElem?_eq_getElem hi
    have hbit := h _ (List.getElem_mem hi)
    rw [get?_outcomesAt hids hget, get?_outcomesAt hids hget] at hbit
    exact Option.some.inj hbit
  · -- Beyond the branch points no number has a digit.
    have hle : 2 ^ w.branches.length ≤ 2 ^ i := Nat.pow_le_pow_right (by decide) (Nat.le_of_not_lt hi)
    rw [Nat.testBit_lt_two_pow (hj.trans_le hle), Nat.testBit_lt_two_pow (hk.trans_le hle)]

/-- Every assignment of outcomes to the branch points is recorded under some number. -/
theorem exists_get?_outcomesAt {w : Workflow} (hids : (w.branches.map Branch.id).Nodup)
    (a : Branch → Bool) : ∃ k < 2 ^ w.branches.length,
      ∀ b ∈ w.branches, (w.outcomesAt k).get? b.id = some (a b) := by
  let digits (i : Fin w.branches.length) : Bool := a (w.branches.get i)
  refine ⟨Nat.ofBits digits, Nat.ofBits_lt_two_pow digits, fun b hb => ?_⟩
  obtain ⟨i, hi, rfl⟩ := List.mem_iff_getElem.1 hb
  rw [get?_outcomesAt hids (List.getElem?_eq_getElem hi), Nat.testBit_ofBits_lt digits i hi]
  rfl

/-! ### When paths are enumerated -/

theorem paths_eq_ok_iff {o : Options} {w : Workflow} {paths : List Path} :
    w.paths o = .ok paths ↔
      o.check = .ok () ∧ w.checkLimits o = .ok () ∧ w.check = .ok () ∧ paths = w.allPaths := by
  rw [Workflow.paths]
  cases o.check with
  | error => simp [Except.mapError, bind, Except.bind]
  | ok =>
    cases w.checkLimits o with
    | error => simp [Except.mapError, bind, Except.bind]
    | ok =>
      cases w.check with
      | error => simp [Except.mapError, bind, Except.bind]
      | ok => simp [Except.mapError, bind, Except.bind, pure, Except.pure, eq_comm]

theorem maxDecisionPoints_le_of_check {o : Options} (h : o.check = .ok ()) :
    o.maxDecisionPoints.toNat ≤ 63 := by
  by_contra hlt
  have hmax : Options.supportedDecisionPoints < o.maxDecisionPoints.toNat := Nat.lt_of_not_le hlt
  have hflaws := o.flaws_eq_nil_of_check h
  simp [Options.flaws, hmax] at hflaws

theorem length_branches_le_of_checkLimits {o : Options} {w : Workflow}
    (h : w.checkLimits o = .ok ()) : w.branches.length ≤ o.maxDecisionPoints.toNat := by
  rw [checkLimits] at h
  split at h
  next => cases h
  next hle => exact Nat.le_of_not_lt hle

variable {o : Options} {w : Workflow} {paths : List Path}

/-- Valid options allow for so few branch points that the number of runs does not saturate. -/
theorem runs_eq_of_check (ho : o.check = .ok ())
    (h : w.branches.length ≤ o.maxDecisionPoints.toNat) : w.runs = 2 ^ w.branches.length := by
  have hlt : 2 ^ w.branches.length < 2 ^ 64 :=
    Nat.pow_lt_pow_right (by decide) (Nat.lt_succ_of_le (h.trans (maxDecisionPoints_le_of_check ho)))
  rw [runs, runCount_eq_min, min_eq_left (Nat.le_sub_one_of_lt hlt)]

/-- The number of runs of a workflow whose paths are enumerated does not saturate. -/
theorem runs_eq_two_pow (h : w.paths o = .ok paths) : w.runs = 2 ^ w.branches.length := by
  obtain ⟨ho, hlimits, -, -⟩ := paths_eq_ok_iff.1 h
  exact runs_eq_of_check ho (length_branches_le_of_checkLimits hlimits)

theorem wellFormed_of_paths (h : w.paths o = .ok paths) : w.WellFormed :=
  wellFormed_of_check (paths_eq_ok_iff.1 h).2.2.1

theorem getElem?_paths (h : w.paths o = .ok paths) {k : Nat} {p : Path} :
    paths[k]? = some p ↔
      k < 2 ^ w.branches.length ∧ p = .along w.guardedTimeline (w.outcomesAt k) := by
  rw [(paths_eq_ok_iff.1 h).2.2.2]
  exact getElem?_allPaths

/-! ### The enumeration -/

theorem length_paths (h : w.paths o = .ok paths) : paths.length = 2 ^ w.branches.length := by
  rw [(paths_eq_ok_iff.1 h).2.2.2, allPaths_eq, List.length_map, List.length_range]

theorem paths_ne_nil (h : w.paths o = .ok paths) : paths ≠ [] := by
  have hlength := length_paths h
  have hpos := Nat.two_pow_pos w.branches.length
  rintro rfl
  rw [← hlength] at hpos
  cases hpos

/-- The paths record pairwise different outcomes. -/
theorem nodup_map_outcomes (h : w.paths o = .ok paths) : (paths.map Path.outcomes).Nodup := by
  have hids := (wellFormed_of_paths h).branch_ids_nodup
  rw [(paths_eq_ok_iff.1 h).2.2.2, allPaths_eq, List.map_map]
  refine List.Nodup.map_on (fun j hj k hk hjk => ?_) List.nodup_range
  have hsame : w.outcomesAt j = w.outcomesAt k := hjk
  exact eq_of_get?_outcomesAt hids (List.mem_range.1 hj) (List.mem_range.1 hk)
    fun b _ => by rw [hsame]

/-- Every assignment of outcomes to the branch points is that of exactly one path. -/
theorem existsUnique_path (h : w.paths o = .ok paths) (a : Branch → Bool) :
    ∃! k : Nat, ∃ p : Path, paths[k]? = some p ∧
      ∀ b ∈ w.branches, p.outcomes.get? b.id = some (a b) := by
  have hids := (wellFormed_of_paths h).branch_ids_nodup
  obtain ⟨k, hk, hget⟩ := exists_get?_outcomesAt hids a
  refine ⟨k, ⟨_, (getElem?_paths h).2 ⟨hk, rfl⟩, hget⟩, ?_⟩
  rintro j ⟨p, hp, hpget⟩
  obtain ⟨hj, rfl⟩ := (getElem?_paths h).1 hp
  exact eq_of_get?_outcomesAt hids hj hk fun b hb => (hpget b hb).trans (hget b hb).symm

/-- The listing counts all branch points of the workflow. -/
theorem branchCount_paths (h : w.paths o = .ok paths) :
    Listing.branchCount paths = w.branches.length := by
  have hids := (wellFormed_of_paths h).branch_ids_nodup
  have hfirst : paths[0]? = some (.along w.guardedTimeline (w.outcomesAt 0)) :=
    (getElem?_paths h).2 ⟨Nat.two_pow_pos _, rfl⟩
  cases paths with
  | nil => cases hfirst
  | cons p rest =>
    obtain rfl := Option.some.inj hfirst
    have hlength := (ids_outcomesAt_perm hids 0).length_eq
    rwa [List.length_map, List.length_map] at hlength

theorem heading_paths (h : w.paths o = .ok paths) :
    Listing.heading paths = "Decision Points: " ++ toString w.branches.length ++ " (2^"
      ++ toString w.branches.length ++ " = " ++ toString w.runs ++ " paths)" := by
  rw [Listing.heading_eq, branchCount_paths h, length_paths h, runs_eq_two_pow h]

/-- **The enumeration is exact.** A workflow with `n` branch points has `2 ^ n` paths. The path
with number `k` records outcomes of the branch points and of nothing else, that of the branch
point with index `i` being bit `i` of `k`. So no two paths record the same outcomes, every
assignment of outcomes is that of exactly one path, and the listing and the document print the
number of branch points and the number of runs of the workflow. -/
theorem paths_exact (h : w.paths o = .ok paths) :
    paths.length = 2 ^ w.branches.length ∧
    (∀ (k : Nat) (p : Path), paths[k]? = some p →
      (p.outcomes.entries.map Prod.fst).Perm (w.branches.map Branch.id) ∧
      ∀ (i : Nat) (b : Branch), w.branches[i]? = some b →
        p.outcomes.get? b.id = some (k.testBit i)) ∧
    (paths.map Path.outcomes).Nodup ∧
    (∀ a : Branch → Bool, ∃! k : Nat, ∃ p : Path, paths[k]? = some p ∧
      ∀ b ∈ w.branches, p.outcomes.get? b.id = some (a b)) ∧
    (Listing.lines o paths).head? = some ("Decision Points: " ++ toString w.branches.length
      ++ " (2^" ++ toString w.branches.length ++ " = " ++ toString w.runs ++ " paths)") ∧
    ∀ (d : Diagram) (report : Option Report), ∃ rest, d.document paths report =
      .object (("total_branch_points", .nat w.branches.length)
        :: ("total_paths", .nat w.runs) :: rest) := by
  have hids := (wellFormed_of_paths h).branch_ids_nodup
  refine ⟨length_paths h, fun k p hp => ?_, nodup_map_outcomes h, existsUnique_path h, ?_, ?_⟩
  · obtain ⟨-, rfl⟩ := (getElem?_paths h).1 hp
    exact ⟨ids_outcomesAt_perm hids k, fun i b hi => get?_outcomesAt hids hi k⟩
  · rw [Listing.lines, List.head?_cons, heading_paths h]
  · intro d report
    have hruns : paths.length = w.runs := (length_paths h).trans (runs_eq_two_pow h).symm
    simp only [Diagram.document, branchCount_paths h, hruns, List.cons_append]
    exact ⟨_, rfl⟩

/-- The decision whether an order is above the limit. -/
def aboveLimit : Branch := ⟨.decision, "AboveLimit", "d0", 2, .always⟩

/-- The wait for the approval of an order above the limit. -/
def approved : Branch :=
  ⟨.signalWait "approved" "1d" none none, "Approved", "sig_approved_3", 3, .known [⟨"d0", true⟩]⟩

/-- The reservation of what is ordered. -/
def reserve : Step := ⟨.activity, "Reserve", "1", 1, .always⟩

/-- The shipping of an approved order. -/
def ship : Step := ⟨.activity, "Ship", "2", 4, .known [⟨"sig_approved_3", true⟩]⟩

/-- Orders above a limit wait for an approval, and approved orders are shipped. -/
def orderApproval : Workflow where
  name := "OrderApproval"
  steps := [reserve, ship]
  branches := [aboveLimit, approved]

theorem orderApproval_paths : orderApproval.paths {} = .ok orderApproval.allPaths :=
  paths_eq_ok_iff.2 ⟨by decide +kernel, by decide +kernel, by decide +kernel, rfl⟩

theorem paths_exact_orderApproval :
    orderApproval.paths {} = .ok orderApproval.allPaths ∧ orderApproval.allPaths.length = 2 ^ 2 ∧
      ∃! k : Nat, ∃ p : Path, orderApproval.allPaths[k]? = some p ∧
        ∀ b ∈ orderApproval.branches, p.outcomes.get? b.id = some (b.id == "d0") := by
  obtain ⟨hlength, -, -, hunique, -⟩ := paths_exact orderApproval_paths
  exact ⟨orderApproval_paths, hlength, hunique fun b => b.id == "d0"⟩

end Workflow

end WorkflowPaths
