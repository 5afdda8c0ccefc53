import PartnerHub.Lib.NearestRank
import PartnerHub.Domain.Records

/-!
# The figures of the analytics

`compute_p95_latency_ms`, `compute_success_rate`, `compute_sla_compliance_pct`,
`_stats_from_terminal_rows` and `compute_dlq_age_seconds` of `analytics_service.py`, with
rational numbers for the floats.
-/
namespace PartnerHub.Analytics

open PartnerHub.Domain PartnerHub.Lib

/-- `sequence[index]`: a negative index counts from the end, `none` is an `IndexError`. -/
def pyGetItem {α : Type*} (values : List α) (index : ℤ) : Option α :=
  if 0 ≤ index then values[index.toNat]?
  else if -values.length ≤ index then values[(values.length + index).toNat]?
  else none

/-- The index of `compute_p95_latency_ms` in the sorted list. -/
def p95Index (n : Nat) : ℤ := ⌈(95 / 100 : ℚ) * n⌉ - 1

inductive IndexError where
  | outOfRange
  deriving DecidableEq, Repr

def computeP95LatencyMs (durations : List ℤ) : Except IndexError (Option ℤ) :=
  if durations = [] then .ok none
  else
    let sortedValues := durations.insertionSort (· ≤ ·)
    match pyGetItem sortedValues (p95Index sortedValues.length) with
    | none => .error .outOfRange
    | some value => .ok (some value)

def computeSuccessRate (delivered failed : Nat) : Option ℚ :=
  let total := delivered + failed
  if total = 0 then none else some (delivered / total)

def computeSlaCompliancePct (notBreached total : Nat) : Option ℚ :=
  if total = 0 then none else some (100 * notBreached / total)

structure PartnerWindowStats where
  delivered : Nat
  failed : Nat
  slaBreaches : Nat
  slaNotBreached : Nat
  deriving DecidableEq, Repr

/-- The columns `status` and `sla_breached` of a terminal delivery. -/
abbrev TerminalRow := DeliveryStatus × Bool

/-- One turn of the loop of `_stats_from_terminal_rows`. -/
def PartnerWindowStats.count (s : PartnerWindowStats) (row : TerminalRow) : PartnerWindowStats :=
  let s :=
    if row.1 = .delivered then { s with delivered := s.delivered + 1 }
    else if row.1 = .failed then { s with failed := s.failed + 1 }
    else s
  if row.2 then { s with slaBreaches := s.slaBreaches + 1 }
  else { s with slaNotBreached := s.slaNotBreached + 1 }

def statsFromTerminalRows (rows : List TerminalRow) : PartnerWindowStats :=
  rows.foldl PartnerWindowStats.count ⟨0, 0, 0, 0⟩

/-- `max(0, int(seconds))`: `int` rounds towards zero. -/
def computeDlqAgeSeconds (oldestCreatedAt : Option Time) (now : Time) : ℤ :=
  match oldestCreatedAt with
  | none => 0
  | some created => max 0 ((now - created).num.tdiv (now - created).den)

section Percentile

theorem p95Index_mem {n : Nat} (hn : 0 < n) : 0 ≤ p95Index n ∧ p95Index n < n := by
  have hpos : (0 : ℚ) < n := by exact_mod_cast hn
  constructor
  · have hceil : 0 < ⌈(95 / 100 : ℚ) * n⌉ := Int.ceil_pos.mpr (by positivity)
    unfold p95Index
    omega
  · have hceil : ⌈(95 / 100 : ℚ) * n⌉ ≤ (n : ℤ) := Int.ceil_le.mpr (by push_cast; linarith)
    unfold p95Index
    omega

/-- A count reaches the rank exactly when it is 95 percent of the list. -/
theorem p95Index_lt_iff {n c : Nat} (hn : 0 < n) :
    (p95Index n).toNat + 1 ≤ c ↔ (95 / 100 : ℚ) * n ≤ c := by
  have hindex := (p95Index_mem hn).1
  have hceil : ⌈(95 / 100 : ℚ) * n⌉ ≤ (c : ℤ) ↔ (95 / 100 : ℚ) * n ≤ c := by
    rw [Int.ceil_le]
    norm_cast
  rw [← hceil]
  unfold p95Index at hindex ⊢
  omega

theorem computeP95_eq {durations : List ℤ} (h : durations ≠ []) :
    ∃ p, computeP95LatencyMs durations = .ok (some p) ∧
      IsNearestRank ((p95Index durations.length).toNat + 1) durations p := by
  have hn : 0 < durations.length := List.length_pos_iff.mpr h
  obtain ⟨hnonneg, hlt⟩ := p95Index_mem hn
  have hi : (p95Index durations.length).toNat < (durations.insertionSort (· ≤ ·)).length := by
    rw [List.length_insertionSort]
    omega
  refine ⟨(durations.insertionSort (· ≤ ·))[(p95Index durations.length).toNat], ?_,
    isNearestRank_insertionSort durations hi⟩
  simp only [computeP95LatencyMs, if_neg h, List.length_insertionSort, pyGetItem, if_pos hnonneg,
    List.getElem?_eq_getElem hi]

theorem computeP95_perm {durations durations' : List ℤ} (hp : durations'.Perm durations) :
    computeP95LatencyMs durations' = computeP95LatencyMs durations := by
  by_cases h : durations = []
  · subst h
    rw [hp.eq_nil]
  · have h' : durations' ≠ [] := by
      rintro rfl
      exact h hp.symm.eq_nil
    simp only [computeP95LatencyMs, if_neg h, if_neg h', insertionSort_eq_of_perm hp]

/-- The 95th percentile is the nearest rank, for every list that is not empty. -/
theorem p95_is_nearest_rank (durations : List ℤ) (h : durations ≠ []) :
    (0 ≤ p95Index durations.length ∧ p95Index durations.length < durations.length) ∧
      ∃ p, computeP95LatencyMs durations = .ok (some p) ∧ p ∈ durations ∧
        (95 / 100 : ℚ) * durations.length ≤ durations.countP (· ≤ p) ∧
        (∀ q ∈ durations, q < p →
          ¬ (95 / 100 : ℚ) * durations.length ≤ durations.countP (· ≤ q)) ∧
        ∀ durations' : List ℤ, durations'.Perm durations →
          computeP95LatencyMs durations' = computeP95LatencyMs durations := by
  have hn : 0 < durations.length := List.length_pos_iff.mpr h
  obtain ⟨p, hp, hrank⟩ := computeP95_eq h
  refine ⟨p95Index_mem hn, p, hp, hrank.mem, (p95Index_lt_iff hn).mp hrank.enough, ?_, ?_⟩
  · intro q hq hlt
    rw [← p95Index_lt_iff hn]
    exact not_le.mpr (hrank.least q hq hlt)
  · exact fun durations' => computeP95_perm

/-- Of forty durations the percentile leaves out the largest two. -/
theorem p95_is_nearest_rank_forty :
    ∃ p, computeP95LatencyMs ((List.range 40).map fun i => (40 - i : ℤ)) = .ok (some p) ∧
      p ∈ (List.range 40).map fun i => (40 - i : ℤ) := by
  obtain ⟨-, p, hp, hmem, -⟩ :=
    p95_is_nearest_rank ((List.range 40).map fun i => (40 - i : ℤ)) (by decide)
  exact ⟨p, hp, hmem⟩

end Percentile

end PartnerHub.Analytics
