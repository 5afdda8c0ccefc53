import PartnerHub.Lib.GroupBy
import PartnerHub.Circuit.ThreeStates
import PartnerHub.Analytics.Metrics

/-!
# Three views of one partner

`build_partner_summary`, `build_analytics_overview` and `build_compliance_export` select
overlapping rows and group them each in its own way: by `partner_id` in SQL, by public id
and by slug in Python. No query has an ORDER BY.
-/
namespace PartnerHub.Analytics

open PartnerHub.Domain PartnerHub.Lib PartnerHub.Circuit

/-- A row of `delivery_attempts`, as far as its duration is read. -/
structure TimedAttempt where
  deliveryId : Nat
  durationMs : Option ℤ
  createdAt : Time
  deriving DecidableEq, Repr

/-- The tables the queries read. -/
structure ReportTables where
  partners : List Partner
  deliveries : List Delivery
  attempts : List TimedAttempt
  deadLetters : List DeadLetter

/-- Primary key and unique columns of `partners`. -/
structure ReportTables.Keyed (t : ReportTables) : Prop where
  id : (t.partners.map (·.id)).Nodup
  publicId : (t.partners.map (·.publicId)).Nodup
  slug : (t.partners.map (·.slug)).Nodup

def windowHours : Nat := 24

/-- `_window_start`. -/
def windowStart (now : Time) : Time := now - windowHours * 3600

/-- `Delivery.status.in_(_TERMINAL_STATUSES)`. -/
def Terminal (d : Delivery) : Prop := d.status = .delivered ∨ d.status = .failed

instance (d : Delivery) : Decidable (Terminal d) := inferInstanceAs (Decidable (_ ∨ _))

namespace ReportTables

/-- Rows joined with their partners on `partner_id`. -/
def joinPartners {ρ : Type*} (t : ReportTables) (partnerId : ρ → Nat) (rows : List ρ) :
    List (Partner × ρ) :=
  rows.flatMap fun r => (t.partners.filter (·.id = partnerId r)).map fun p => (p, r)

def fetchPartnerTerminalRows (t : ReportTables) (partnerId : Nat) (windowStart : Time) :
    List TerminalRow :=
  (t.deliveries.filter fun d =>
    d.partnerId = partnerId ∧ windowStart ≤ d.createdAt ∧ Terminal d).map
      fun d => (d.status, d.slaBreached)

def fetchPartnerAttemptDurations (t : ReportTables) (partnerId : Nat) (windowStart : Time) :
    List ℤ :=
  (t.attempts.flatMap fun a => (t.deliveries.filter (·.id = a.deliveryId)).map fun d => (a, d))
    |>.filterMap fun x =>
      if x.2.partnerId = partnerId ∧ windowStart ≤ x.1.createdAt then x.1.durationMs else none

/-- `func.min` over no rows is NULL. -/
def fetchOldestUnackedDlqCreatedAt (t : ReportTables) (partnerId : Nat) : Option Time :=
  ((t.deadLetters.filter fun l =>
    l.partnerId = partnerId ∧ l.acknowledgedAt = none ∧ l.reason ≠ .manualPurge).map
      (·.createdAt)).min?

def fetchDlqBacklogCount (t : ReportTables) : Nat :=
  t.deadLetters.countP (·.reason ≠ .manualPurge)

end ReportTables

structure OverviewRow where
  publicId : Uuid
  slug : String
  status : DeliveryStatus
  slaBreached : Bool
  deriving DecidableEq, Repr

structure ComplianceRow where
  slug : String
  status : DeliveryStatus
  slaBreached : Bool
  deriving DecidableEq, Repr

def OverviewRow.terminal (r : OverviewRow) : TerminalRow := (r.status, r.slaBreached)

def ComplianceRow.terminal (r : ComplianceRow) : TerminalRow := (r.status, r.slaBreached)

namespace ReportTables

def fetchOverviewPartnerRows (t : ReportTables) (windowStart : Time) : List OverviewRow :=
  ((t.joinPartners (·.partnerId) t.deliveries).filter fun x =>
    windowStart ≤ x.2.createdAt ∧ Terminal x.2).map fun x =>
      ⟨x.1.publicId, x.1.slug, x.2.status, x.2.slaBreached⟩

def fetchComplianceDeliveryRows (t : ReportTables) (windowStart windowEnd : Time) :
    List ComplianceRow :=
  ((t.joinPartners (·.partnerId) t.deliveries).filter fun x =>
    windowStart ≤ x.2.createdAt ∧ x.2.createdAt ≤ windowEnd ∧ Terminal x.2).map fun x =>
      ⟨x.1.slug, x.2.status, x.2.slaBreached⟩

/-- The dead letters the export counts, each with the slug of its partner. -/
def countedDeadLetters (t : ReportTables) (windowStart windowEnd : Time) : List String :=
  ((t.joinPartners (·.partnerId) t.deadLetters).filter fun x =>
    windowStart ≤ x.2.createdAt ∧ x.2.createdAt ≤ windowEnd ∧ x.2.reason ≠ .manualPurge).map
      (·.1.slug)

/-- `GROUP BY Partner.slug` with `count()`. -/
def fetchPartnerDlqCountsInWindow (t : ReportTables) (windowStart windowEnd : Time) :
    List (String × Nat) :=
  (t.countedDeadLetters windowStart windowEnd).dedup.map fun slug =>
    (slug, (t.countedDeadLetters windowStart windowEnd).count slug)

end ReportTables

structure PartnerSummaryData where
  id : Uuid
  slug : String
  windowHours : Nat
  successRate : Option ℚ
  p95LatencyMs : Option ℤ
  slaCompliancePct : Option ℚ
  slaBreaches : Nat
  circuitState : AnalyticsCircuitState
  dlqAgeSeconds : ℤ
  deriving DecidableEq, Repr

/-- `build_partner_summary` on the rows its queries returned. -/
def buildPartnerSummary (settings : Settings) (redis : Option Circuit.Keys) (circuitNow : Time)
    (partner : Partner) (terminalRows : List TerminalRow) (durations : List ℤ)
    (oldestDlq : Option Time) (now : Time) : Except IndexError PartnerSummaryData := do
  let stats := statsFromTerminalRows terminalRows
  let totalTerminal := stats.delivered + stats.failed
  let p95 ← computeP95LatencyMs durations
  return {
    id := partner.publicId
    slug := partner.slug
    windowHours := windowHours
    successRate := computeSuccessRate stats.delivered stats.failed
    p95LatencyMs := p95
    slaCompliancePct := computeSlaCompliancePct stats.slaNotBreached totalTerminal
    slaBreaches := stats.slaBreaches
    circuitState := getAnalyticsCircuitState settings redis circuitNow
    dlqAgeSeconds := computeDlqAgeSeconds oldestDlq now }

structure TopFailingPartnerData where
  id : Uuid
  slug : String
  successRate : ℚ
  slaBreaches : Nat
  deriving DecidableEq, Repr

structure OverviewData where
  windowHours : Nat
  dlqCount : Nat
  avgSlaCompliancePct : Option ℚ
  topFailingPartners : List TopFailingPartnerData
  deriving DecidableEq, Repr

/-- The entries of `_aggregate_overview_partners` before they are sorted. -/
def overviewPartners (rows : List OverviewRow) : List TopFailingPartnerData :=
  let grouped := GroupBy.groupRows (·.publicId) (fun r => (r.slug, []))
    (fun (slug, terminalRows) r => (slug, terminalRows ++ [r.terminal])) rows
  grouped.filterMap fun (publicId, slug, terminalRows) =>
    let stats := statsFromTerminalRows terminalRows
    (computeSuccessRate stats.delivered stats.failed).map fun successRate =>
      ⟨publicId, slug, successRate, stats.slaBreaches⟩

/-- The sort key `(success_rate, -sla_breaches)`; tuples compare from the left. -/
def TopFailingPartnerData.sortKey (item : TopFailingPartnerData) : ℚ ×ₗ ℤ :=
  toLex (item.successRate, -(item.slaBreaches : ℤ))

/-- `_aggregate_overview_partners`. -/
def aggregateOverviewPartners (rows : List OverviewRow) : List TopFailingPartnerData :=
  ((overviewPartners rows).insertionSort fun a b => a.sortKey ≤ b.sortKey).take 5

/-- `_avg_sla_compliance`. -/
def avgSlaCompliance (rows : List OverviewRow) : Option ℚ :=
  let grouped := GroupBy.collect (·.publicId) OverviewRow.terminal rows
  let values := grouped.filterMap fun (_, terminalRows) =>
    let stats := statsFromTerminalRows terminalRows
    computeSlaCompliancePct stats.slaNotBreached (stats.delivered + stats.failed)
  if values = [] then none else some (values.sum / values.length)

/-- `build_analytics_overview` on the rows its queries returned. -/
def buildAnalyticsOverview (dlqCount : Nat) (partnerRows : List OverviewRow) : OverviewData where
  windowHours := windowHours
  dlqCount := dlqCount
  avgSlaCompliancePct := avgSlaCompliance partnerRows
  topFailingPartners := aggregateOverviewPartners partnerRows

structure ComplianceExportRowData where
  partnerSlug : String
  successRate : Option ℚ
  slaCompliancePct : Option ℚ
  slaBreaches : Nat
  dlqCount : Nat
  deriving DecidableEq, Repr

/-- `_aggregate_compliance_rows`, which is what `build_compliance_export` returns. -/
def aggregateComplianceRows (deliveryRows : List ComplianceRow) (dlqBySlug : List (String × Nat)) :
    List ComplianceExportRowData :=
  let grouped := GroupBy.collect (·.slug) ComplianceRow.terminal deliveryRows
  let allSlugs := (grouped.map (·.1) ∪ dlqBySlug.map (·.1)).insertionSort (· ≤ ·)
  allSlugs.map fun slug =>
    let terminalRows := (grouped.lookup slug).getD []
    let stats := statsFromTerminalRows terminalRows
    { partnerSlug := slug
      successRate := computeSuccessRate stats.delivered stats.failed
      slaCompliancePct := computeSlaCompliancePct stats.slaNotBreached
        (stats.delivered + stats.failed)
      slaBreaches := stats.slaBreaches
      dlqCount := (dlqBySlug.lookup slug).getD 0 }

end PartnerHub.Analytics
