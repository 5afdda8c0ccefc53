import PartnerHub.Lib.Table
import PartnerHub.Analytics.Views

/-!
# The views agree

Whatever order the rows come in, the three group-bys leave each partner with the same
terminal deliveries, and so with the same rates and counts.
-/
namespace PartnerHub.Analytics

open PartnerHub.Domain PartnerHub.Lib

section Rows

variable {t : ReportTables} {p : Partner} {now : Time}

theorem statsFromTerminalRows_eq (rows : List TerminalRow) :
    statsFromTerminalRows rows =
      ⟨rows.countP (·.1 = .delivered), rows.countP (·.1 = .failed), rows.countP (·.2),
        rows.countP (!·.2)⟩ := by
  induction rows using List.reverseRecOn with
  | nil => rfl
  | append_singleton rows row ih =>
    rw [statsFromTerminalRows, List.foldl_append]
    change (statsFromTerminalRows rows).count row = _
    rw [ih]
    obtain ⟨status, breached⟩ := row
    cases status <;> cases breached <;> simp [PartnerWindowStats.count, List.countP_append]

theorem stats_perm {rows rows' : List TerminalRow} (h : rows.Perm rows') :
    statsFromTerminalRows rows = statsFromTerminalRows rows' := by
  simp only [statsFromTerminalRows_eq, h.countP_eq]

/-- Joined on the foreign key and restricted by a unique column, the rows are those of the one
partner. -/
theorem filter_joinPartners {κ ρ : Type*} [DecidableEq κ] (hid : (t.partners.map (·.id)).Nodup)
    {key : Partner → κ} (hkey : (t.partners.map key).Nodup) (hp : p ∈ t.partners)
    (partnerId : ρ → Nat) (rows : List ρ) :
    (t.joinPartners partnerId rows).filter (fun x => key x.1 = key p) =
      (rows.filter (partnerId · = p.id)).map fun r => (p, r) := by
  have hone : ∀ r, ((t.partners.filter (·.id = partnerId r)).filter fun q => key q = key p) =
      if partnerId r = p.id then [p] else [] := by
    intro r
    rw [List.filter_filter]
    by_cases hr : partnerId r = p.id
    · rw [if_pos hr]
      refine Table.filter_eq_singleton hid.of_map hp (by simpa using hr.symm) ?_
      intro q hq hcond
      exact Table.eq_of_unique hkey hq hp (by simpa using (Bool.and_eq_true_iff.mp hcond).1)
    · rw [if_neg hr, List.filter_eq_nil_iff]
      intro q hq hcond
      obtain ⟨hqk, hqi⟩ := Bool.and_eq_true_iff.mp hcond
      obtain rfl := Table.eq_of_unique hkey hq hp (by simpa using hqk)
      exact hr (of_decide_eq_true hqi).symm
  unfold ReportTables.joinPartners
  induction rows with
  | nil => rfl
  | cons r rows ih =>
    rw [List.flatMap_cons, List.filter_append, ih, List.filter_map]
    change ((t.partners.filter (·.id = partnerId r)).filter fun q => key q = key p).map _ ++ _ = _
    rw [hone r]
    by_cases hr : partnerId r = p.id
    · rw [if_pos hr, List.filter_cons_of_pos (by simpa using hr)]
      rfl
    · rw [if_neg hr, List.filter_cons_of_neg (by simpa using hr)]
      rfl

/-- What SELECT and JOIN return for the overview, cut down to one partner. -/
theorem overviewRows_of_partner (ht : t.Keyed) (hp : p ∈ t.partners) (start : Time) :
    ((t.fetchOverviewPartnerRows start).filter (·.publicId = p.publicId)).map
        OverviewRow.terminal = t.fetchPartnerTerminalRows p.id start := by
  rw [ReportTables.fetchOverviewPartnerRows, List.filter_map, List.map_map]
  change (((t.joinPartners _ t.deliveries).filter _).filter
    fun x => decide (x.1.publicId = p.publicId)).map _ = _
  rw [List.filter_comm, filter_joinPartners ht.id ht.publicId hp, List.filter_map, List.map_map,
    List.filter_filter, ReportTables.fetchPartnerTerminalRows]
  have hcond : t.deliveries.filter (fun d => decide (start ≤ d.createdAt ∧ Terminal d) &&
      decide (d.partnerId = p.id)) = t.deliveries.filter fun d =>
        decide (d.partnerId = p.id ∧ start ≤ d.createdAt ∧ Terminal d) := by
    apply List.filter_congr
    intro d _
    rw [← Bool.decide_and, decide_eq_decide]
    exact and_comm
  exact congrArg (List.map _) hcond

/-- The same for the export, when no delivery is younger than its end. -/
theorem complianceRows_of_partner (ht : t.Keyed) (hp : p ∈ t.partners) (start : Time)
    (hnow : ∀ d ∈ t.deliveries, d.createdAt ≤ now) :
    ((t.fetchComplianceDeliveryRows start now).filter (·.slug = p.slug)).map
        ComplianceRow.terminal = t.fetchPartnerTerminalRows p.id start := by
  rw [ReportTables.fetchComplianceDeliveryRows, List.filter_map, List.map_map]
  change (((t.joinPartners _ t.deliveries).filter _).filter
    fun x => decide (x.1.slug = p.slug)).map _ = _
  rw [List.filter_comm, filter_joinPartners ht.id ht.slug hp, List.filter_map, List.map_map,
    List.filter_filter, ReportTables.fetchPartnerTerminalRows]
  have hcond : t.deliveries.filter (fun d => decide (start ≤ d.createdAt ∧ d.createdAt ≤ now ∧
      Terminal d) && decide (d.partnerId = p.id)) = t.deliveries.filter fun d =>
        decide (d.partnerId = p.id ∧ start ≤ d.createdAt ∧ Terminal d) := by
    apply List.filter_congr
    intro d hd
    rw [← Bool.decide_and, decide_eq_decide]
    have hle := hnow d hd
    tauto
  exact congrArg (List.map _) hcond

/-- Every row of the overview is about a partner and has its slug. -/
theorem overviewRow_partner {start : Time} {r : OverviewRow}
    (hr : r ∈ t.fetchOverviewPartnerRows start) :
    ∃ p ∈ t.partners, r.publicId = p.publicId ∧ r.slug = p.slug := by
  obtain ⟨x, hx, rfl⟩ := List.mem_map.mp hr
  obtain ⟨d, -, hd⟩ := List.mem_flatMap.mp (List.mem_filter.mp hx).1
  obtain ⟨p, hp, rfl⟩ := List.mem_map.mp hd
  exact ⟨p, (List.mem_filter.mp hp).1, rfl, rfl⟩

theorem complianceRow_partner {start : Time} {r : ComplianceRow}
    (hr : r ∈ t.fetchComplianceDeliveryRows start now) : ∃ p ∈ t.partners, r.slug = p.slug := by
  obtain ⟨x, hx, rfl⟩ := List.mem_map.mp hr
  obtain ⟨d, -, hd⟩ := List.mem_flatMap.mp (List.mem_filter.mp hx).1
  obtain ⟨p, hp, rfl⟩ := List.mem_map.mp hd
  exact ⟨p, (List.mem_filter.mp hp).1, rfl⟩

/-- Each terminal delivery is delivered or failed, so the rates are of all of them. -/
theorem terminal_total (i : Nat) (start : Time) :
    (statsFromTerminalRows (t.fetchPartnerTerminalRows i start)).delivered +
        (statsFromTerminalRows (t.fetchPartnerTerminalRows i start)).failed =
      (t.fetchPartnerTerminalRows i start).length := by
  rw [statsFromTerminalRows_eq, List.length_eq_countP_add_countP (·.1 = .delivered)]
  congr 1
  apply List.countP_congr
  intro row hrow
  obtain ⟨d, hd, rfl⟩ := List.mem_map.mp hrow
  have hterm : Terminal d := (of_decide_eq_true (List.mem_filter.mp hd).2).2.2
  rcases hterm with h | h <;> simp [h]

end Rows

/-- The partners with a terminal delivery in the window. -/
def ReportTables.ranked (t : ReportTables) (now : Time) : List Partner :=
  t.partners.filter fun p => t.fetchPartnerTerminalRows p.id (windowStart now) ≠ []

def ReportTables.partnerStats (t : ReportTables) (now : Time) (p : Partner) :
    PartnerWindowStats :=
  statsFromTerminalRows (t.fetchPartnerTerminalRows p.id (windowStart now))

/-- What the overview has to say of a partner. -/
def ReportTables.failing (t : ReportTables) (now : Time) (p : Partner) : TopFailingPartnerData :=
  let stats := t.partnerStats now p
  ⟨p.publicId, p.slug, stats.delivered / (stats.delivered + stats.failed : Nat),
    stats.slaBreaches⟩

/-- The share of its terminal deliveries that kept their deadline, in percent. -/
def ReportTables.compliancePct (t : ReportTables) (now : Time) (p : Partner) : ℚ :=
  let stats := t.partnerStats now p
  100 * stats.slaNotBreached / (stats.delivered + stats.failed : Nat)

section Groups

variable {t : ReportTables} {p : Partner} {now : Time} {rows : List OverviewRow}

theorem mem_ranked : p ∈ t.ranked now ↔
    p ∈ t.partners ∧ t.fetchPartnerTerminalRows p.id (windowStart now) ≠ [] := by
  simp [ReportTables.ranked]

theorem ranked_total_ne_zero (hp : p ∈ t.ranked now) :
    (t.partnerStats now p).delivered + (t.partnerStats now p).failed ≠ 0 := by
  rw [ReportTables.partnerStats, terminal_total]
  exact mt List.length_eq_zero_iff.mp (mem_ranked.mp hp).2

theorem computeSuccessRate_ranked (hp : p ∈ t.ranked now) :
    computeSuccessRate (t.partnerStats now p).delivered (t.partnerStats now p).failed =
      some (t.failing now p).successRate :=
  if_neg (ranked_total_ne_zero hp)

theorem computeSlaCompliancePct_ranked (hp : p ∈ t.ranked now) :
    computeSlaCompliancePct (t.partnerStats now p).slaNotBreached
        ((t.partnerStats now p).delivered + (t.partnerStats now p).failed) =
      some (t.compliancePct now p) :=
  if_neg (ranked_total_ne_zero hp)

/-- The rows of one partner among those of the overview, in whatever order. -/
theorem overviewRows_perm (ht : t.Keyed)
    (hrows : rows.Perm (t.fetchOverviewPartnerRows (windowStart now))) (hp : p ∈ t.partners) :
    ((rows.filter (·.publicId = p.publicId)).map OverviewRow.terminal).Perm
      (t.fetchPartnerTerminalRows p.id (windowStart now)) := by
  rw [← overviewRows_of_partner ht hp]
  exact (hrows.filter _).map _

theorem mem_publicIds (ht : t.Keyed)
    (hrows : rows.Perm (t.fetchOverviewPartnerRows (windowStart now))) {k : Uuid} :
    k ∈ rows.map (·.publicId) ↔ ∃ p ∈ t.ranked now, p.publicId = k := by
  constructor
  · intro hk
    obtain ⟨r, hr, rfl⟩ := List.mem_map.mp hk
    obtain ⟨p, hp, hid, -⟩ := overviewRow_partner (hrows.mem_iff.mp hr)
    refine ⟨p, mem_ranked.mpr ⟨hp, ?_⟩, hid.symm⟩
    have hown : r.terminal ∈ (rows.filter (·.publicId = p.publicId)).map OverviewRow.terminal :=
      List.mem_map_of_mem (List.mem_filter.mpr ⟨hr, decide_eq_true hid⟩)
    exact List.ne_nil_of_mem ((overviewRows_perm ht hrows hp).mem_iff.mp hown)
  · rintro ⟨p, hp, rfl⟩
    obtain ⟨hmem, hne⟩ := mem_ranked.mp hp
    obtain ⟨row, hrow⟩ := List.exists_mem_of_ne_nil _ hne
    obtain ⟨r, hr, -⟩ := List.mem_map.mp ((overviewRows_perm ht hrows hmem).mem_iff.mpr hrow)
    obtain ⟨hr, hid⟩ := List.mem_filter.mp hr
    exact List.mem_map.mpr ⟨r, hr, of_decide_eq_true hid⟩

/-- What is kept for a public id in the end: the slug its first row brought, and its rows. -/
theorem overviewValue (k : Uuid) :
    GroupBy.valueOf (·.publicId) (fun r => (r.slug, []))
        (fun (x : String × List TerminalRow) r => (x.1, x.2 ++ [r.terminal])) rows k =
      (rows.filter (·.publicId = k)).head?.map fun r =>
        (r.slug, (rows.filter (·.publicId = k)).map OverviewRow.terminal) := by
  have hfold : ∀ (rs : List OverviewRow) (slug : String) (acc : List TerminalRow),
      rs.foldl (fun (x : String × List TerminalRow) r => (x.1, x.2 ++ [r.terminal]))
        (slug, acc) = (slug, acc ++ rs.map OverviewRow.terminal) := by
    intro rs
    induction rs with
    | nil => simp
    | cons r rs ih => intro slug acc; simp [ih]
  unfold GroupBy.valueOf
  cases rows.filter (·.publicId = k) with
  | nil => rfl
  | cons r rest => simp only [hfold, List.nil_append, List.head?_cons, Option.map_some]

theorem overviewValue_ranked (ht : t.Keyed)
    (hrows : rows.Perm (t.fetchOverviewPartnerRows (windowStart now))) (hp : p ∈ t.ranked now) :
    GroupBy.valueOf (·.publicId) (fun r => (r.slug, []))
        (fun (x : String × List TerminalRow) r => (x.1, x.2 ++ [r.terminal])) rows p.publicId =
      some (p.slug, (rows.filter (·.publicId = p.publicId)).map OverviewRow.terminal) := by
  have hmem := (mem_ranked.mp hp).1
  obtain ⟨r, hr, hid⟩ := List.mem_map.mp ((mem_publicIds ht hrows).mpr ⟨p, hp, rfl⟩)
  rw [overviewValue]
  cases hf : rows.filter (·.publicId = p.publicId) with
  | nil => exact absurd (List.filter_eq_nil_iff.mp hf r hr) (by simpa using hid)
  | cons r₀ rest =>
    obtain ⟨hr₀, hid₀⟩ :=
      List.mem_filter.mp (hf ▸ List.mem_cons_self : r₀ ∈ rows.filter (·.publicId = p.publicId))
    obtain ⟨q, hq, hqid, hslug⟩ := overviewRow_partner (hrows.mem_iff.mp hr₀)
    obtain rfl := Table.eq_of_unique ht.publicId hq hmem (hqid.symm.trans (of_decide_eq_true hid₀))
    rw [List.head?_cons, Option.map_some, hslug]

/-- The overview has one entry for each ranked partner, with its own figures. -/
theorem overviewPartners_perm (ht : t.Keyed)
    (hrows : rows.Perm (t.fetchOverviewPartnerRows (windowStart now))) :
    (overviewPartners rows).Perm ((t.ranked now).map (t.failing now)) := by
  have hids : ((overviewPartners rows).map (·.id)).Nodup := by
    refine GroupBy.nodup_filterMap_groupRows ?_ rows
    intro g x hx
    obtain ⟨-, -, rfl⟩ := Option.map_eq_some_iff.mp hx
    rfl
  have hids' : (((t.ranked now).map (t.failing now)).map (·.id)).Nodup := by
    rw [List.map_map]
    exact ht.publicId.sublist (List.filter_sublist.map _)
  have hstats : ∀ p ∈ t.ranked now,
      statsFromTerminalRows ((rows.filter (·.publicId = p.publicId)).map OverviewRow.terminal) =
        t.partnerStats now p :=
    fun p hp => stats_perm (overviewRows_perm ht hrows (mem_ranked.mp hp).1)
  rw [List.perm_ext_iff_of_nodup hids.of_map hids'.of_map]
  intro x
  unfold overviewPartners
  rw [List.mem_filterMap, List.mem_map]
  constructor
  · rintro ⟨⟨k, slug, trs⟩, hg, hx⟩
    obtain ⟨p, hp, rfl⟩ := (mem_publicIds ht hrows).mp
      (GroupBy.mem_groupRows_keys.mp (List.mem_map_of_mem (f := (·.1)) hg))
    have hvalue := (GroupBy.mem_groupRows.mp hg).symm.trans (overviewValue_ranked ht hrows hp)
    obtain ⟨rfl, rfl⟩ := Prod.mk.inj (Option.some.inj hvalue)
    simp only [hstats p hp, computeSuccessRate_ranked hp, Option.map_some,
      Option.some.injEq] at hx
    exact ⟨p, hp, hx⟩
  · rintro ⟨p, hp, rfl⟩
    refine ⟨_, GroupBy.mem_groupRows.mpr (overviewValue_ranked ht hrows hp), ?_⟩
    simp only [hstats p hp, computeSuccessRate_ranked hp, Option.map_some]
    rfl

/-- The values that are averaged are those of the ranked partners. -/
theorem avgSlaCompliance_eq (ht : t.Keyed)
    (hrows : rows.Perm (t.fetchOverviewPartnerRows (windowStart now))) :
    avgSlaCompliance rows =
      let values := (t.ranked now).map (t.compliancePct now)
      if values = [] then none else some (values.sum / values.length) := by
  have hstats : ∀ p ∈ t.ranked now,
      statsFromTerminalRows ((rows.filter (·.publicId = p.publicId)).map OverviewRow.terminal) =
        t.partnerStats now p :=
    fun p hp => stats_perm (overviewRows_perm ht hrows (mem_ranked.mp hp).1)
  have hentries : ((GroupBy.collect (·.publicId) OverviewRow.terminal rows).map fun g =>
      (g.1, statsFromTerminalRows g.2)).Perm
        ((t.ranked now).map fun p => (p.publicId, t.partnerStats now p)) := by
    have hkeys : (((GroupBy.collect (·.publicId) OverviewRow.terminal rows).map fun g =>
        (g.1, statsFromTerminalRows g.2)).map (·.1)).Nodup := by
      rw [List.map_map]
      exact GroupBy.nodup_groupRows_keys rows
    have hkeys' : (((t.ranked now).map fun p => (p.publicId, t.partnerStats now p)).map
        (·.1)).Nodup := by
      rw [List.map_map]
      exact ht.publicId.sublist (List.filter_sublist.map _)
    rw [List.perm_ext_iff_of_nodup hkeys.of_map hkeys'.of_map]
    intro x
    rw [List.mem_map, List.mem_map]
    constructor
    · rintro ⟨⟨k, trs⟩, hg, rfl⟩
      obtain ⟨hk, rfl⟩ := GroupBy.mem_collect.mp hg
      obtain ⟨p, hp, rfl⟩ := (mem_publicIds ht hrows).mp hk
      exact ⟨p, hp, by rw [hstats p hp]⟩
    · rintro ⟨p, hp, rfl⟩
      refine ⟨_, GroupBy.mem_collect.mpr ⟨(mem_publicIds ht hrows).mpr ⟨p, hp, rfl⟩, rfl⟩, ?_⟩
      rw [hstats p hp]
  have hvalues : ((GroupBy.collect (·.publicId) OverviewRow.terminal rows).filterMap fun g =>
      computeSlaCompliancePct (statsFromTerminalRows g.2).slaNotBreached
        ((statsFromTerminalRows g.2).delivered + (statsFromTerminalRows g.2).failed)).Perm
          ((t.ranked now).map (t.compliancePct now)) := by
    have hmapped := hentries.filterMap fun g : Uuid × PartnerWindowStats =>
      computeSlaCompliancePct g.2.slaNotBreached (g.2.delivered + g.2.failed)
    rw [List.filterMap_map, List.filterMap_map] at hmapped
    refine hmapped.trans (List.Perm.of_eq ?_)
    rw [← List.filterMap_eq_map]
    apply List.filterMap_congr
    intro p hp
    exact computeSlaCompliancePct_ranked hp
  unfold avgSlaCompliance
  simp only [hvalues.sum_eq, hvalues.length_eq]
  by_cases hnil : (t.ranked now).map (t.compliancePct now) = []
  · rw [if_pos hnil, if_pos (hnil ▸ hvalues).eq_nil]
  · rw [if_neg hnil, if_neg fun h => hnil (h ▸ hvalues).symm.eq_nil]

end Groups

section Export

variable {t : ReportTables} {p : Partner} {now : Time} {rows rows' : List ComplianceRow}
  {dlqBySlug dlqBySlug' : List (String × Nat)}

theorem complianceRows_perm (ht : t.Keyed)
    (hrows : rows.Perm (t.fetchComplianceDeliveryRows (windowStart now) now))
    (hnow : ∀ d ∈ t.deliveries, d.createdAt ≤ now) (hp : p ∈ t.partners) :
    ((rows.filter (·.slug = p.slug)).map ComplianceRow.terminal).Perm
      (t.fetchPartnerTerminalRows p.id (windowStart now)) := by
  rw [← complianceRows_of_partner ht hp _ hnow]
  exact (hrows.filter _).map _

theorem mem_slugs (ht : t.Keyed)
    (hrows : rows.Perm (t.fetchComplianceDeliveryRows (windowStart now) now))
    (hnow : ∀ d ∈ t.deliveries, d.createdAt ≤ now) {slug : String} :
    slug ∈ rows.map (·.slug) ↔ ∃ p ∈ t.ranked now, p.slug = slug := by
  constructor
  · intro hslug
    obtain ⟨r, hr, rfl⟩ := List.mem_map.mp hslug
    obtain ⟨p, hp, hpslug⟩ := complianceRow_partner (hrows.mem_iff.mp hr)
    refine ⟨p, mem_ranked.mpr ⟨hp, ?_⟩, hpslug.symm⟩
    have hown : r.terminal ∈ (rows.filter (·.slug = p.slug)).map ComplianceRow.terminal :=
      List.mem_map_of_mem (List.mem_filter.mpr ⟨hr, decide_eq_true hpslug⟩)
    exact List.ne_nil_of_mem ((complianceRows_perm ht hrows hnow hp).mem_iff.mp hown)
  · rintro ⟨p, hp, rfl⟩
    obtain ⟨hmem, hne⟩ := mem_ranked.mp hp
    obtain ⟨row, hrow⟩ := List.exists_mem_of_ne_nil _ hne
    obtain ⟨r, hr, -⟩ :=
      List.mem_map.mp ((complianceRows_perm ht hrows hnow hmem).mem_iff.mpr hrow)
    obtain ⟨hr, hslug⟩ := List.mem_filter.mp hr
    exact List.mem_map.mpr ⟨r, hr, of_decide_eq_true hslug⟩

/-- The slugs of the export, in the order of its rows. -/
def exportSlugs (rows : List ComplianceRow) (dlqBySlug : List (String × Nat)) : List String :=
  ((GroupBy.collect (·.slug) ComplianceRow.terminal rows).map (·.1) ∪
    dlqBySlug.map (·.1)).insertionSort (· ≤ ·)

theorem export_slugs (rows : List ComplianceRow) (dlqBySlug : List (String × Nat)) :
    (aggregateComplianceRows rows dlqBySlug).map (·.partnerSlug) = exportSlugs rows dlqBySlug := by
  rw [aggregateComplianceRows, List.map_map]
  exact List.map_id _

theorem mem_exportSlugs {slug : String} : slug ∈ exportSlugs rows dlqBySlug ↔
    slug ∈ rows.map (·.slug) ∨ slug ∈ dlqBySlug.map (·.1) := by
  rw [exportSlugs, (List.perm_insertionSort _ _).mem_iff, List.mem_union_iff]
  exact or_congr_left GroupBy.mem_groupRows_keys

theorem nodup_dlqCounts (t : ReportTables) (start : Time) :
    ((t.fetchPartnerDlqCountsInWindow start now).map (·.1)).Nodup := by
  rw [ReportTables.fetchPartnerDlqCountsInWindow, List.map_map]
  exact (List.map_id _).symm ▸ List.nodup_dedup _

theorem exportSlugs_ascending (hn : (dlqBySlug.map (·.1)).Nodup) :
    (exportSlugs rows dlqBySlug).Pairwise (· < ·) := by
  have hnodup : (exportSlugs rows dlqBySlug).Nodup :=
    (List.perm_insertionSort _ _).nodup_iff.mpr (List.Nodup.union _ hn)
  exact (List.pairwise_insertionSort _ _).imp₂ (fun _ _ hle hne => lt_of_le_of_ne hle hne) hnodup

/-- The row of a slug counts the selected rows with that slug. -/
theorem export_row {slug : String} (h : slug ∈ exportSlugs rows dlqBySlug) :
    ∃ row ∈ aggregateComplianceRows rows dlqBySlug, row.partnerSlug = slug ∧
      let stats := statsFromTerminalRows
        ((rows.filter (·.slug = slug)).map ComplianceRow.terminal)
      row.successRate = computeSuccessRate stats.delivered stats.failed ∧
        row.slaCompliancePct = computeSlaCompliancePct stats.slaNotBreached
          (stats.delivered + stats.failed) ∧
        row.slaBreaches = stats.slaBreaches := by
  refine ⟨_, List.mem_map_of_mem h, rfl, ?_⟩
  simp only [GroupBy.lookup_collect, and_self]

/-- Rows in another order give the same export. -/
theorem export_perm (hrows : rows'.Perm rows) (hn : (dlqBySlug.map (·.1)).Nodup)
    (hdlq : dlqBySlug'.Perm dlqBySlug) :
    aggregateComplianceRows rows' dlqBySlug' = aggregateComplianceRows rows dlqBySlug := by
  have hslugs : exportSlugs rows' dlqBySlug' = exportSlugs rows dlqBySlug := by
    apply insertionSort_eq_of_perm
    rw [List.perm_ext_iff_of_nodup (List.Nodup.union _ ((hdlq.map _).nodup_iff.mpr hn))
      (List.Nodup.union _ hn)]
    intro slug
    rw [List.mem_union_iff, List.mem_union_iff]
    exact or_congr
      (GroupBy.mem_groupRows_keys.trans ((hrows.map _).mem_iff.trans
        GroupBy.mem_groupRows_keys.symm))
      (hdlq.map _).mem_iff
  have hstats : ∀ slug, statsFromTerminalRows (((GroupBy.collect (·.slug) ComplianceRow.terminal
      rows').lookup slug).getD []) = statsFromTerminalRows (((GroupBy.collect (·.slug)
        ComplianceRow.terminal rows).lookup slug).getD []) := by
    intro slug
    rw [GroupBy.lookup_collect, GroupBy.lookup_collect]
    exact stats_perm ((hrows.filter _).map _)
  change (exportSlugs rows' dlqBySlug').map _ = (exportSlugs rows dlqBySlug).map _
  rw [hslugs]
  apply List.map_congr_left
  intro slug _
  simp only [hstats slug, GroupBy.lookup_perm hn hdlq slug]

end Export

section Top

variable {rows rows' : List OverviewRow}

/-- All entries of the overview, the five it lists first. -/
def sortedPartners (rows : List OverviewRow) : List TopFailingPartnerData :=
  (overviewPartners rows).insertionSort fun a b => a.sortKey ≤ b.sortKey

theorem sortedPartners_pairwise (rows : List OverviewRow) :
    (sortedPartners rows).Pairwise fun a b => a.sortKey ≤ b.sortKey := by
  have htotal : Std.Total fun a b : TopFailingPartnerData => a.sortKey ≤ b.sortKey :=
    ⟨fun a b => le_total a.sortKey b.sortKey⟩
  have htrans : IsTrans TopFailingPartnerData fun a b => a.sortKey ≤ b.sortKey :=
    ⟨fun _ _ _ => le_trans⟩
  exact List.pairwise_insertionSort _ _

theorem sortedPartners_perm (rows : List OverviewRow) :
    (sortedPartners rows).Perm (overviewPartners rows) :=
  List.perm_insertionSort _ _

/-- An entry that is not listed comes after every listed one. -/
theorem le_of_unlisted {x y : TopFailingPartnerData} (hx : x ∈ overviewPartners rows)
    (hout : x ∉ aggregateOverviewPartners rows) (hy : y ∈ aggregateOverviewPartners rows) :
    y.sortKey ≤ x.sortKey := by
  have hsorted := sortedPartners_pairwise rows
  rw [← List.take_append_drop 5 (sortedPartners rows)] at hsorted
  have hx' : x ∈ sortedPartners rows := (sortedPartners_perm rows).mem_iff.mpr hx
  rw [← List.take_append_drop 5 (sortedPartners rows)] at hx'
  exact (List.pairwise_append.mp hsorted).2.2 y hy x ((List.mem_append.mp hx').resolve_left hout)

/-- Rows in another order list the same keys. -/
theorem listed_keys_eq (hp : (overviewPartners rows').Perm (overviewPartners rows)) :
    (aggregateOverviewPartners rows').map (·.sortKey) =
      (aggregateOverviewPartners rows).map (·.sortKey) := by
  have hkeys : (sortedPartners rows').map (·.sortKey) = (sortedPartners rows).map (·.sortKey) :=
    List.Perm.eq_of_pairwise' (r := (· ≤ ·))
      (List.pairwise_map.mpr (sortedPartners_pairwise rows'))
      (List.pairwise_map.mpr (sortedPartners_pairwise rows))
      (((sortedPartners_perm rows').trans (hp.trans (sortedPartners_perm rows).symm)).map _)
  change ((sortedPartners rows').take 5).map _ = ((sortedPartners rows).take 5).map _
  rw [List.map_take, List.map_take, hkeys]

end Top

/-- What the queries return, in an order of their own. -/
structure Reads (t : ReportTables) (now : Time) where
  terminalRows : Partner → List TerminalRow
  durations : Partner → List ℤ
  overviewRows : List OverviewRow
  complianceRows : List ComplianceRow
  dlqCounts : List (String × Nat)
  terminalRows_perm : ∀ p, (terminalRows p).Perm
    (t.fetchPartnerTerminalRows p.id (windowStart now))
  durations_perm : ∀ p, (durations p).Perm
    (t.fetchPartnerAttemptDurations p.id (windowStart now))
  overviewRows_perm : overviewRows.Perm (t.fetchOverviewPartnerRows (windowStart now))
  complianceRows_perm : complianceRows.Perm (t.fetchComplianceDeliveryRows (windowStart now) now)
  dlqCounts_perm : dlqCounts.Perm (t.fetchPartnerDlqCountsInWindow (windowStart now) now)

namespace Reads

variable {t : ReportTables} {now : Time}

def summary (r : Reads t now) (settings : Settings) (redis : Option Circuit.Keys)
    (circuitNow : Time) (p : Partner) : Except IndexError PartnerSummaryData :=
  buildPartnerSummary settings redis circuitNow p (r.terminalRows p) (r.durations p)
    (t.fetchOldestUnackedDlqCreatedAt p.id) now

def overview (r : Reads t now) : OverviewData :=
  buildAnalyticsOverview t.fetchDlqBacklogCount r.overviewRows

/-- `build_compliance_export` over the window of the other two views. -/
def complianceExport (r : Reads t now) : List ComplianceExportRowData :=
  aggregateComplianceRows r.complianceRows r.dlqCounts

end Reads

/-- The three views give each ranked partner the same figures, the export and the overview
have the rows they should, and the average is that of the summaries. -/
structure ViewsAgree {t : ReportTables} {now : Time} (settings : Settings)
    (redis : Option Circuit.Keys) (circuitNow : Time) (r : Reads t now) : Prop where
  partner : ∀ p ∈ t.ranked now, ∃ summary, r.summary settings redis circuitNow p = .ok summary ∧
    (∃ row ∈ r.complianceExport, row.partnerSlug = p.slug ∧
      row.successRate = summary.successRate ∧
      row.slaCompliancePct = summary.slaCompliancePct ∧
      row.slaBreaches = summary.slaBreaches) ∧
    ∃ x ∈ overviewPartners r.overviewRows, x.id = p.publicId ∧ x.slug = p.slug ∧
      some x.successRate = summary.successRate ∧ x.slaBreaches = summary.slaBreaches
  export_ascending : (r.complianceExport.map (·.partnerSlug)).Pairwise (· < ·)
  export_slugs : ∀ slug, slug ∈ r.complianceExport.map (·.partnerSlug) ↔
    (∃ p ∈ t.ranked now, p.slug = slug) ∨ slug ∈ t.countedDeadLetters (windowStart now) now
  overview_ids : ((overviewPartners r.overviewRows).map (·.id)).Perm
    ((t.ranked now).map (·.publicId))
  top_distinct : (r.overview.topFailingPartners.map (·.id)).Nodup
  top_length : r.overview.topFailingPartners.length = min 5 (t.ranked now).length
  top_listed : ∀ x ∈ r.overview.topFailingPartners, x ∈ overviewPartners r.overviewRows
  top_sorted : r.overview.topFailingPartners.Pairwise fun a b => a.sortKey ≤ b.sortKey
  top_least : ∀ x ∈ overviewPartners r.overviewRows, x ∉ r.overview.topFailingPartners →
    ∀ y ∈ r.overview.topFailingPartners, ¬ x.sortKey < y.sortKey
  average : ∃ values, List.Forall₂ (fun p v => ∃ summary,
      r.summary settings redis circuitNow p = .ok summary ∧ summary.slaCompliancePct = some v)
      (t.ranked now) values ∧
    r.overview.avgSlaCompliancePct =
      if values = [] then none else some (values.sum / values.length)

/-- Nothing depends on the order of the rows but the choice among entries with one key. -/
structure OrderFree {t : ReportTables} {now : Time} (settings : Settings)
    (redis : Option Circuit.Keys) (circuitNow : Time) (r r' : Reads t now) : Prop where
  summary : ∀ p, r.summary settings redis circuitNow p = r'.summary settings redis circuitNow p
  complianceExport : r.complianceExport = r'.complianceExport
  average : r.overview.avgSlaCompliancePct = r'.overview.avgSlaCompliancePct
  entries : (overviewPartners r.overviewRows).Perm (overviewPartners r'.overviewRows)
  keys : r.overview.topFailingPartners.map (·.sortKey) =
    r'.overview.topFailingPartners.map (·.sortKey)
  ties : ∀ x ∈ r.overview.topFailingPartners, x ∉ r'.overview.topFailingPartners →
    ∀ y ∈ r'.overview.topFailingPartners, y.sortKey ≤ x.sortKey

section Agreement

variable {t : ReportTables} {now : Time} {settings : Settings} {redis : Option Circuit.Keys}
  {circuitNow : Time}

theorem summary_ok (settings : Settings) (redis : Option Circuit.Keys) (circuitNow : Time)
    (r : Reads t now) (p : Partner) :
    ∃ summary, r.summary settings redis circuitNow p = .ok summary ∧
      summary.successRate = computeSuccessRate (t.partnerStats now p).delivered
        (t.partnerStats now p).failed ∧
      summary.slaCompliancePct = computeSlaCompliancePct (t.partnerStats now p).slaNotBreached
        ((t.partnerStats now p).delivered + (t.partnerStats now p).failed) ∧
      summary.slaBreaches = (t.partnerStats now p).slaBreaches := by
  have hstats : statsFromTerminalRows (r.terminalRows p) = t.partnerStats now p :=
    stats_perm (r.terminalRows_perm p)
  have hp95 : ∃ value, computeP95LatencyMs (r.durations p) = .ok value := by
    by_cases hnil : r.durations p = []
    · exact ⟨none, if_pos hnil⟩
    · obtain ⟨value, hvalue, -⟩ := computeP95_eq hnil
      exact ⟨some value, hvalue⟩
  obtain ⟨value, hvalue⟩ := hp95
  refine ⟨_, by rw [Reads.summary, buildPartnerSummary, hvalue]; rfl, ?_⟩
  simp only [hstats, and_self]

/-- One partner in the three views. -/
theorem views_of_partner (ht : t.Keyed) (hnow : ∀ d ∈ t.deliveries, d.createdAt ≤ now)
    (r : Reads t now) {p : Partner} (hp : p ∈ t.ranked now) :
    ∃ summary, r.summary settings redis circuitNow p = .ok summary ∧
      (∃ row ∈ r.complianceExport, row.partnerSlug = p.slug ∧
        row.successRate = summary.successRate ∧
        row.slaCompliancePct = summary.slaCompliancePct ∧
        row.slaBreaches = summary.slaBreaches) ∧
      ∃ x ∈ overviewPartners r.overviewRows, x.id = p.publicId ∧ x.slug = p.slug ∧
        some x.successRate = summary.successRate ∧ x.slaBreaches = summary.slaBreaches := by
  obtain ⟨summary, hsummary, hrate, hpct, hbreaches⟩ :=
    summary_ok settings redis circuitNow r p
  refine ⟨summary, hsummary, ?_, ?_⟩
  · have hslug : p.slug ∈ exportSlugs r.complianceRows r.dlqCounts :=
      mem_exportSlugs.mpr (.inl ((mem_slugs ht r.complianceRows_perm hnow).mpr ⟨p, hp, rfl⟩))
    obtain ⟨row, hrow, hname, hrowRate, hrowPct, hrowBreaches⟩ := export_row hslug
    have hstats := stats_perm
      (complianceRows_perm ht r.complianceRows_perm hnow (mem_ranked.mp hp).1)
    rw [hstats] at hrowRate hrowPct hrowBreaches
    exact ⟨row, hrow, hname, hrowRate.trans hrate.symm, hrowPct.trans hpct.symm,
      hrowBreaches.trans hbreaches.symm⟩
  · have hentry : t.failing now p ∈ overviewPartners r.overviewRows :=
      (overviewPartners_perm ht r.overviewRows_perm).mem_iff.mpr (List.mem_map_of_mem hp)
    exact ⟨_, hentry, rfl, rfl, (computeSuccessRate_ranked hp).symm.trans hrate.symm,
      hbreaches.symm⟩

/-- The overview has one entry for each ranked partner. -/
theorem overview_ids (ht : t.Keyed) (r : Reads t now) :
    ((overviewPartners r.overviewRows).map (·.id)).Perm ((t.ranked now).map (·.publicId)) := by
  have hperm := (overviewPartners_perm ht r.overviewRows_perm).map (·.id)
  rw [List.map_map] at hperm
  exact hperm

theorem ranked_distinct (ht : t.Keyed) : ((t.ranked now).map (·.publicId)).Nodup :=
  ht.publicId.sublist (List.filter_sublist.map _)

/-- For every set of rows none of which is younger than `now`. -/
theorem views_agree (ht : t.Keyed) (hnow : ∀ d ∈ t.deliveries, d.createdAt ≤ now)
    (r : Reads t now) : ViewsAgree settings redis circuitNow r where
  partner p hp := views_of_partner ht hnow r hp
  export_ascending := by
    rw [Reads.complianceExport, export_slugs]
    exact exportSlugs_ascending ((r.dlqCounts_perm.map _).nodup_iff.mpr (nodup_dlqCounts t _))
  export_slugs slug := by
    rw [Reads.complianceExport, export_slugs, mem_exportSlugs,
      mem_slugs ht r.complianceRows_perm hnow, (r.dlqCounts_perm.map _).mem_iff,
      ReportTables.fetchPartnerDlqCountsInWindow, List.map_map]
    refine or_congr_right ?_
    rw [← List.mem_dedup (l := t.countedDeadLetters (windowStart now) now)]
    exact (List.map_id _).symm ▸ Iff.rfl
  overview_ids := overview_ids ht r
  top_distinct := by
    have hall : ((sortedPartners r.overviewRows).map (·.id)).Nodup :=
      (((sortedPartners_perm _).map _).trans (overview_ids ht r)).nodup_iff.mpr (ranked_distinct ht)
    exact hall.sublist ((List.take_sublist _ _).map _)
  top_length := by
    change ((sortedPartners r.overviewRows).take 5).length = _
    rw [List.length_take, (sortedPartners_perm _).length_eq,
      (overviewPartners_perm ht r.overviewRows_perm).length_eq, List.length_map]
  top_listed x hx := (sortedPartners_perm _).mem_iff.mp (List.mem_of_mem_take hx)
  top_sorted := (sortedPartners_pairwise _).sublist (List.take_sublist _ _)
  top_least x hx hout y hy := not_lt.mpr (le_of_unlisted hx hout hy)
  average := by
    refine ⟨(t.ranked now).map (t.compliancePct now), ?_,
      avgSlaCompliance_eq ht r.overviewRows_perm⟩
    rw [List.forall₂_map_right_iff, List.forall₂_same]
    intro p hp
    obtain ⟨summary, hsummary, -, hpct, -⟩ :=
      summary_ok settings redis circuitNow r p
    exact ⟨summary, hsummary, hpct.trans (computeSlaCompliancePct_ranked hp)⟩

theorem order_free (ht : t.Keyed) (r r' : Reads t now) :
    OrderFree settings redis circuitNow r r' where
  summary p := by
    have hstats : statsFromTerminalRows (r.terminalRows p) =
        statsFromTerminalRows (r'.terminalRows p) :=
      stats_perm ((r.terminalRows_perm p).trans (r'.terminalRows_perm p).symm)
    have hp95 : computeP95LatencyMs (r.durations p) = computeP95LatencyMs (r'.durations p) :=
      computeP95_perm ((r.durations_perm p).trans (r'.durations_perm p).symm)
    simp only [Reads.summary, buildPartnerSummary, hstats, hp95]
  complianceExport :=
    export_perm (r.complianceRows_perm.trans r'.complianceRows_perm.symm)
      ((r'.dlqCounts_perm.map _).nodup_iff.mpr (nodup_dlqCounts t _))
      (r.dlqCounts_perm.trans r'.dlqCounts_perm.symm)
  average := (avgSlaCompliance_eq ht r.overviewRows_perm).trans
    (avgSlaCompliance_eq ht r'.overviewRows_perm).symm
  entries := (overviewPartners_perm ht r.overviewRows_perm).trans
    (overviewPartners_perm ht r'.overviewRows_perm).symm
  keys := listed_keys_eq ((overviewPartners_perm ht r.overviewRows_perm).trans
    (overviewPartners_perm ht r'.overviewRows_perm).symm)
  ties x hx hout y hy := by
    have hentry : x ∈ overviewPartners r'.overviewRows :=
      ((overviewPartners_perm ht r.overviewRows_perm).trans
        (overviewPartners_perm ht r'.overviewRows_perm).symm).mem_iff.mp
          ((sortedPartners_perm _).mem_iff.mp (List.mem_of_mem_take hx))
    exact le_of_unlisted hentry hout hy

end Agreement

/-- The three analytics views agree, for every set of rows and every order in which the
queries return them. -/
theorem analytics_views_agree (settings : Settings) (redis : Option Circuit.Keys)
    (circuitNow : Time) (t : ReportTables) (now : Time) (ht : t.Keyed)
    (hnow : ∀ d ∈ t.deliveries, d.createdAt ≤ now) :
    (∀ r : Reads t now, ViewsAgree settings redis circuitNow r) ∧
      ∀ r r' : Reads t now, OrderFree settings redis circuitNow r r' :=
  ⟨views_agree ht hnow, order_free ht⟩

/-- Every query returns its rows as they are stored. -/
def Reads.stored (t : ReportTables) (now : Time) : Reads t now where
  terminalRows p := t.fetchPartnerTerminalRows p.id (windowStart now)
  durations p := t.fetchPartnerAttemptDurations p.id (windowStart now)
  overviewRows := t.fetchOverviewPartnerRows (windowStart now)
  complianceRows := t.fetchComplianceDeliveryRows (windowStart now) now
  dlqCounts := t.fetchPartnerDlqCountsInWindow (windowStart now) now
  terminalRows_perm _ := .refl _
  durations_perm _ := .refl _
  overviewRows_perm := .refl _
  complianceRows_perm := .refl _
  dlqCounts_perm := .refl _

def reportPartner (id : Nat) (slug : String) : Partner where
  id := id
  publicId := BitVec.ofNat 128 id
  slug := slug
  status := .active
  slaSeconds := 60
  rateLimitRps := 100
  autoReplayEnabled := false

def reportDelivery (id partnerId : Nat) (status : DeliveryStatus) : Delivery where
  id := id
  publicId := BitVec.ofNat 128 id
  partnerId := partnerId
  endpointId := 1
  eventType := "order.created"
  idempotencyKey := "k"
  payload := ⟨"{}"⟩
  status := status
  attemptCount := 1
  maxAttempts := 3
  nextRetryAt := none
  firstSuccessAt := none
  slaDeadlineAt := 60
  slaBreached := false
  lastErrorCode := none
  lastErrorMessage := none
  correlationId := "c"
  sourceEventId := none
  createdAt := 0

/-- Two partners; one has a delivered and a failed delivery, the other a pending one. -/
def reportOfTwo : ReportTables where
  partners := [reportPartner 1 "acme", reportPartner 2 "globex"]
  deliveries := [reportDelivery 1 1 .delivered, reportDelivery 2 1 .failed,
    reportDelivery 3 2 .pending]
  attempts := []
  deadLetters := []

theorem analytics_views_agree_two :
    (Reads.stored reportOfTwo 100).overview.topFailingPartners.length = 1 ∧
      "acme" ∈ (Reads.stored reportOfTwo 100).complianceExport.map (·.partnerSlug) := by
  have ht : reportOfTwo.Keyed := ⟨by decide, by decide, by decide⟩
  have hnow : ∀ d ∈ reportOfTwo.deliveries, d.createdAt ≤ 100 := by decide +kernel
  have hranked : reportOfTwo.ranked 100 = [reportPartner 1 "acme"] := by decide +kernel
  have hviews := (analytics_views_agree {} none 0 reportOfTwo 100 ht hnow).1
    (Reads.stored reportOfTwo 100)
  constructor
  · rw [hviews.top_length, hranked]
    rfl
  · refine (hviews.export_slugs "acme").mpr (.inl ⟨reportPartner 1 "acme", ?_, rfl⟩)
    rw [hranked]
    exact List.mem_singleton_self _

end PartnerHub.Analytics
