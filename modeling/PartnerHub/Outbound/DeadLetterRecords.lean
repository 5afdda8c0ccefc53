import PartnerHub.Outbound.StatusHistory
import PartnerHub.Outbound.ReplayDesk

/-!
# Failures and their dead letters

FAILED is written by `_mark_failed_dlq` alone, in one transaction with the dead letter,
and a delivery has at most one dead letter for ever. Hence a delivery becomes FAILED at
most once in its life, however executions, replays and administration overlap, and it has
a dead letter exactly from then on.
-/
namespace PartnerHub.Outbound

open PartnerHub.Domain PartnerHub.Lib PartnerHub.Lib.Slots PartnerHub.Lib.System

/-- The row a call holds is of a stored delivery; if it was read as FAILED, the delivery
has failed, and no replay of it was on record at the read. -/
structure HeldRow (s : Desk) (c : Nat) (row : Delivery × Partner) : Prop where
  stored : ∃ d ∈ s.db.tables.deliveries, d.id = row.1.id ∧ d.publicId = row.1.publicId
  failed : row.1.status = .failed → row.1.id ∈ s.history.failures ∧ s.history.seen c = 0

/-- A worker's copy names the partner of the stored delivery. -/
structure WorkerCopy (s : Desk) (ctx : Context) : Prop where
  partner : ctx.partner.id = ctx.delivery.partnerId
  stored : ∃ d ∈ s.db.tables.deliveries, d.id = ctx.delivery.id ∧
    d.partnerId = ctx.delivery.partnerId

structure DeskSound (s : Desk) : Prop where
  nodup : s.history.failures.Nodup
  letter_iff : ∀ i, s.db.tables.HasDeadLetter i ↔ i ∈ s.history.failures
  failed : ∀ d ∈ s.db.tables.deliveries, d.status = .failed → d.id ∈ s.history.failures
  partner : ∀ l ∈ s.db.tables.deadLetters, ∀ d ∈ s.db.tables.deliveries, d.id = l.deliveryId →
    l.partnerId = d.partnerId
  replayed : ∀ d ∈ s.db.tables.deliveries, s.db.tables.replays d.publicId ≠ 0 →
    d.id ∈ s.history.failures ∧ d.status ≠ .failed
  known : ∀ p, s.db.tables.replays p ≠ 0 → ∃ d ∈ s.db.tables.deliveries, d.publicId = p
  worker : ∀ w ctx, s.workers w = some ctx → WorkerCopy s ctx
  held : ∀ c row, s.held c = some row → HeldRow s c row

theorem desk_sound_init : DeskSound Desk.init := by
  constructor <;> simp [Desk.init, Db.empty, Tables.HasDeadLetter, Tables.replays, Desk.held]

theorem becameFailed_eq_nil {t t' : Tables} (h : ∀ d ∈ t'.deliveries, d.status = .failed →
    ∃ d₀ ∈ t.deliveries, d₀.id = d.id ∧ d₀.status = .failed) : becameFailed t t' = [] := by
  rw [becameFailed, List.map_eq_nil_iff, List.filter_eq_nil_iff]
  intro d hd hp
  simp only [decide_eq_true_eq] at hp
  exact hp.2 (h d hd hp.1)

/-- Every delivery is still there with its keys. -/
def KeepsDeliveries (t t' : Tables) : Prop :=
  ∀ d ∈ t.deliveries, ∃ d' ∈ t'.deliveries,
    d'.id = d.id ∧ d'.publicId = d.publicId ∧ d'.partnerId = d.partnerId

/-- The copies stay sound while no delivery is lost and the history only grows. -/
theorem copies_kept {s s' : Desk} (h : DeskSound s) (hk : KeepsCopies s s')
    (hd : KeepsDeliveries s.db.tables s'.db.tables)
    (hf : ∀ i ∈ s.history.failures, i ∈ s'.history.failures) :
    (∀ w ctx, s'.workers w = some ctx → WorkerCopy s' ctx) ∧
      ∀ c row, s'.held c = some row → HeldRow s' c row := by
  constructor
  · intro w ctx hctx
    have hw := h.worker w ctx (hk.workers w ctx hctx)
    obtain ⟨d, hmem, hid, hp⟩ := hw.stored
    obtain ⟨d', hmem', hid', -, hp'⟩ := hd d hmem
    exact ⟨hw.partner, d', hmem', hid'.trans hid, hp'.trans hp⟩
  · intro c row hrow
    obtain ⟨hold, hseen⟩ := hk.held c row hrow
    have hh := h.held c row hold
    obtain ⟨d, hmem, hid, hp⟩ := hh.stored
    obtain ⟨d', hmem', hid', hp', -⟩ := hd d hmem
    refine ⟨⟨d', hmem', hid'.trans hid, hp'.trans hp⟩, ?_⟩
    intro hfail
    obtain ⟨hin, hzero⟩ := hh.failed hfail
    exact ⟨hf _ hin, hseen.trans hzero⟩

/-- A stored row is an old one that did not become FAILED, or new and not FAILED. -/
def NoNewFailure (t t' : Tables) : Prop :=
  ∀ d' ∈ t'.deliveries,
    (∃ d ∈ t.deliveries, d.id = d'.id ∧ d.publicId = d'.publicId ∧ d.partnerId = d'.partnerId ∧
      (d'.status = .failed → d.status = .failed)) ∨
    (d'.status ≠ .failed ∧ ∀ d ∈ t.deliveries, d.id ≠ d'.id ∧ d.publicId ≠ d'.publicId)

theorem NoNewFailure.becameFailed {t t' : Tables} (h : NoNewFailure t t') :
    becameFailed t t' = [] := by
  apply becameFailed_eq_nil
  intro d' hd' hst
  rcases h d' hd' with ⟨d, hd, hid, -, -, hf⟩ | ⟨hne, -⟩
  · exact ⟨d, hd, hid, hf hst⟩
  · exact absurd hst hne

theorem NoNewFailure.refl {t t' : Tables} (h : t'.deliveries = t.deliveries) :
    NoNewFailure t t' :=
  fun d' hd' => .inl ⟨d', h ▸ hd', rfl, rfl, rfl, fun hst => hst⟩

section

variable {settings : Settings} {s s' : Desk}

theorem DeskSound.known_kept (h : DeskSound s)
    (hold : KeepsDeliveries s.db.tables s'.db.tables) {p : Uuid}
    (hrep : s.db.tables.replays p ≠ 0) : ∃ d' ∈ s'.db.tables.deliveries, d'.publicId = p := by
  obtain ⟨d, hd, hp⟩ := h.known p hrep
  obtain ⟨d', hd', -, hp', -⟩ := hold d hd
  exact ⟨d', hd', hp'.trans hp⟩

/-- A step that adds no failure keeps the desk sound if its replays are of deliveries that
have failed. -/
theorem DeskSound.without_failure (h : DeskSound s) (hk : KeepsCopies s s')
    (hfail : s'.history.failures = s.history.failures ++ becameFailed s.db.tables s'.db.tables)
    (hnew : NoNewFailure s.db.tables s'.db.tables)
    (hold : KeepsDeliveries s.db.tables s'.db.tables)
    (hletters : s'.db.tables.deadLetters.map (fun l => (l.deliveryId, l.partnerId)) =
      s.db.tables.deadLetters.map fun l => (l.deliveryId, l.partnerId))
    (hreplayed : ∀ d' ∈ s'.db.tables.deliveries, s'.db.tables.replays d'.publicId ≠ 0 →
      d'.id ∈ s.history.failures ∧ d'.status ≠ .failed)
    (hknown : ∀ p, s'.db.tables.replays p ≠ 0 →
      ∃ d' ∈ s'.db.tables.deliveries, d'.publicId = p) : DeskSound s' := by
  have hsame : s'.history.failures = s.history.failures := by
    rw [hfail, hnew.becameFailed, List.append_nil]
  have hids : s'.db.tables.deadLetters.map (·.deliveryId) =
      s.db.tables.deadLetters.map (·.deliveryId) := by
    have hfst := congrArg (List.map Prod.fst) hletters
    simpa [List.map_map, Function.comp_def] using hfst
  have hcopies := copies_kept h hk hold fun i hi => hsame ▸ hi
  refine ⟨hsame ▸ h.nodup, ?_, ?_, ?_, hsame ▸ hreplayed, hknown, hcopies.1, hcopies.2⟩
  · intro i
    rw [hsame, ← h.letter_iff i]
    simp only [Tables.HasDeadLetter, ← List.mem_map, hids]
  · intro d' hd' hst
    rw [hsame]
    rcases hnew d' hd' with ⟨d, hd, hid, -, -, hf⟩ | ⟨hne, -⟩
    · exact hid ▸ h.failed d hd (hf hst)
    · exact absurd hst hne
  · intro l' hl' d' hd' hid'
    have hpair := hletters ▸ List.mem_map_of_mem hl'
    obtain ⟨l, hl, he⟩ := List.mem_map.mp hpair
    obtain ⟨hli, hlp⟩ := Prod.mk.inj he
    rcases hnew d' hd' with ⟨d, hd, hid, -, hp, -⟩ | ⟨-, hfresh⟩
    · rw [← hlp, ← hp]
      exact h.partner l hl d hd (hid.trans (hid'.trans hli.symm))
    · obtain ⟨d, hd, hi⟩ := s.db.consistent.deadLetter_delivery l hl
      exact absurd (hi.trans (hli.trans hid'.symm)) (hfresh d hd).1

/-- A step that adds neither a failure nor a replay keeps the desk sound. -/
theorem DeskSound.frame (h : DeskSound s) (hk : KeepsCopies s s')
    (hfail : s'.history.failures = s.history.failures ++ becameFailed s.db.tables s'.db.tables)
    (hnew : NoNewFailure s.db.tables s'.db.tables)
    (hold : KeepsDeliveries s.db.tables s'.db.tables)
    (hreplays : ∀ p, s'.db.tables.replays p = s.db.tables.replays p)
    (hletters : s'.db.tables.deadLetters.map (fun l => (l.deliveryId, l.partnerId)) =
      s.db.tables.deadLetters.map fun l => (l.deliveryId, l.partnerId)) : DeskSound s' := by
  refine h.without_failure hk hfail hnew hold hletters ?_ ?_
  · intro d' hd' hrep
    rw [hreplays] at hrep
    rcases hnew d' hd' with ⟨d, hd, hid, hpub, -, hf⟩ | ⟨-, hfresh⟩
    · rw [← hpub] at hrep
      obtain ⟨hin, hnf⟩ := h.replayed d hd hrep
      exact ⟨hid ▸ hin, fun hst => hnf (hf hst)⟩
    · obtain ⟨d, hd, hp⟩ := h.known _ hrep
      exact absurd hp (hfresh d hd).2
  · intro p hrep
    rw [hreplays] at hrep
    exact h.known_kept hold hrep

theorem sound_enrolled {rows : List Delivery} {events : List OutboxEvent} (h : DeskSound s)
    (he : Enrols s.db.tables s'.db.tables rows events) (hk : KeepsCopies s s')
    (hfail : s'.history.failures = s.history.failures ++ becameFailed s.db.tables s'.db.tables) :
    DeskSound s' := by
  have hmem : ∀ d, d ∈ s'.db.tables.deliveries ↔ d ∈ s.db.tables.deliveries ∨ d ∈ rows := by
    intro d
    rw [he.deliveries, List.mem_append]
  refine h.frame hk hfail ?_ ?_ ?_ (by rw [he.deadLetters])
  · intro d hd
    rcases (hmem d).mp hd with hin | hnew
    · exact .inl ⟨d, hin, rfl, rfl, rfl, fun hst => hst⟩
    · exact .inr ⟨by simp [he.pending d hnew], fun d₀ hd₀ => he.fresh d hnew d₀ hd₀⟩
  · exact fun d hd => ⟨d, (hmem d).mpr (.inl hd), rfl, rfl, rfl⟩
  · intro p
    rw [Tables.replays, he.auditLogs, Tables.replays]

theorem sound_noted (h : DeskSound s) (hn : Notes s.db.tables s'.db.tables) (hk : KeepsCopies s s')
    (hfail : s'.history.failures = s.history.failures ++ becameFailed s.db.tables s'.db.tables) :
    DeskSound s' := by
  have hd : s'.db.tables.deliveries = s.db.tables.deliveries := by rw [hn.frame]
  refine h.frame hk hfail (.refl hd) ?_ ?_ hn.letters
  · exact fun d hmem => ⟨d, hd ▸ hmem, rfl, rfl, rfl⟩
  · intro p
    obtain ⟨a, hne, haudit⟩ := hn.audit
    rw [Tables.replays, haudit, List.countP_append, Tables.replays]
    simp [hne]

theorem flush_keeps {t t' : Tables} {loaded mine : Delivery}
    (h : t'.deliveries = (t.flush loaded mine).deliveries) : KeepsDeliveries t t' := by
  intro d hd
  rw [h]
  refine ⟨_, mem_flush.mpr ⟨d, hd, rfl⟩, ?_⟩
  split <;> exact ⟨rfl, rfl, rfl⟩

/-- An UPDATE that does not write FAILED adds no failure. -/
theorem flush_noNewFailure {t t' : Tables} {loaded mine : Delivery}
    (hd : t'.deliveries = (t.flush loaded mine).deliveries) (hne : mine.status ≠ .failed) :
    NoNewFailure t t' := by
  intro d' hd'
  rw [hd] at hd'
  obtain ⟨d, hmem, rfl⟩ := mem_flush.mp hd'
  refine .inl ⟨d, hmem, ?_⟩
  split
  · exact ⟨rfl, rfl, rfl, fun hst => absurd hst hne⟩
  · exact ⟨rfl, rfl, rfl, fun hst => hst⟩

/-- A replay marks a delivery that has failed and is FAILED no longer. -/
theorem sound_replayed {c : Nat} {row : Delivery × Partner} {req : ReplayRequest}
    {sess : ReplaySession} (h : DeskSound s) (hrow : s.held c = some row)
    (hr : Replays row.1 req sess) (hdb : s'.db = s.db.commitReplay sess) (hk : KeepsCopies s s')
    (hfail : s'.history.failures = s.history.failures ++ becameFailed s.db.tables s'.db.tables) :
    DeskSound s' := by
  have hh := h.held c row hrow
  obtain ⟨hin, -⟩ := hh.failed hr.failed
  have hd : s'.db.tables.deliveries = (s.db.tables.flush sess.loaded sess.delivery).deliveries := by
    rw [hdb]
    rfl
  have hnf : sess.delivery.status ≠ .failed := by simp [hr.delivery_eq]
  have hold := flush_keeps hd
  have hreplays : ∀ p, s'.db.tables.replays p ≠ 0 →
      s.db.tables.replays p ≠ 0 ∨ p = row.1.publicId := by
    intro p hp
    rw [hdb, replays_commitReplay s.db hr] at hp
    by_cases he : p = row.1.publicId
    · exact .inr he
    · rw [if_neg he] at hp
      exact .inl hp
  refine h.without_failure hk hfail (flush_noNewFailure hd hnf) hold (by rw [hdb]; rfl) ?_ ?_
  · intro d' hd' hrep
    rw [hd] at hd'
    obtain ⟨d, hmem, rfl⟩ := mem_flush.mp hd'
    rw [hr.loaded_eq] at hrep ⊢
    split at hrep <;> rename_i hid
    · rw [if_pos hid]
      exact ⟨hid ▸ hin, hnf⟩
    · rw [if_neg hid]
      rcases hreplays _ hrep with hr' | hp
      · exact h.replayed d hmem hr'
      · obtain ⟨d₀, hd₀, hi, hp₀⟩ := hh.stored
        have heq := Table.eq_of_unique s.db.consistent.delivery_publicId hmem hd₀
          (hp.trans hp₀.symm)
        exact absurd (heq ▸ hi) hid
  · intro p hrep
    rcases hreplays p hrep with hr' | rfl
    · exact h.known_kept hold hr'
    · obtain ⟨d, hmem, -, hp⟩ := hh.stored
      obtain ⟨d', hd', -, hp', -⟩ := hold d hmem
      exact ⟨d', hd', hp'.trans hp⟩

section Process

variable {w : Nat} {ctx : Context} {input : ProcessInput} {sess : Session} {pub : Option Message}
  {out : ProcessOutcome}

theorem Decided.deadLetter_partner (hdec : Decided ctx input sess pub) {l : DeadLetter}
    (hl : sess.deadLetter = some l) : l.partnerId = ctx.partner.id := by
  cases hdec with
  | success | circuitOpen | retry => cases hl
  | missingSecret hsecret hd he hp | poison hn hc hd he hp | exhausted hn hc hge hd he hp =>
    cases hl
    exact hp

/-- A failure that commits is the first one of its delivery, and the only one of the step. -/
theorem becameFailed_processed (h : DeskSound s) (hdec : Decided ctx input sess pub)
    (hctx : s.workers w = some ctx) (hc : s.db.commit sess = .ok s'.db) {l : DeadLetter}
    (hl : sess.deadLetter = some l) :
    ctx.delivery.id ∉ s.history.failures ∧
      becameFailed s.db.tables s'.db.tables = [ctx.delivery.id] := by
  have hst : sess.delivery.status = .failed := hdec.failed_iff.mpr ⟨l, hl⟩
  have hfirst : ctx.delivery.id ∉ s.history.failures := by
    intro hin
    refine Db.commit_deadLetter_clash ⟨l, hl, ?_⟩ hc
    rw [hdec.deadLetter_delivery hl, h.letter_iff]
    exact hin
  refine ⟨hfirst, ?_⟩
  obtain ⟨d, hd, hid, -⟩ := (h.worker w ctx hctx).stored
  have hflushed := (mem_commit hdec hc).mpr ⟨d, hd, (if_pos hid).symm⟩
  have hnodup : s'.db.tables.deliveries.Nodup := s'.db.consistent.delivery_id.of_map
  have hone := Table.filter_eq_singleton
    (p := fun d' => d'.status = .failed ∧
      ¬ ∃ d₀ ∈ s.db.tables.deliveries, d₀.id = d'.id ∧ d₀.status = .failed)
    hnodup hflushed ?_ ?_
  · rw [becameFailed, hone, List.map_singleton]
    exact congrArg ([·]) hid
  · simp only [decide_eq_true_eq]
    refine ⟨hst, ?_⟩
    rintro ⟨d₀, hd₀, hid₀, hst₀⟩
    exact hfirst (hid ▸ hid₀ ▸ h.failed d₀ hd₀ hst₀)
  · intro d' hd' hp
    simp only [decide_eq_true_eq] at hp
    obtain ⟨d₁, hd₁, rfl⟩ := (mem_commit hdec hc).mp hd'
    split at hp
    · rename_i hid₁
      rw [if_pos hid₁, Table.eq_of_unique s.db.consistent.delivery_id hd₁ hd (hid₁.trans hid.symm)]
    · exact absurd ⟨d₁, hd₁, rfl, hp.1⟩ hp.2

theorem sound_failed (h : DeskSound s) (hdec : Decided ctx input sess pub)
    (hctx : s.workers w = some ctx) (hc : s.db.commit sess = .ok s'.db) {l : DeadLetter}
    (hl : sess.deadLetter = some l) (hk : KeepsCopies s s')
    (hfail : s'.history.failures = s.history.failures ++ becameFailed s.db.tables s'.db.tables) :
    DeskSound s' := by
  obtain ⟨hfirst, hone⟩ := becameFailed_processed h hdec hctx hc hl
  rw [hone] at hfail
  have hcopy := h.worker w ctx hctx
  have hlid := hdec.deadLetter_delivery hl
  have hletters : s'.db.tables.deadLetters = s.db.tables.deadLetters ++ [l] := by
    rw [processed_tables hc]
    change s.db.tables.deadLetters ++ sess.deadLetter.toList = _
    rw [hl]
    rfl
  have hreplays : ∀ p, s'.db.tables.replays p = s.db.tables.replays p := by
    intro p
    rw [processed_tables hc]
    rfl
  have hold : KeepsDeliveries s.db.tables s'.db.tables :=
    flush_keeps (by rw [processed_tables hc]; rfl)
  have hcopies := copies_kept h hk hold fun i hi => hfail ▸ List.mem_append_left _ hi
  refine ⟨?_, ?_, ?_, ?_, ?_, ?_, hcopies.1, hcopies.2⟩
  · rw [hfail]
    exact List.nodup_append.mpr ⟨h.nodup, List.nodup_singleton _, by
      intro a ha b hb hab
      rw [List.mem_singleton.mp hb] at hab
      exact hfirst (hab ▸ ha)⟩
  · intro i
    rw [hfail, List.mem_append, List.mem_singleton, ← h.letter_iff i,
      hasDeadLetter_processed hdec hc]
    simp [hdec.failed_iff, hl]
  · intro d' hd' hst
    rw [hfail, List.mem_append, List.mem_singleton]
    obtain ⟨d, hd, rfl⟩ := (mem_commit hdec hc).mp hd'
    split at hst <;> rename_i hid
    · exact .inr (by rw [if_pos hid]; exact hid)
    · exact .inl (by rw [if_neg hid]; exact h.failed d hd hst)
  · intro l' hl' d' hd' hid'
    obtain ⟨d, hd, hid, -, hp, -⟩ := flush_keys (processed_tables hc ▸ hd')
    rw [hp]
    rw [hletters] at hl'
    rcases List.mem_append.mp hl' with hin | hnew
    · exact h.partner l' hin d hd (hid.symm.trans hid')
    · obtain rfl := List.mem_singleton.mp hnew
      obtain ⟨d₀, hd₀, hid₀, hp₀⟩ := hcopy.stored
      have heq := Table.eq_of_unique s.db.consistent.delivery_id hd hd₀
        (hid.symm.trans (hid'.trans (hlid.trans hid₀.symm)))
      rw [hdec.deadLetter_partner hl, hcopy.partner, heq, hp₀]
  · intro d' hd' hrep
    rw [hreplays] at hrep
    rw [hfail, List.mem_append]
    obtain ⟨d, hd, rfl⟩ := (mem_commit hdec hc).mp hd'
    split at hrep <;> rename_i hid
    · exact absurd (hid ▸ (h.replayed d hd hrep).1) hfirst
    · rw [if_neg hid]
      obtain ⟨hin, hnf⟩ := h.replayed d hd hrep
      exact ⟨.inl hin, hnf⟩
  · intro p hrep
    rw [hreplays] at hrep
    exact h.known_kept hold hrep

theorem sound_processed (h : DeskSound s) (hctx : s.workers w = some ctx)
    (hv : processDelivery settings ctx input = .ok (.commit sess pub out))
    (hc : s.db.commit sess = .ok s'.db) (hk : KeepsCopies s s')
    (hfail : s'.history.failures = s.history.failures ++ becameFailed s.db.tables s'.db.tables) :
    DeskSound s' := by
  obtain ⟨-, hdec⟩ := process_decided hv
  cases hl : sess.deadLetter with
  | some l => exact sound_failed h hdec hctx hc hl hk hfail
  | none =>
    have hne : sess.delivery.status ≠ .failed := by
      intro hst
      obtain ⟨l, hl'⟩ := hdec.failed_iff.mp hst
      rw [hl] at hl'
      cases hl'
    have ht := processed_tables hc
    have hd : s'.db.tables.deliveries =
        (s.db.tables.flush sess.loaded sess.delivery).deliveries := by
      rw [ht]
      rfl
    refine h.frame hk hfail (flush_noNewFailure hd hne) (flush_keeps hd) ?_ ?_
    · intro p
      rw [ht]
      rfl
    · rw [ht]
      simp [Tables.written, Tables.flush, hl]

end Process

/-- A read changes copies only. -/
theorem DeskSound.copies (h : DeskSound s) (hdb : s'.db = s.db)
    (hfail : s'.history.failures = s.history.failures ++ becameFailed s.db.tables s'.db.tables)
    (hw : s'.history.failures = s.history.failures →
      ∀ w ctx, s'.workers w = some ctx → WorkerCopy s' ctx)
    (hh : s'.history.failures = s.history.failures →
      ∀ c row, s'.held c = some row → HeldRow s' c row) : DeskSound s' := by
  have hsame : s'.history.failures = s.history.failures := by
    rw [hfail, NoNewFailure.becameFailed (.refl (by rw [hdb])), List.append_nil]
  refine ⟨?_, ?_, ?_, ?_, ?_, ?_, hw hsame, hh hsame⟩
  all_goals simp only [hsame, hdb]
  · exact h.nodup
  · exact h.letter_iff
  · exact h.failed
  · exact h.partner
  · exact h.replayed
  · exact h.known

theorem sound_read {w : Nat} {i : Uuid} {ctx : Context} (h : DeskSound s) (hdb : s'.db = s.db)
    (hw : s'.workers = Function.update s.workers w (some ctx))
    (hctx : s.db.tables.fetchDeliveryContext i = some ctx)
    (hh : ∀ c row, s'.held c = some row →
      s.held c = some row ∧ s'.history.seen c = s.history.seen c)
    (hfail : s'.history.failures = s.history.failures ++ becameFailed s.db.tables s'.db.tables) :
    DeskSound s' := by
  refine h.copies hdb hfail ?_ ?_
  · intro _ w' ctx' hctx'
    rw [hw] at hctx'
    rcases update_some_cases hctx' with ⟨-, hnew⟩ | ⟨-, hold⟩
    · obtain rfl := Option.some.inj hnew
      exact ⟨fetchContext_partner hctx, ctx.delivery, hdb ▸ (fetchContext_some hctx).1, rfl, rfl⟩
    · have hcopy := h.worker w' ctx' hold
      exact ⟨hcopy.partner, hdb ▸ hcopy.stored⟩
  · intro hsame c row hrow
    obtain ⟨hold, hseen⟩ := hh c row hrow
    have hcopy := h.held c row hold
    refine ⟨hdb ▸ hcopy.stored, ?_⟩
    rw [hsame, hseen]
    exact hcopy.failed

/-- A row read as FAILED has failed, and none of its replays is on record: a replayed
delivery is never FAILED again. -/
theorem sound_entered {row : Delivery × Partner} (h : DeskSound s) (hdb : s'.db = s.db)
    (hw : s'.workers = s.workers) (hmem : row.1 ∈ s.db.tables.deliveries)
    (hh : ∀ c' row', s'.held c' = some row' →
      (s.held c' = some row' ∧ s'.history.seen c' = s.history.seen c') ∨
        (row' = row ∧ s'.history.seen c' = s.db.tables.replays row.1.publicId))
    (hfail : s'.history.failures = s.history.failures ++ becameFailed s.db.tables s'.db.tables) :
    DeskSound s' := by
  refine h.copies hdb hfail ?_ ?_
  · intro _ w' ctx' hctx'
    rw [hw] at hctx'
    have hcopy := h.worker w' ctx' hctx'
    exact ⟨hcopy.partner, hdb ▸ hcopy.stored⟩
  · intro hsame c row' hrow
    rcases hh c row' hrow with ⟨hold, hseen⟩ | ⟨rfl, hseen⟩
    · have hcopy := h.held c row' hold
      refine ⟨hdb ▸ hcopy.stored, ?_⟩
      rw [hsame, hseen]
      exact hcopy.failed
    · refine ⟨⟨row'.1, hdb ▸ hmem, rfl, rfl⟩, ?_⟩
      intro hst
      rw [hsame, hseen]
      refine ⟨h.failed row'.1 hmem hst, ?_⟩
      by_contra hne
      exact (h.replayed row'.1 hmem hne).2 hst

theorem sound_step {a : DeskAction} (h : DeskSound s) (hs : s.step settings a = some s') :
    DeskSound s' := by
  have hfail := step_failures hs
  cases deskStep_of_step hs with
  | enrolled he hk => exact sound_enrolled h he hk hfail
  | processed hctx hv hc hk => exact sound_processed h hctx hv hc hk hfail
  | replayed ha hcall hrow href hr hdb hk =>
    exact sound_replayed h (held_of_call hcall hrow) hr hdb hk hfail
  | noted hn hk => exact sound_noted h hn hk hfail
  | read hdb hw hctx hh => exact sound_read h hdb hw hctx hh hfail
  | entered hdb hw hmem hh => exact sound_entered h hdb hw hmem hh hfail

theorem sound_reachable (h : Reachable (Desk.step settings) Desk.init s) : DeskSound s :=
  h.invariant DeskSound (fun _ _ _ hi hs => sound_step hi hs) desk_sound_init

end

/-- In every committed state, whatever overlapped and crashed before: a FAILED delivery has
exactly one dead letter, of its partner, and a dead letter belongs to a stored delivery
that was committed as FAILED. -/
theorem failed_has_one_dead_letter (settings : Settings) (s : Desk)
    (h : Reachable (Desk.step settings) Desk.init s) :
    (∀ d ∈ s.db.tables.deliveries, d.status = .failed →
      ∃ l, s.db.tables.deadLetters.filter (fun l => l.deliveryId = d.id) = [l] ∧
        l.partnerId = d.partnerId) ∧
    ∀ l ∈ s.db.tables.deadLetters,
      (∃ d ∈ s.db.tables.deliveries, d.id = l.deliveryId) ∧ l.deliveryId ∈ s.history.failures := by
  have hs := sound_reachable h
  have hunique := s.db.consistent.deadLetter_unique
  constructor
  · intro d hd hst
    obtain ⟨l, hl, hid⟩ := (hs.letter_iff d.id).mpr (hs.failed d hd hst)
    refine ⟨l, ?_, hs.partner l hl d hd hid.symm⟩
    refine Table.filter_eq_singleton hunique.of_map hl (by simpa using hid) ?_
    intro l' hl' hp
    exact Table.eq_of_unique hunique hl' hl (by rw [hid]; simpa using hp)
  · intro l hl
    exact ⟨s.db.consistent.deadLetter_delivery l hl, (hs.letter_iff _).mp ⟨l, hl, rfl⟩⟩

/-- After a purge the FAILED delivery still has its dead letter. -/
theorem purged_letter_stays :
    ∃ s, exec (Desk.step {}) Desk.init
        (failedDesk ++ [.readPurge 0 20, .proceed 0 opsArgs freeGate]) = some s ∧
      (∃ d ∈ s.db.tables.deliveries, d.status = .failed ∧
        ∃ l, s.db.tables.deadLetters.filter (fun l => l.deliveryId = d.id) = [l] ∧
          l.partnerId = d.partnerId) ∧
      ∀ l ∈ s.db.tables.deadLetters,
        (∃ d ∈ s.db.tables.deliveries, d.id = l.deliveryId) ∧
          l.deliveryId ∈ s.history.failures := by
  obtain ⟨s, hs, d, hd, hst⟩ : ∃ s, exec (Desk.step {}) Desk.init
      (failedDesk ++ [.readPurge 0 20, .proceed 0 opsArgs freeGate]) = some s ∧
        ∃ d ∈ s.db.tables.deliveries, d.status = .failed := ⟨_, rfl, by decide +kernel⟩
  obtain ⟨hone, hletters⟩ := failed_has_one_dead_letter {} s ⟨_, hs⟩
  exact ⟨s, hs, ⟨d, hd, hst, hone d hd hst⟩, hletters⟩

end PartnerHub.Outbound
