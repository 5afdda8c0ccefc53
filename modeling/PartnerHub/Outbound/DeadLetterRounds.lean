import PartnerHub.Outbound.AttemptNumbers
import PartnerHub.Outbound.Verdicts

/-!
# Failing again after a replay

`dead_letters.delivery_id` is unique and nothing removes a row: a purge only changes
its reason. The joint states of `deliveries`, `dead_letters` and `audit_logs` tell
when a terminal failure can be recorded.
-/
namespace PartnerHub.Outbound

open PartnerHub.Domain PartnerHub.Lib PartnerHub.Lib.System

/-- The audit log has a replay of the delivery with this public id. -/
def Replayed (t : Tables) (publicId : Uuid) : Prop :=
  ∃ a ∈ t.auditLogs, a.action = .deliveryReplay ∧ a.resourceId = publicId

instance (t : Tables) (i : Uuid) : Decidable (Replayed t i) :=
  inferInstanceAs (Decidable (∃ _ ∈ _, _))

/-- What holds of the tables after any sequence of complete operations. -/
structure Rounds (t : Tables) : Prop where
  letter_iff : ∀ d ∈ t.deliveries,
    (t.HasDeadLetter d.id ↔ d.status = .failed ∨ Replayed t d.publicId)
  below : ∀ d ∈ t.deliveries, d.status.Open → ¬ Replayed t d.publicId → CounterCovers t d
  replayed : ∀ i, Replayed t i → ∃ d ∈ t.deliveries, d.publicId = i

theorem rounds_empty : Rounds Db.empty.tables := by
  constructor <;> simp [Db.empty, Replayed]

theorem rounds_accepted {db db' : Db} {partner : Partner} {endpoints : List PartnerEndpoint}
    {req : EnqueueRequest} {rows : List Delivery} {events : List OutboxEvent}
    (h : Rounds db.tables) (ha : Accepts db.tables partner endpoints req rows events)
    (he : db'.tables = db.tables.inserted rows events) : Rounds db'.tables := by
  have hnot : ∀ d ∈ rows, ¬ Replayed db.tables d.publicId := by
    intro d hd hrep
    obtain ⟨d₀, hd₀, hi⟩ := h.replayed _ hrep
    exact ha.publicId_ne he hd hd₀ hi
  rw [he]
  refine ⟨?_, ?_, ?_⟩
  · intro d hd
    rcases List.mem_append.mp hd with hold | hnew
    · exact h.letter_iff d hold
    · refine iff_of_false (ha.no_deadLetter hnew) ?_
      rintro (hf | hrep)
      · rw [ha.pending hnew] at hf
        cases hf
      · exact hnot d hnew hrep
  · intro d hd ho hrep a hat hid
    rcases List.mem_append.mp hd with hold | hnew
    · exact h.below d hold ho hrep a hat hid
    · exact absurd hid (ha.no_attempt hnew hat)
  · intro i hrep
    obtain ⟨d, hd, hi⟩ := h.replayed i hrep
    exact ⟨d, List.mem_append_left _ hd, hi⟩

theorem rounds_processed {settings : Settings} {db db' : Db} {i : Uuid} {input : ProcessInput}
    {ctx : Context} {s : Session} {pub : Option Message} (h : Rounds db.tables)
    (hp : Processes settings db i input ctx s pub) (hc : db.commit s = .ok db') :
    Rounds db'.tables := by
  obtain ⟨hmem, -⟩ := fetchContext_some hp.found
  obtain ⟨hid, hpub⟩ := hp.decided.id_eq
  have hrep : ∀ j, Replayed db'.tables j ↔ Replayed db.tables j := by
    intro j
    rw [processed_tables hc]
    exact Iff.rfl
  refine ⟨?_, ?_, ?_⟩
  · intro d hd
    rw [hrep, hasDeadLetter_processed hp.decided hc]
    rcases (processed_mem hp hc).mp hd with rfl | ⟨hold, hne⟩
    · rw [hid, hpub, h.letter_iff ctx.delivery hmem]
      have hnf : ctx.delivery.status ≠ .failed := by
        intro he
        have ho := hp.isOpen
        simp [he] at ho
      simp only [hnf, false_or, true_and]
      exact or_comm
    · simp only [hne, false_and, or_false]
      exact h.letter_iff d hold
  · intro d hd ho hnr
    rw [hrep] at hnr
    exact covers_processed hp hc hd ho fun d₀ hd₀ he ho₀ => h.below d₀ hd₀ ho₀ (he ▸ hnr)
  · intro j hj
    rw [processed_tables hc]
    exact exists_publicId_flush (h.replayed j ((hrep j).mp hj))

/-- A replay marks its delivery, which already had a dead letter. -/
theorem rounds_replayed {db : Db} {req : ReplayRequest} {loaded : Delivery} {s : ReplaySession}
    (h : Rounds db.tables) (hl : loaded ∈ db.tables.deliveries) (hr : Replays loaded req s) :
    Rounds (db.commitReplay s).tables := by
  have hrep : ∀ j, Replayed (db.commitReplay s).tables j ↔
      Replayed db.tables j ∨ j = loaded.publicId := by
    intro j
    change (∃ a ∈ db.tables.auditLogs ++ [s.audit], _) ↔ _
    simp [Replayed, or_and_right, exists_or, hr.audit_action, hr.audit_resource, eq_comm]
  refine ⟨?_, ?_, ?_⟩
  · intro d hd
    rw [hrep]
    change db.tables.HasDeadLetter d.id ↔ _
    rcases (replayed_mem hl hr).mp hd with rfl | ⟨hold, hne⟩
    · rw [hr.delivery_eq]
      exact iff_of_true ((h.letter_iff loaded hl).mpr (.inl hr.failed)) (.inr (.inr rfl))
    · have hpub : d.publicId ≠ loaded.publicId := fun he =>
        hne (by rw [Table.eq_of_unique db.consistent.delivery_publicId hold hl he])
      simp only [hpub, or_false]
      exact h.letter_iff d hold
  · intro d hd ho hnr a ha hida
    rw [hrep, not_or] at hnr
    rcases (replayed_mem hl hr).mp hd with rfl | ⟨hold, -⟩
    · exact absurd (by rw [hr.delivery_eq]) hnr.2
    · exact h.below d hold ho hnr.1 a ha hida
  · intro j hj
    rcases (hrep j).mp hj with hold | rfl
    · exact exists_publicId_flush (h.replayed j hold)
    · exact exists_publicId_flush ⟨loaded, hl, rfl⟩

theorem rounds_deadLetter {t t' : Tables} (h : Rounds t) (hw : DeadLetterWrite t t') :
    Rounds t' := by
  have hd : t'.deliveries = t.deliveries := by rw [hw.frame]
  have ha : t'.attempts = t.attempts := by rw [hw.frame]
  have hletter : ∀ n, t'.HasDeadLetter n ↔ t.HasDeadLetter n := by
    intro n
    simp only [Tables.HasDeadLetter, ← List.mem_map, hw.deadLetters]
  have hrep : ∀ j, Replayed t' j ↔ Replayed t j := by
    intro j
    obtain ⟨a, hne, haudit⟩ := hw.audit
    simp [Replayed, haudit, or_and_right, exists_or, hne]
  refine ⟨?_, ?_, ?_⟩
  · intro d hmem
    rw [hletter, hrep]
    exact h.letter_iff d (hd ▸ hmem)
  · intro d hmem ho hnr a hat
    exact h.below d (hd ▸ hmem) ho (by rwa [← hrep]) a (ha ▸ hat)
  · intro j hj
    rw [hd]
    exact h.replayed j ((hrep j).mp hj)

theorem rounds_change {settings : Settings} {db db' : Db} {op : Op}
    (hch : Change settings db op db') (h : Rounds db.tables) : Rounds db'.tables := by
  cases hch with
  | keep => exact h
  | admin partners endpoints he => exact he ▸ ⟨h.letter_iff, h.below, h.replayed⟩
  | accepted ha he => exact rounds_accepted h ha he
  | processed hp hc => exact rounds_processed h hp hc
  | replayed hl hi hr => exact rounds_replayed h hl hr
  | deadLetter hw => exact rounds_deadLetter h hw

theorem rounds_reachable {settings : Settings} {db : Db}
    (h : Reachable (Db.step settings) Db.empty db) : Rounds db.tables := by
  refine h.invariant (fun db => Rounds db.tables) ?_ rounds_empty
  intro db op db' hi hs
  obtain rfl := Option.some.inj hs
  exact rounds_change (apply_change settings db op) hi

/-- An execution of `process_outbound_message` that reaches `_mark_failed_dlq` with this
session to commit and this record to send. -/
structure ReachesMarkFailed (settings : Settings) (db : Db) (i : Uuid) (input : ProcessInput)
    (ctx : Context) (s : Session) (pub : Option Message) : Prop where
  found : db.tables.fetchDeliveryContext i = some ctx
  verdict : processDelivery settings ctx input = .ok (.commit s pub .dlq)

/-- The failure is on record: the call returns, the delivery is FAILED and the dead
letter of this failure is stored. -/
def FailureRecorded (settings : Settings) (db : Db) (i : Uuid) (input : ProcessInput)
    (s : Session) (pub : Option Message) : Prop :=
  ∃ db', db.processOutboundMessage settings i input = .ok (db', .dlq, pub) ∧
    (∃ d ∈ db'.tables.deliveries, d.publicId = i ∧ d.status = .failed) ∧
    ∃ l ∈ db'.tables.deadLetters, s.deadLetter = some l

section Failure

variable {settings : Settings} {db : Db} {i : Uuid} {input : ProcessInput} {ctx : Context}
  {s : Session} {pub : Option Message}

theorem ReachesMarkFailed.processes (h : ReachesMarkFailed settings db i input ctx s pub) :
    Processes settings db i input ctx s pub :=
  ⟨h.found, .dlq, h.verdict⟩

theorem ReachesMarkFailed.failed (h : ReachesMarkFailed settings db i input ctx s pub) :
    s.delivery.status = .failed :=
  (process_dlq_iff h.verdict).mp rfl

theorem Processes.reachesMarkFailed (h : Processes settings db i input ctx s pub)
    (hf : s.delivery.status = .failed) : ReachesMarkFailed settings db i input ctx s pub := by
  obtain ⟨out, hv⟩ := h.verdict
  obtain rfl := (process_dlq_iff hv).mpr hf
  exact ⟨h.found, hv⟩

/-- Such an execution is recorded exactly when its commit succeeds. -/
theorem failureRecorded_iff_commit (h : ReachesMarkFailed settings db i input ctx s pub) :
    FailureRecorded settings db i input s pub ↔ ∃ db', db.commit s = .ok db' := by
  have heq : ∀ db', db.commit s = .ok db' →
      db.processOutboundMessage settings i input = .ok (db', .dlq, pub) := by
    intro db' hc
    simp only [Db.processOutboundMessage, h.found, h.verdict, hc]
  constructor
  · rintro ⟨db', hok, -⟩
    cases hc : db.commit s with
    | error c => simp [Db.processOutboundMessage, h.found, h.verdict, hc] at hok
    | ok db'' => exact ⟨db'', rfl⟩
  · rintro ⟨db', hc⟩
    obtain ⟨l, hl⟩ := h.processes.decided.failed_iff.mp h.failed
    refine ⟨db', heq db' hc, ⟨s.delivery, (processed_mem h.processes hc).mpr (.inl rfl), ?_,
      h.failed⟩, l, ?_, hl⟩
    · exact h.processes.decided.id_eq.2.trans (fetchContext_some h.found).2
    · rw [processed_tables hc]
      exact List.mem_append_right _ (Option.mem_toList.mpr hl)

/-- In such tables the commit of an execution succeeds when the delivery was never
replayed, so that it has neither a dead letter nor an attempt with the next number, and
PostgreSQL takes the texts. -/
theorem Processes.commits (hrounds : Rounds db.tables)
    (hp : Processes settings db i input ctx s pub) (hnr : ¬ Replayed db.tables i)
    (hs : s.Storable) : ∃ db', db.commit s = .ok db' := by
  have hdec := hp.decided
  obtain ⟨hmem, rfl⟩ := fetchContext_some hp.found
  refine Db.commit_succeeds hs (hdec.references hmem)
    (hdec.no_attempt_clash (hrounds.below ctx.delivery hmem hp.isOpen hnr)) ?_
  rintro ⟨l, hl, hletter⟩
  rw [hdec.deadLetter_delivery hl, hrounds.letter_iff ctx.delivery hmem] at hletter
  rcases hletter with hf | hrep
  · have ho := hp.isOpen
    simp [hf] at ho
  · exact hnr hrep

/-- In such tables a terminal failure is recorded exactly when the delivery was never
replayed, since a replayed one has its dead letter already, and the reply can be recorded. -/
theorem recorded_iff_of_rounds (hrounds : Rounds db.tables)
    (h : ReachesMarkFailed settings db i input ctx s pub) :
    FailureRecorded settings db i input s pub ↔ ¬ Replayed db.tables i ∧ input.Recordable := by
  have hdec := h.processes.decided
  obtain ⟨hmem, hi⟩ := fetchContext_some h.found
  obtain ⟨l, hl⟩ := hdec.failed_iff.mp h.failed
  have hlid := hdec.deadLetter_delivery hl
  rw [failureRecorded_iff_commit h, ← process_storable_iff h.verdict]
  constructor
  · rintro ⟨db', hc⟩
    refine ⟨?_, Db.commit_storable hc⟩
    intro hrep
    have hold := (hrounds.letter_iff ctx.delivery hmem).mpr (.inr (hi ▸ hrep))
    exact Db.commit_deadLetter_clash ⟨l, hl, hlid ▸ hold⟩ hc
  · rintro ⟨hnr, hs⟩
    exact h.processes.commits hrounds hnr hs

/-- After any sequence of complete operations, a terminal failure is recorded exactly
when the delivery was never replayed and PostgreSQL takes the texts of the reply. -/
theorem failure_recorded_iff (hreach : Reachable (Db.step settings) Db.empty db)
    (h : ReachesMarkFailed settings db i input ctx s pub) :
    FailureRecorded settings db i input s pub ↔ ¬ Replayed db.tables i ∧ input.Recordable :=
  recorded_iff_of_rounds (rounds_reachable hreach) h

end Failure

/-- Without a replay the second answer is still a first failure. -/
def retryThenPoisonRun : List Op := acceptedRun ++ [.process 10 (answer 1 503)]

theorem failure_recorded_after_retry :
    ∃ db, exec (Db.step {}) Db.empty retryThenPoisonRun = some db ∧
      ∃ s pub, FailureRecorded {} db 10 (answer 40 400) s pub := by
  obtain ⟨db, hrun, hfound⟩ : ∃ db, exec (Db.step {}) Db.empty retryThenPoisonRun = some db ∧
      ∃ ctx s pub, ReachesMarkFailed {} db 10 (answer 40 400) ctx s pub ∧
        ¬ Replayed db.tables 10 := ⟨_, rfl, _, _, _, ⟨rfl, rfl⟩, by decide⟩
  obtain ⟨ctx, s, pub, hreach, hnr⟩ := hfound
  refine ⟨db, hrun, s, pub, (failure_recorded_iff ⟨_, hrun⟩ hreach).mpr ⟨hnr, ?_⟩⟩
  intro _ _
  show Storable (truncateResponseBody "")
  exact storable_truncate (by simp)

/-- A delivery that failed for a missing secret is replayed and fails again: the
dead letter of the first round is still there. -/
def secondFailureRun : List Op :=
  acceptedRun ++ [.process 10 { answer 1 200 with signingSecret := none },
    .replay 10 (manualReplay false), .purge 20 "done" "ops"]

theorem second_failure_not_recorded :
    ∃ db, exec (Db.step {}) Db.empty secondFailureRun = some db ∧
      db.processOutboundMessage {} 10 (answer 200 400) =
        .error (.commit (.integrity .deadLettersDelivery)) ∧
      ∃ ctx s pub, ReachesMarkFailed {} db 10 (answer 200 400) ctx s pub ∧
        ¬ FailureRecorded {} db 10 (answer 200 400) s pub := by
  refine ⟨_, rfl, rfl, _, _, _, ⟨rfl, rfl⟩, ?_⟩
  rintro ⟨db', hok, -⟩
  cases hok

end PartnerHub.Outbound
