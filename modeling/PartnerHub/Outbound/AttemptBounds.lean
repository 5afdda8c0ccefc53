import PartnerHub.Outbound.DeadLetterRounds

/-!
# Bounded attempts

Executions on one delivery that do not overlap, with messages in any number and order.
The attempt rows, the counter, the status and the dead letter of a delivery that was never
replayed move together: only a retryable answer bumps the counter, and the answers that do
not are the last ones. An endpoint's retry codes may be edited between two executions, so
the class each recorded attempt was given is kept beside the database.
-/
namespace PartnerHub.Outbound

open PartnerHub.Domain PartnerHub.Lib PartnerHub.Lib.System

/-- The database with the class the processor gave each recorded attempt. -/
structure Classified where
  db : Db
  classes : List (DeliveryAttempt × ResponseClassification)

/-- The attempt an operation records, with its class. -/
def Db.classified (settings : Settings) (db : Db) : Op → List (DeliveryAttempt × ResponseClassification)
  | .process i input =>
    match db.tables.fetchDeliveryContext i with
    | none => []
    | some ctx =>
      match processDelivery settings ctx input with
      | .ok (.commit s _ _) =>
        match db.commit s with
        | .ok _ => s.attempt.toList.map fun a => (a, ctx.classOf a)
        | .error _ => []
      | _ => []
  | _ => []

def Classified.step (settings : Settings) (s : Classified) (op : Op) : Option Classified :=
  some ⟨s.db.apply settings op, s.classes ++ s.db.classified settings op⟩

def Classified.init : Classified := ⟨Db.empty, []⟩

/-- The number of recorded attempts of a delivery that were classified retryable. -/
def Classified.retryables (s : Classified) (deliveryId : Nat) : Nat :=
  s.classes.countP fun r => r.1.deliveryId = deliveryId ∧ r.2 = .retryable

def Op.isPurge : Op → Bool
  | .purge _ _ _ => true
  | _ => false

/-- How many of its attempts a delivery has used, by status. -/
inductive AttemptStage (rows : Nat) (d : Delivery) : Prop
  | running (ho : d.status.Open) (hk : rows = d.attemptCount) (hlt : d.attemptCount < d.maxAttempts)
  | delivered (hs : d.status = .delivered) (hk : rows = d.attemptCount + 1)
      (hlt : d.attemptCount < d.maxAttempts)
  | failed (hs : d.status = .failed) (hk : rows ≤ d.maxAttempts)

/-- The invariant of one delivery that was never replayed. -/
structure Bounded (s : Classified) (d : Delivery) : Prop where
  numbers : (s.db.tables.attemptsOf d.id).map (·.attemptNumber) =
    List.range' 1 (s.db.tables.attemptsOf d.id).length
  counted : d.attemptCount = s.retryables d.id
  stage : AttemptStage (s.db.tables.attemptsOf d.id).length d
  letter : ∀ l ∈ s.db.tables.deadLetters, l.deliveryId = d.id →
    (l.reason = .maxAttemptsExceeded ↔ d.attemptCount = d.maxAttempts)

structure AllBounded (s : Classified) : Prop where
  logged : s.classes.map Prod.fst = s.db.tables.attempts
  row : ∀ d ∈ s.db.tables.deliveries, 1 ≤ d.maxAttempts → ¬ Replayed s.db.tables d.publicId →
    Bounded s d

/-- What a recorded step of `process_outbound_message` does, or that it changes nothing. -/
theorem classified_cases (settings : Settings) (db : Db) (i : Uuid) (input : ProcessInput) :
    (db.apply settings (.process i input) = db ∧ db.classified settings (.process i input) = []) ∨
      ∃ ctx s pub out, db.tables.fetchDeliveryContext i = some ctx ∧
        processDelivery settings ctx input = .ok (.commit s pub out) ∧
        db.commit s = .ok (db.apply settings (.process i input)) ∧
        db.classified settings (.process i input) =
          s.attempt.toList.map fun a => (a, ctx.classOf a) := by
  simp only [Db.apply, Db.processOutboundMessage, Db.classified]
  cases hctx : db.tables.fetchDeliveryContext i with
  | none => exact .inl ⟨rfl, rfl⟩
  | some ctx =>
    simp only
    cases hv : processDelivery settings ctx input with
    | error message => exact .inl ⟨rfl, rfl⟩
    | ok v =>
      cases v with
      | skip => exact .inl ⟨rfl, rfl⟩
      | commit s pub out =>
        simp only
        cases hc : db.commit s with
        | error c => exact .inl ⟨rfl, rfl⟩
        | ok db' => exact .inr ⟨ctx, s, pub, out, rfl, hv, hc, rfl⟩

section Process

variable {settings : Settings} {s s' : Classified} {i : Uuid} {input : ProcessInput} {ctx : Context}
  {sess : Session} {pub : Option Message} {out : ProcessOutcome}

/-- The reason of a new dead letter: exhaustion bumped the counter to the limit, any other
failure left it. -/
theorem letter_reason (hv : processDelivery settings ctx input = .ok (.commit sess pub out))
    {l : DeadLetter} (hl : sess.deadLetter = some l)
    (hlt : ctx.delivery.attemptCount < ctx.delivery.maxAttempts) :
    l.reason = .maxAttemptsExceeded ↔ sess.delivery.attemptCount = sess.delivery.maxAttempts := by
  have hsent : pub = some (dlqMessage ctx sess.delivery l.reason) := process_letter hv l hl
  have hreason : ∀ {r : DeadLetterReason}, pub = some (dlqMessage ctx sess.delivery r) →
      l.reason = r := by
    intro r hr
    have he := Option.some.inj (hsent.symm.trans hr)
    simpa [dlqMessage] using he
  cases (process_decided hv).2 with
  | missingSecret hsecret hd | poison hn hc hd =>
    rw [hreason rfl, hd]
    simp only [reduceCtorEq, false_iff]
    omega
  | exhausted hn hc hge hd =>
    rw [hreason rfl, hd]
    simp only [true_iff]
    omega
  | circuitOpen | success | retry => cases hl

theorem retryables_process (hdec : Decided ctx input sess pub)
    (hcl : s'.classes = s.classes ++ sess.attempt.toList.map fun a => (a, ctx.classOf a)) (n : Nat) :
    s'.retryables n = s.retryables n +
      if n = ctx.delivery.id ∧ ∃ a, sess.attempt = some a ∧ ctx.classOf a = .retryable then 1
      else 0 := by
  rw [Classified.retryables, hcl, List.countP_append, Classified.retryables]
  congr 1
  cases ha : sess.attempt with
  | none => simp
  | some a =>
    have hd := (hdec.numbers ha).delivery
    by_cases hn : n = ctx.delivery.id
    · simp [List.countP_cons, hd, hn]
    · simp [hd, hn, Ne.symm hn]

/-- The numbers stay without a gap: the new attempt is one above the counter, which equals
the number of rows of an open delivery. -/
theorem numbers_process (hdec : Decided ctx input sess pub)
    (hc : s.db.commit sess = .ok s'.db) (hb : Bounded s ctx.delivery)
    (hk : (s.db.tables.attemptsOf ctx.delivery.id).length = ctx.delivery.attemptCount) :
    (s'.db.tables.attemptsOf ctx.delivery.id).map (·.attemptNumber) =
      List.range' 1 (s'.db.tables.attemptsOf ctx.delivery.id).length := by
  rw [attemptsOf_processed hdec hc, if_pos rfl, List.map_append, hb.numbers, List.length_append]
  cases ha : sess.attempt with
  | none => simp
  | some a =>
    have hn := (hdec.numbers ha).number
    simp only [Option.toList_some, List.map_cons, List.map_nil, List.length_singleton, hn, hk]
    rw [List.range'_1_concat, Nat.add_comm]

/-- An execution on an open delivery takes it to its next stage. -/
theorem stage_process (hdec : Decided ctx input sess pub) {k : Nat}
    (hk : k = ctx.delivery.attemptCount) (hlt : ctx.delivery.attemptCount < ctx.delivery.maxAttempts) :
    AttemptStage (k + sess.attempt.toList.length) sess.delivery := by
  cases hdec with
  | missingSecret hsecret hd =>
    subst hd
    exact .failed rfl (by simp only [Option.toList_none, List.length_nil]; omega)
  | circuitOpen hd =>
    subst hd
    exact .running (by simp) hk hlt
  | success hn hc hat hf hd =>
    subst hd
    exact .delivered rfl (by simp [hk]) hlt
  | poison hn hc hd =>
    subst hd
    exact .failed rfl (by simp only [Option.toList_some, List.length_singleton]; omega)
  | retry hn hc hlt' hd =>
    subst hd
    exact .running (by simp) (by simp [hk]) hlt'
  | exhausted hn hc hge hd =>
    subst hd
    exact .failed rfl (by simp only [Option.toList_some, List.length_singleton]; omega)

theorem counter_process (hdec : Decided ctx input sess pub) :
    sess.delivery.attemptCount = ctx.delivery.attemptCount +
      if ∃ a, sess.attempt = some a ∧ ctx.classOf a = .retryable then 1 else 0 := by
  cases hdec with
  | missingSecret hsecret hd | circuitOpen hd => simp [hd]
  | success hn hc hat hf hd | poison hn hc hd | retry hn hc hlt hd | exhausted hn hc hge hd =>
    simp [hd, hc]

theorem Decided.maxAttempts_eq (hdec : Decided ctx input sess pub) :
    sess.delivery.maxAttempts = ctx.delivery.maxAttempts := by
  rw [← hdec.flush_current]
  rfl

theorem bounded_written (hb : Bounded s ctx.delivery)
    (hv : processDelivery settings ctx input = .ok (.commit sess pub out))
    (hc : s.db.commit sess = .ok s'.db)
    (hcl : s'.classes = s.classes ++ sess.attempt.toList.map fun a => (a, ctx.classOf a)) :
    Bounded s' sess.delivery := by
  obtain ⟨hopen, hdec⟩ := process_decided hv
  have hid := hdec.id_eq.1
  obtain ⟨hk, hlt⟩ : (s.db.tables.attemptsOf ctx.delivery.id).length = ctx.delivery.attemptCount ∧
      ctx.delivery.attemptCount < ctx.delivery.maxAttempts := by
    cases hb.stage with
    | running ho hk hlt => exact ⟨hk, hlt⟩
    | delivered hs | failed hs => simp [hs] at hopen
  have hstage := stage_process hdec hk hlt
  refine ⟨?_, ?_, ?_, ?_⟩
  · rw [hid]
    exact numbers_process hdec hc hb hk
  · rw [hid, retryables_process hdec hcl, counter_process hdec, hb.counted]
    simp
  · rw [hid, attemptsOf_processed hdec hc, if_pos rfl, List.length_append]
    exact hstage
  · intro l hl hlid
    rw [processed_tables hc] at hl
    rcases List.mem_append.mp hl with hold | hnew
    · rw [hid] at hlid
      -- a second dead letter would have been refused, so the delivery did not fail now
      have hnf : sess.delivery.status ≠ .failed := by
        intro hf
        obtain ⟨l', hl'⟩ := hdec.failed_iff.mp hf
        refine Db.commit_deadLetter_clash ⟨l', hl', l, hold, ?_⟩ hc
        exact hlid.trans (hdec.deadLetter_delivery hl').symm
      have hreason := hb.letter l hold hlid
      have hlt' : sess.delivery.attemptCount < sess.delivery.maxAttempts := by
        cases hstage with
        | running ho hk hlt => exact hlt
        | delivered hs hk hlt => exact hlt
        | failed hs => exact absurd hs hnf
      rw [hreason]
      omega
    · exact letter_reason hv (Option.mem_toList.mp hnew) hlt

end Process

/-- A row keeps its bounds when its attempts, their classes and the reason of its dead
letter stay. -/
theorem Bounded.frame {s s' : Classified} {d : Delivery} (h : Bounded s d)
    (ha : s'.db.tables.attemptsOf d.id = s.db.tables.attemptsOf d.id)
    (hr : s'.retryables d.id = s.retryables d.id)
    (hl : ∀ l' ∈ s'.db.tables.deadLetters, l'.deliveryId = d.id →
      ∃ l ∈ s.db.tables.deadLetters, l.deliveryId = d.id ∧ l.reason = l'.reason) :
    Bounded s' d where
  numbers := by
    rw [ha]
    exact h.numbers
  counted := hr ▸ h.counted
  stage := by
    rw [ha]
    exact h.stage
  letter := by
    intro l' hl' hid
    obtain ⟨l, hmem, hli, he⟩ := hl l' hl' hid
    rw [← he]
    exact h.letter l hmem hli

theorem bounded_process {settings : Settings} {s s' : Classified} {i : Uuid} {input : ProcessInput}
    {ctx : Context} {sess : Session} {pub : Option Message} {out : ProcessOutcome}
    (h : AllBounded s) (hctx : s.db.tables.fetchDeliveryContext i = some ctx)
    (hv : processDelivery settings ctx input = .ok (.commit sess pub out))
    (hc : s.db.commit sess = .ok s'.db)
    (hcl : s'.classes = s.classes ++ sess.attempt.toList.map fun a => (a, ctx.classOf a)) :
    AllBounded s' := by
  obtain ⟨hopen, hdec⟩ := process_decided hv
  obtain ⟨hmem, -⟩ := fetchContext_some hctx
  have hp : Processes settings s.db i input ctx sess pub := ⟨hctx, out, hv⟩
  refine ⟨?_, ?_⟩
  · rw [hcl, processed_attempts hc, List.map_append, h.logged, List.map_map]
    congr 1
    exact List.map_id _
  · intro d hd hmax hnr
    rw [processed_tables hc] at hnr
    rcases (processed_mem hp hc).mp hd with rfl | ⟨hold, hne⟩
    · rw [hdec.maxAttempts_eq] at hmax
      rw [hdec.id_eq.2] at hnr
      exact bounded_written (h.row ctx.delivery hmem hmax hnr) hv hc hcl
    · refine (h.row d hold hmax hnr).frame ?_ ?_ ?_
      · rw [attemptsOf_processed hdec hc, if_neg hne, List.append_nil]
      · simp [retryables_process hdec hcl, hne]
      · intro l hl hid
        rw [processed_tables hc] at hl
        rcases List.mem_append.mp hl with hin | hnew
        · exact ⟨l, hin, hid, rfl⟩
        · exact absurd (hid.symm.trans (hdec.deadLetter_delivery (Option.mem_toList.mp hnew))) hne

/-- What an operation other than an execution or a purge leaves: no attempt is recorded,
dead letters keep their reasons, and a delivery is as before, new or replayed. -/
structure QuietOp (t t' : Tables) : Prop where
  attempts : t'.attempts = t.attempts
  deliveries : ∀ d ∈ t'.deliveries, d ∈ t.deliveries ∨ Replayed t' d.publicId ∨
    (d.status = .pending ∧ d.attemptCount = 0 ∧ ∀ d₀ ∈ t.deliveries, d₀.id ≠ d.id)
  replayed : ∀ i, Replayed t i → Replayed t' i
  letters : t'.deadLetters.map (fun l => (l.deliveryId, l.reason)) =
    t.deadLetters.map fun l => (l.deliveryId, l.reason)

theorem QuietOp.refl (t : Tables) : QuietOp t t :=
  ⟨rfl, fun _ hd => .inl hd, fun _ h => h, rfl⟩

theorem quiet_accepted {db : Db} {partner : Partner} {endpoints : List PartnerEndpoint}
    {req : EnqueueRequest} {rows : List Delivery} {events : List OutboxEvent}
    (ha : Accepts db.tables partner endpoints req rows events) :
    QuietOp db.tables (db.tables.inserted rows events) := by
  refine ⟨rfl, ?_, fun _ h => h, rfl⟩
  intro d hd
  rcases List.mem_append.mp hd with hold | hnew
  · exact .inl hold
  · obtain ⟨e, -, publicId, hb⟩ := ha.built d hnew
    refine .inr (.inr ⟨by rw [hb]; rfl, by rw [hb]; rfl, ?_⟩)
    exact fun d₀ hd₀ => ha.id_ne hnew hd₀

theorem quiet_replayed {db : Db} {loaded : Delivery} {req : ReplayRequest} {s : ReplaySession}
    (hl : loaded ∈ db.tables.deliveries) (hr : Replays loaded req s) :
    QuietOp db.tables (db.commitReplay s).tables := by
  refine ⟨rfl, ?_, ?_, rfl⟩
  · intro d hd
    rcases (replayed_mem hl hr).mp hd with rfl | ⟨hold, -⟩
    · refine .inr (.inl ⟨s.audit, List.mem_append_right _ (List.mem_singleton_self _),
        hr.audit_action, ?_⟩)
      rw [hr.audit_resource, hr.delivery_eq]
    · exact .inl hold
  · rintro i ⟨a, ha, hai⟩
    exact ⟨a, List.mem_append_left _ ha, hai⟩

theorem quiet_acknowledge {db db' : Db} {id : Uuid} {now : Time} {sub : String}
    (h : db.acknowledgeDeadLetter id now sub = .ok db') : QuietOp db.tables db'.tables := by
  unfold Db.acknowledgeDeadLetter at h
  split at h
  · cases h
  split at h
  · cases h
  cases h
  refine ⟨rfl, fun d hd => .inl hd, ?_, Table.map_modify _ _ _ _ _ fun _ => rfl⟩
  rintro i ⟨a, ha, hai⟩
  exact ⟨a, List.mem_append_left _ ha, hai⟩

theorem quiet_apply (settings : Settings) (db : Db) {op : Op} (hpurge : op.isPurge = false)
    (hproc : ∀ i input, op ≠ .process i input) :
    QuietOp db.tables (db.apply settings op).tables := by
  cases op with
  | putPartner p | putEndpoint e => exact ⟨rfl, fun _ hd => .inl hd, fun _ h => h, rfl⟩
  | enqueue partner endpoints req =>
    simp only [Db.apply]
    cases h : db.acceptEvent partner endpoints req with
    | error e => exact .refl _
    | ok db' =>
      obtain ⟨rows, events, ha, ht⟩ := accept_ok h
      simp only [Db.orKeep, ht]
      exact quiet_accepted ha
  | process i input => exact absurd rfl (hproc i input)
  | replay i req =>
    simp only [Db.apply]
    cases h : replayDelivery (db.tables.fetchDeliveryWithPartner i) req with
    | error e => exact .refl _
    | ok s =>
      obtain ⟨loaded, partner, hrow, hr⟩ := replay_cases h
      exact quiet_replayed (fetchWithPartner_some hrow).1 hr
  | acknowledge id now sub =>
    simp only [Db.apply]
    cases h : db.acknowledgeDeadLetter id now sub with
    | error e => exact .refl _
    | ok db' => exact quiet_acknowledge h
  | purge id reason sub => cases hpurge

theorem bounded_quiet {s s' : Classified} (h : AllBounded s) (hq : QuietOp s.db.tables s'.db.tables)
    (hcl : s'.classes = s.classes) : AllBounded s' := by
  have hattempts : ∀ i, s'.db.tables.attemptsOf i = s.db.tables.attemptsOf i := by
    intro i
    rw [Tables.attemptsOf, hq.attempts, Tables.attemptsOf]
  have hretry : ∀ i, s'.retryables i = s.retryables i := by
    intro i
    rw [Classified.retryables, hcl, Classified.retryables]
  refine ⟨by rw [hcl, hq.attempts, h.logged], ?_⟩
  intro d hd hmax hnr
  rcases hq.deliveries d hd with hold | hrep | ⟨hpend, hzero, hfresh⟩
  · refine (h.row d hold hmax fun hrep => hnr (hq.replayed _ hrep)).frame (hattempts _) (hretry _) ?_
    intro l' hl' hid
    have hpair := hq.letters ▸ List.mem_map_of_mem hl'
    obtain ⟨l, hl, he⟩ := List.mem_map.mp hpair
    obtain ⟨hli, hre⟩ := Prod.mk.inj he
    exact ⟨l, hl, hli.trans hid, hre⟩
  · exact absurd hrep hnr
  · have hnil : s.db.tables.attemptsOf d.id = [] := by
      rw [Tables.attemptsOf, List.filter_eq_nil_iff]
      intro a ha
      obtain ⟨d₀, hd₀, hi⟩ := s.db.consistent.attempt_delivery a ha
      simpa [← hi] using hfresh d₀ hd₀
    have hnone : s.retryables d.id = 0 := by
      rw [Classified.retryables, List.countP_eq_zero]
      intro r hr
      have hin : r.1 ∈ s.db.tables.attempts := h.logged ▸ List.mem_map_of_mem hr
      obtain ⟨d₀, hd₀, hi⟩ := s.db.consistent.attempt_delivery r.1 hin
      have hne := hfresh d₀ hd₀
      simp [← hi, hne]
    refine ⟨by simp [hattempts, hnil], by rw [hretry, hnone, hzero], ?_, ?_⟩
    · rw [hattempts, hnil]
      exact .running (by rw [hpend]; decide) hzero.symm (by omega)
    · intro l hl hid
      have hpair := hq.letters ▸ List.mem_map_of_mem hl
      obtain ⟨l₀, hl₀, he⟩ := List.mem_map.mp hpair
      obtain ⟨d₀, hd₀, hi⟩ := s.db.consistent.deadLetter_delivery l₀ hl₀
      exact absurd (hi.trans ((Prod.mk.inj he).1.trans hid)) (hfresh d₀ hd₀)

theorem bounded_step {settings : Settings} {s s' : Classified} {op : Op} (h : AllBounded s)
    (hpurge : op.isPurge = false) (hs : s.step settings op = some s') : AllBounded s' := by
  obtain rfl := Option.some.inj hs
  cases op with
  | process i input =>
    rcases classified_cases settings s.db i input with ⟨hdb, hcl⟩ | ⟨ctx, sess, pub, out, hctx, hv, hc, hcl⟩
    · rw [hdb, hcl, List.append_nil]
      exact h
    · exact bounded_process h hctx hv hc (congrArg (s.classes ++ ·) hcl)
  | putPartner | putEndpoint | enqueue | replay | acknowledge | purge =>
    exact bounded_quiet h (quiet_apply settings s.db hpurge fun _ _ => by simp)
      (List.append_nil s.classes)

theorem bounded_init : AllBounded Classified.init := by
  constructor <;> simp [Classified.init, Db.empty]

theorem replayed_mono {settings : Settings} {db db' : Db} {op : Op}
    (hch : Change settings db op db') {i : Uuid} (h : Replayed db.tables i) :
    Replayed db'.tables i := by
  obtain ⟨a, ha, hai⟩ := h
  cases hch with
  | keep => exact ⟨a, ha, hai⟩
  | admin partners endpoints he | accepted _ he =>
    rw [he]
    exact ⟨a, ha, hai⟩
  | processed hp hc =>
    rw [processed_tables hc]
    exact ⟨a, ha, hai⟩
  | replayed hl hi hr => exact ⟨a, List.mem_append_left _ ha, hai⟩
  | deadLetter hw =>
    obtain ⟨b, -, haudit⟩ := hw.audit
    exact ⟨a, haudit ▸ List.mem_append_left _ ha, hai⟩

/-- A DELIVERED or FAILED delivery that is not replayed is left alone. -/
theorem closed_stays {settings : Settings} {db db' : Db} {op : Op}
    (hch : Change settings db op db') {d : Delivery} (hd : d ∈ db.tables.deliveries)
    (hclosed : ¬ d.status.Open) (hnr : ¬ Replayed db'.tables d.publicId) :
    d ∈ db'.tables.deliveries ∧ db'.tables.attemptsOf d.id = db.tables.attemptsOf d.id := by
  cases hch with
  | keep => exact ⟨hd, rfl⟩
  | admin partners endpoints he =>
    rw [he]
    exact ⟨hd, rfl⟩
  | accepted ha he =>
    rw [he]
    exact ⟨List.mem_append_left _ hd, rfl⟩
  | @processed i input ctx sess pub _ hp hc =>
    have hne : d.id ≠ ctx.delivery.id := by
      intro hid
      rw [Table.eq_of_unique db.consistent.delivery_id hd (fetchContext_some hp.found).1 hid]
        at hclosed
      exact hclosed hp.isOpen
    refine ⟨(processed_mem hp hc).mpr (.inr ⟨hd, hne⟩), ?_⟩
    rw [attemptsOf_processed hp.decided hc, if_neg hne, List.append_nil]
  | @replayed i req loaded sess hl hi hr =>
    have hne : d.id ≠ loaded.id := by
      intro hid
      obtain rfl := Table.eq_of_unique db.consistent.delivery_id hd hl hid
      exact hnr ⟨sess.audit, List.mem_append_right _ (List.mem_singleton_self _), hr.audit_action,
        hr.audit_resource⟩
    exact ⟨(replayed_mem hl hr).mpr (.inr ⟨hd, hne⟩), rfl⟩
  | deadLetter hw =>
    rw [hw.frame]
    exact ⟨hd, rfl⟩

theorem replayed_mono_run {settings : Settings} {s s' : Classified} {ops : List Op} {i : Uuid}
    (h : Replayed s.db.tables i) (hrun : exec (Classified.step settings) s ops = some s') :
    Replayed s'.db.tables i := by
  have hok : Along (Classified.step settings) (fun _ _ => True) s ops :=
    along_of_forall fun _ _ _ => trivial
  refine exec_invariant (fun s : Classified => Replayed s.db.tables i) ?_ h hok hrun
  intro t op t' ht _ hs
  obtain rfl := Option.some.inj hs
  exact replayed_mono (apply_change settings t.db op) ht

theorem closed_stays_run {settings : Settings} {s s' : Classified} {ops : List Op} {d : Delivery}
    (hrun : exec (Classified.step settings) s ops = some s') (hd : d ∈ s.db.tables.deliveries)
    (hclosed : ¬ d.status.Open) (hnr : ¬ Replayed s'.db.tables d.publicId) :
    s'.db.tables.attemptsOf d.id = s.db.tables.attemptsOf d.id := by
  induction ops generalizing s with
  | nil =>
    obtain rfl := Option.some.inj hrun
    rfl
  | cons op ops ih =>
    obtain ⟨t, hst, hrest⟩ := Option.bind_eq_some_iff.mp hrun
    have hnt : ¬ Replayed t.db.tables d.publicId := fun h => hnr (replayed_mono_run h hrest)
    obtain rfl := Option.some.inj hst
    obtain ⟨hmem, ha⟩ := closed_stays (apply_change settings s.db op) hd hclosed hnt
    exact (ih hrest hmem).trans ha

/-- In every sequence of executions and other operations that purges no dead letter, a
delivery that was never replayed and may be attempted at all has attempts numbered 1 to
`k`, at most its limit; its counter is the number of attempts classified retryable, below
the limit unless it FAILED; its dead letter says the attempts are exhausted exactly when
the counter reached the limit; and once it is DELIVERED or FAILED no row is added. -/
theorem attempts_bounded (settings : Settings) (before after : List Op) (s s' : Classified)
    (hpurge : ∀ op ∈ before, op.isPurge = false)
    (hs : exec (Classified.step settings) Classified.init before = some s)
    (hs' : exec (Classified.step settings) s after = some s') (d : Delivery)
    (hd : d ∈ s.db.tables.deliveries) (hmax : 1 ≤ d.maxAttempts)
    (hnr : ¬ Replayed s'.db.tables d.publicId) :
    s.classes.map Prod.fst = s.db.tables.attempts ∧
    (∃ k ≤ d.maxAttempts,
      (s.db.tables.attemptsOf d.id).map (·.attemptNumber) = List.range' 1 k) ∧
    d.attemptCount = s.retryables d.id ∧
    (d.status ≠ .failed → d.attemptCount < d.maxAttempts) ∧
    (∀ l ∈ s.db.tables.deadLetters, l.deliveryId = d.id →
      (l.reason = .maxAttemptsExceeded ↔ d.attemptCount = d.maxAttempts)) ∧
    (d.status = .delivered ∨ d.status = .failed →
      s'.db.tables.attemptsOf d.id = s.db.tables.attemptsOf d.id) := by
  have hok : Along (Classified.step settings) (fun _ op => op.isPurge = false) Classified.init before :=
    along_of_forall fun op hop _ => hpurge op hop
  have hall : AllBounded s :=
    exec_invariant AllBounded (fun _ _ _ h hp hst => bounded_step h hp hst) bounded_init hok hs
  have hb := hall.row d hd hmax fun h => hnr (replayed_mono_run h hs')
  have hrows : (s.db.tables.attemptsOf d.id).length ≤ d.maxAttempts := by
    cases hb.stage with
    | running ho hk hlt => omega
    | delivered hst hk hlt => omega
    | failed hst hk => exact hk
  have hbelow : d.status ≠ .failed → d.attemptCount < d.maxAttempts := by
    intro hnf
    cases hb.stage with
    | running ho hk hlt => exact hlt
    | delivered hst hk hlt => exact hlt
    | failed hst hk => exact absurd hst hnf
  refine ⟨hall.logged, ⟨_, hrows, hb.numbers⟩, hb.counted, hbelow, hb.letter, ?_⟩
  intro hterm
  refine closed_stays_run hs' hd ?_ hnr
  rcases hterm with he | he <;> simp [he]

/-- Four retryable answers and a fifth one: the attempts of the delivery are exhausted, and
a duplicate of its message adds nothing. -/
def exhaustedRun : List Op :=
  acceptedRun ++ [.process 10 (answer 1 503), .process 10 (answer 2 503), .process 10 (answer 3 503),
    .process 10 (answer 4 503), .process 10 (answer 5 503)]

theorem exhausted_delivery_bounded :
    ∃ s s' d, exec (Classified.step {}) Classified.init exhaustedRun = some s ∧
      exec (Classified.step {}) s [.process 10 (answer 6 200)] = some s' ∧
      d ∈ s.db.tables.deliveries ∧ d.status = .failed ∧
      s'.db.tables.attemptsOf d.id = s.db.tables.attemptsOf d.id ∧
      ∃ k ≤ d.maxAttempts,
        (s.db.tables.attemptsOf d.id).map (·.attemptNumber) = List.range' 1 k := by
  obtain ⟨s, hs, s', hs', d, hd, hf, hmax, hnr⟩ :
      ∃ s, exec (Classified.step {}) Classified.init exhaustedRun = some s ∧
        ∃ s', exec (Classified.step {}) s [.process 10 (answer 6 200)] = some s' ∧
        ∃ d ∈ s.db.tables.deliveries, d.status = .failed ∧ 1 ≤ d.maxAttempts ∧
          ¬ Replayed s'.db.tables d.publicId :=
    ⟨_, rfl, _, rfl, by decide +kernel⟩
  obtain ⟨-, hk, -, -, -, hstay⟩ := attempts_bounded {} exhaustedRun _ s s' (by decide) hs hs' d hd
    hmax hnr
  exact ⟨s, s', d, hs, hs', hd, hf, hstay (.inr hf), hk⟩

end PartnerHub.Outbound
