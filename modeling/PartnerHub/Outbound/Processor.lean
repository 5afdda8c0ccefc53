import PartnerHub.Outbound.Store

/-!
# Processing one outbound message

`process_outbound_message` of `app/workers/outbound_processor.py`, from the row it
reads to what its session commits and which record it sends afterwards. What the
function learns from outside (the clock, the signing secret, the circuit breaker,
the partner's answer) is its input.
-/
namespace PartnerHub.Outbound

open PartnerHub.Domain PartnerHub.Lib

/-- The joined row `fetch_delivery_context` returns. -/
structure Context where
  delivery : Delivery
  partner : Partner
  endpoint : PartnerEndpoint
  deriving DecidableEq

/-- `fetch_delivery_context`: delivery, partner and endpoint by inner joins. -/
def Tables.fetchDeliveryContext (t : Tables) (deliveryPublicId : Uuid) : Option Context := do
  let delivery ← t.deliveries.find? (fun d => d.publicId = deliveryPublicId)
  let partner ← t.partners.find? (fun p => p.id = delivery.partnerId)
  let endpoint ← t.endpoints.find? (fun e => e.id = delivery.endpointId)
  return ⟨delivery, partner, endpoint⟩

inductive ProcessOutcome where
  | skipped | delivered | retryScheduled | dlq
  deriving DecidableEq, Repr

/-- Everything one execution learns from outside the database. -/
structure ProcessInput where
  now : Time
  signingSecret : Option Secret
  allowOutbound : Bool
  reply : HttpxReply
  durationMs : Nat
  respondedAt : Time
  deadLetterId : Uuid
  deadLetterAt : Time
  deriving DecidableEq

/-- What an execution decides: nothing to do, or a commit followed by at most one
record to send. -/
inductive Verdict where
  | skip
  | commit (session : Session) (publish : Option Message) (outcome : ProcessOutcome)
  deriving DecidableEq

/-- The retry record `publish_outbound_retry` sends. -/
def retryMessage (ctx : Context) (delivery : Delivery) (topic : Topic) (scheduledAt : Time)
    (attempt : Nat) : Message where
  topic := topic
  key := ctx.partner.publicId
  value := .outbound
    { deliveryId := delivery.publicId, partnerId := ctx.partner.publicId
      endpointId := delivery.endpointId, eventType := delivery.eventType, attempt := attempt
      payload := delivery.payload, idempotencyKey := delivery.idempotencyKey
      correlationId := delivery.correlationId, scheduledAt := scheduledAt
      slaDeadlineAt := delivery.slaDeadlineAt }

/-- The record `publish_outbound_dlq` sends. -/
def dlqMessage (ctx : Context) (delivery : Delivery) (reason : DeadLetterReason) : Message where
  topic := .outboundDlq
  key := ctx.partner.publicId
  value := .dlq
    { deliveryId := delivery.publicId, partnerId := ctx.partner.publicId
      endpointId := ctx.endpoint.id, eventType := delivery.eventType
      attempt := delivery.attemptCount + 1, reason := reason
      correlationId := delivery.correlationId }

/-- The record `publish_sla_breached` sends. -/
def slaBreachedMessage (ctx : Context) (delivery : Delivery) : Message where
  topic := .slaBreached
  key := ctx.partner.publicId
  value := .slaBreached
    { deliveryId := delivery.publicId, partnerId := ctx.partner.publicId
      eventType := delivery.eventType, correlationId := delivery.correlationId
      slaDeadlineAt := delivery.slaDeadlineAt }

/-- The common end of the circuit-open and the retryable branch: RETRYING is
committed, then the record goes to the retry topic of the next attempt. -/
def scheduleRetry (ctx : Context) (input : ProcessInput) (delivery : Delivery)
    (attempt : Option DeliveryAttempt) (delaySeconds : ℚ) : Except String Verdict := do
  let nextAttempt := delivery.attemptCount + 1
  let retryTopic := retryTopicFor nextAttempt delaySeconds
  let nextRetryAt := input.now + delaySeconds
  let status ← transition .delivering .retrying
  let delivery := { delivery with nextRetryAt := some nextRetryAt, status := status }
  return .commit { loaded := ctx.delivery, delivery := delivery, attempt := attempt }
    (some (retryMessage ctx delivery retryTopic nextRetryAt nextAttempt)) .retryScheduled

/-- `_mark_failed_dlq`: FAILED and the dead letter are committed together, then
the DLQ record is sent. -/
def markFailedDlq (ctx : Context) (input : ProcessInput) (delivery : Delivery)
    (attempt : Option DeliveryAttempt) (reason : DeadLetterReason)
    (lastHttpStatus : Option Nat) (lastErrorMessage : PyStr) : Except String Verdict := do
  let status ← transition .delivering .failed
  let delivery :=
    { delivery with status := status, lastErrorMessage := some (truncateResponseBody lastErrorMessage) }
  let deadLetter : DeadLetter :=
    { id := input.deadLetterId, deliveryId := delivery.id, partnerId := ctx.partner.id
      reason := reason, lastHttpStatus := lastHttpStatus
      lastErrorMessage := truncateResponseBody lastErrorMessage
      acknowledgedAt := none, acknowledgedBy := none, createdAt := input.deadLetterAt }
  return .commit
    { loaded := ctx.delivery, delivery := delivery, attempt := attempt, deadLetter := some deadLetter }
    (some (dlqMessage ctx delivery reason)) .dlq

/-- The success branch: DELIVERED with the SLA facts of the first success. -/
def markDelivered (ctx : Context) (input : ProcessInput) (attempt : DeliveryAttempt) :
    Except String Verdict := do
  let status ← transition .delivering .delivered
  let priorSlaBreached := ctx.delivery.slaBreached
  let (firstSuccessAt, slaBreached) := applyFirstSuccess input.now ctx.delivery.slaDeadlineAt
    ctx.delivery.firstSuccessAt ctx.delivery.slaBreached
  let delivery :=
    { ctx.delivery with
      status := status, firstSuccessAt := some firstSuccessAt, slaBreached := slaBreached
      lastErrorCode := none, lastErrorMessage := none }
  return .commit { loaded := ctx.delivery, delivery := delivery, attempt := some attempt }
    (if slaBreached && !priorSlaBreached then some (slaBreachedMessage ctx delivery) else none)
    .delivered

/-- `compute_delay_seconds` as the processor calls it, with `rng=lambda: 0.0`. -/
def backoffDelay (settings : Settings) (attemptNumber : Nat) : Except String ℚ :=
  computeDelaySeconds attemptNumber settings.hubBackoffBaseSeconds
    settings.hubBackoffMultiplier settings.hubBackoffMaxSeconds 0 (1 / 10)

def deferDelay (settings : Settings) (attemptCount : Nat) : Except String ℚ :=
  if attemptCount < 1 then .ok settings.hubBackoffBaseSeconds
  else backoffDelay settings attemptCount

/-- The circuit-open branch: the delivery is put back without an attempt. -/
def deferCircuitOpen (settings : Settings) (ctx : Context) (input : ProcessInput) :
    Except String Verdict := do
  let delaySeconds ← deferDelay settings ctx.delivery.attemptCount
  scheduleRetry ctx input ctx.delivery none delaySeconds

/-- The retryable branch: the counter is bumped first, then either a retry is
scheduled or the attempts are exhausted. -/
def recordRetryable (settings : Settings) (ctx : Context) (input : ProcessInput)
    (post : OutboundPostResult) (attempt : DeliveryAttempt) : Except String Verdict := do
  let errorType := post.errorType.getD ""
  let delivery : Delivery :=
    { ctx.delivery with
      attemptCount := ctx.delivery.attemptCount + 1
      lastErrorCode := some (orElseCode post.httpStatusCode (orElseText errorType "retry"))
      lastErrorMessage := some (truncateResponseBody
        (orElseStr post.responseBody (orElseText errorType "retryable failure"))) }
  if delivery.attemptCount < delivery.maxAttempts then
    let delaySeconds ← backoffDelay settings delivery.attemptCount
    scheduleRetry ctx input delivery (some attempt) delaySeconds
  else
    markFailedDlq ctx input delivery (some attempt) .maxAttemptsExceeded post.httpStatusCode
      (orElseStr (delivery.lastErrorMessage.getD "") "max attempts exceeded")

/-- The poison branch: no retry, the counter stays as it was. -/
def recordPoison (ctx : Context) (input : ProcessInput) (post : OutboundPostResult)
    (attempt : DeliveryAttempt) : Except String Verdict :=
  let errorMessage :=
    orElseStr post.responseBody (orElseText (post.errorType.getD "") "non-retryable")
  let delivery :=
    { ctx.delivery with
      lastErrorCode := some (orElseCode post.httpStatusCode "poison")
      lastErrorMessage := some (truncateResponseBody errorMessage) }
  markFailedDlq ctx input delivery (some attempt) .nonRetryableError post.httpStatusCode
    (truncateResponseBody errorMessage)

/-- The attempt row inserted after the POST; its number is one above the counter
that was read. -/
def attemptRow (ctx : Context) (input : ProcessInput) (post : OutboundPostResult) :
    DeliveryAttempt where
  deliveryId := ctx.delivery.id
  attemptNumber := ctx.delivery.attemptCount + 1
  requestedAt := input.now
  respondedAt := input.respondedAt
  httpStatusCode := post.httpStatusCode
  responseBody := truncateResponseBody post.responseBody
  errorType := post.errorType
  durationMs := post.durationMs

/-- `process_outbound_message` after the row has been read. -/
def processDelivery (settings : Settings) (ctx : Context) (input : ProcessInput) :
    Except String Verdict :=
  if ctx.delivery.status = .delivered ∨ ctx.delivery.status = .failed then .ok .skip
  else if ctx.delivery.status ∉ deliveringSources then .ok .skip
  else do
    let _delivering ← transition ctx.delivery.status .delivering
    match input.signingSecret with
    | none =>
      markFailedDlq ctx input ctx.delivery none .nonRetryableError none "missing signing secret"
    | some _ =>
      if !input.allowOutbound then deferCircuitOpen settings ctx input
      else
        let post ← postOutbound input.reply input.durationMs
        let attempt := attemptRow ctx input post
        match classifyHttpOutcome post.httpStatusCode ctx.endpoint.retryOnStatusCodes
            (networkErrorFromResult post.errorType) with
        | .success => markDelivered ctx input attempt
        | .poison => recordPoison ctx input post attempt
        | .retryable => recordRetryable settings ctx input post attempt

/-- The class the partner's answer recorded in an attempt falls into. -/
def Context.classOf (ctx : Context) (a : DeliveryAttempt) : ResponseClassification :=
  classifyHttpOutcome a.httpStatusCode ctx.endpoint.retryOnStatusCodes
    (networkErrorFromResult a.errorType)

/-- The attempt belongs to the delivery read and numbers one above its counter. -/
structure Context.Numbers (ctx : Context) (a : DeliveryAttempt) : Prop where
  delivery : a.deliveryId = ctx.delivery.id
  number : a.attemptNumber = ctx.delivery.attemptCount + 1

/-- Everything an execution that commits can do: the six ways out of
`process_outbound_message`, with what each writes and sends. Only the texts and
times that no property reads are left free. -/
inductive Decided (ctx : Context) (input : ProcessInput) : Session → Option Message → Prop
  | missingSecret {d : Delivery} {l : DeadLetter} {message : Option PyStr}
      (hsecret : input.signingSecret = none)
      (hd : d = { ctx.delivery with status := .failed, lastErrorMessage := message })
      (hl : l.deliveryId = ctx.delivery.id) (hp : l.partnerId = ctx.partner.id) :
      Decided ctx input { loaded := ctx.delivery, delivery := d, deadLetter := some l }
        (some (dlqMessage ctx d .nonRetryableError))
  | circuitOpen {d : Delivery} {topic : Topic} {due : Time} {n : Nat}
      (hd : d = { ctx.delivery with status := .retrying, nextRetryAt := some due })
      (ht : topic.consumed = true) :
      Decided ctx input { loaded := ctx.delivery, delivery := d }
        (some (retryMessage ctx d topic due n))
  | success {d : Delivery} {a : DeliveryAttempt} {firstSuccessAt : Time} {breached : Bool}
      (hn : ctx.Numbers a) (hc : ctx.classOf a = .success) (hat : a.requestedAt = input.now)
      (hf : applyFirstSuccess input.now ctx.delivery.slaDeadlineAt ctx.delivery.firstSuccessAt
        ctx.delivery.slaBreached = (firstSuccessAt, breached))
      (hd : d = { ctx.delivery with
        status := .delivered, firstSuccessAt := some firstSuccessAt, slaBreached := breached
        lastErrorCode := none, lastErrorMessage := none }) :
      Decided ctx input { loaded := ctx.delivery, delivery := d, attempt := some a }
        (if breached && !ctx.delivery.slaBreached then some (slaBreachedMessage ctx d) else none)
  | poison {d : Delivery} {a : DeliveryAttempt} {l : DeadLetter} {code : Option String}
      {message : Option PyStr}
      (hn : ctx.Numbers a) (hc : ctx.classOf a = .poison)
      (hd : d = { ctx.delivery with
        status := .failed, lastErrorCode := code, lastErrorMessage := message })
      (hl : l.deliveryId = ctx.delivery.id) (hp : l.partnerId = ctx.partner.id) :
      Decided ctx input
        { loaded := ctx.delivery, delivery := d, attempt := some a, deadLetter := some l }
        (some (dlqMessage ctx d .nonRetryableError))
  | retry {d : Delivery} {a : DeliveryAttempt} {topic : Topic} {due : Time} {n : Nat}
      {code : Option String} {message : Option PyStr}
      (hn : ctx.Numbers a) (hc : ctx.classOf a = .retryable)
      (hlt : ctx.delivery.attemptCount + 1 < ctx.delivery.maxAttempts)
      (hd : d = { ctx.delivery with
        status := .retrying, attemptCount := ctx.delivery.attemptCount + 1
        nextRetryAt := some due, lastErrorCode := code, lastErrorMessage := message })
      (ht : topic.consumed = true) :
      Decided ctx input { loaded := ctx.delivery, delivery := d, attempt := some a }
        (some (retryMessage ctx d topic due n))
  | exhausted {d : Delivery} {a : DeliveryAttempt} {l : DeadLetter} {code : Option String}
      {message : Option PyStr}
      (hn : ctx.Numbers a) (hc : ctx.classOf a = .retryable)
      (hge : ctx.delivery.maxAttempts ≤ ctx.delivery.attemptCount + 1)
      (hd : d = { ctx.delivery with
        status := .failed, attemptCount := ctx.delivery.attemptCount + 1
        lastErrorCode := code, lastErrorMessage := message })
      (hl : l.deliveryId = ctx.delivery.id) (hp : l.partnerId = ctx.partner.id) :
      Decided ctx input
        { loaded := ctx.delivery, delivery := d, attempt := some a, deadLetter := some l }
        (some (dlqMessage ctx d .maxAttemptsExceeded))

theorem Decided.loaded_eq {ctx : Context} {input : ProcessInput} {s : Session}
    {pub : Option Message} (h : Decided ctx input s pub) : s.loaded = ctx.delivery := by
  cases h <;> rfl

/-- Every decision changes columns of the UPDATE only. -/
theorem Decided.flush_current {ctx : Context} {input : ProcessInput} {s : Session}
    {pub : Option Message} (h : Decided ctx input s pub) :
    flushDelivery ctx.delivery s.delivery ctx.delivery = s.delivery := by
  cases h with
  | missingSecret hsecret hd | circuitOpen hd | success hn hc hat hf hd | poison hn hc hd
  | retry hn hc hlt hd | exhausted hn hc hge hd => simp [flushDelivery, hd]

theorem Decided.id_eq {ctx : Context} {input : ProcessInput} {s : Session}
    {pub : Option Message} (h : Decided ctx input s pub) :
    s.delivery.id = ctx.delivery.id ∧ s.delivery.publicId = ctx.delivery.publicId := by
  rw [← h.flush_current]
  exact ⟨rfl, rfl⟩

theorem Decided.deadline_eq {ctx : Context} {input : ProcessInput} {s : Session}
    {pub : Option Message} (h : Decided ctx input s pub) :
    s.delivery.slaDeadlineAt = ctx.delivery.slaDeadlineAt := by
  rw [← h.flush_current]
  rfl

theorem Decided.numbers {ctx : Context} {input : ProcessInput} {s : Session}
    {pub : Option Message} (h : Decided ctx input s pub) {a : DeliveryAttempt}
    (ha : s.attempt = some a) : ctx.Numbers a := by
  cases h with
  | missingSecret | circuitOpen => cases ha
  | success hn | poison hn | retry hn | exhausted hn =>
    cases ha
    exact hn

theorem Decided.deadLetter_delivery {ctx : Context} {input : ProcessInput} {s : Session}
    {pub : Option Message} (h : Decided ctx input s pub) {l : DeadLetter}
    (hl : s.deadLetter = some l) : l.deliveryId = ctx.delivery.id := by
  cases h with
  | success | circuitOpen | retry => cases hl
  | missingSecret hsecret hd he | poison hn hc hd he | exhausted hn hc hge hd he =>
    cases hl
    exact he

/-- The rows a session adds refer to the delivery it read. -/
theorem Decided.references {ctx : Context} {input : ProcessInput} {s : Session}
    {pub : Option Message} (h : Decided ctx input s pub) {t : Tables}
    (hmem : ctx.delivery ∈ t.deliveries) : s.References t :=
  ⟨fun _ ha => ⟨ctx.delivery, hmem, (h.numbers ha).delivery.symm⟩,
    fun _ hl => ⟨ctx.delivery, hmem, (h.deadLetter_delivery hl).symm⟩⟩

/-- A dead letter is written exactly with FAILED. -/
theorem Decided.failed_iff {ctx : Context} {input : ProcessInput} {s : Session}
    {pub : Option Message} (h : Decided ctx input s pub) :
    s.delivery.status = .failed ↔ ∃ l, s.deadLetter = some l := by
  cases h with
  | missingSecret hsecret hd | poison hn hc hd | exhausted hn hc hge hd => simp [hd]
  | circuitOpen hd | success hn hc hat hf hd | retry hn hc hlt hd => simp [hd]

theorem Decided.status_cases {ctx : Context} {input : ProcessInput} {s : Session}
    {pub : Option Message} (h : Decided ctx input s pub) :
    s.delivery.status = .delivered ∨ s.delivery.status = .retrying ∨
      s.delivery.status = .failed := by
  cases h with
  | missingSecret hsecret hd | circuitOpen hd | success hn hc hat hf hd | poison hn hc hd
  | retry hn hc hlt hd | exhausted hn hc hge hd => simp [hd]

/-- A delivery that stays open has a record to send to a topic the worker consumes. -/
theorem Decided.open_record {ctx : Context} {input : ProcessInput} {s : Session}
    {pub : Option Message} (h : Decided ctx input s pub) (ho : s.delivery.status.Open) :
    ∃ m, pub = some m ∧ m.topic.consumed = true := by
  cases h with
  | circuitOpen hd ht | retry hn hc hlt hd ht => exact ⟨_, rfl, ht⟩
  | missingSecret hsecret hd | success hn hc hat hf hd | poison hn hc hd | exhausted hn hc hge hd =>
    simp [hd] at ho

/-- A failure has a DLQ record to send. -/
theorem Decided.failed_record {ctx : Context} {input : ProcessInput} {s : Session}
    {pub : Option Message} (h : Decided ctx input s pub) (hf : s.delivery.status = .failed) :
    ∃ m, pub = some m ∧ m.topic = .outboundDlq ∧
      m.value.deliveryId = some ctx.delivery.publicId := by
  rw [← h.id_eq.2]
  cases h with
  | missingSecret hsecret hd | poison hn hc hd | exhausted hn hc hge hd =>
    exact ⟨_, rfl, rfl, rfl⟩
  | circuitOpen hd | success hn hc hat hf' hd | retry hn hc hlt hd => simp [hd] at hf

/-- A flag that is set has an SLA record to send. -/
theorem Decided.breach_record {ctx : Context} {input : ProcessInput} {s : Session}
    {pub : Option Message} (h : Decided ctx input s pub)
    (hb : s.delivery.slaBreached ≠ ctx.delivery.slaBreached) :
    ∃ m, pub = some m ∧ m.topic = .slaBreached ∧
      m.value.deliveryId = some ctx.delivery.publicId := by
  rw [← h.id_eq.2]
  cases h with
  | missingSecret hsecret hd | circuitOpen hd | poison hn hc hd | retry hn hc hlt hd
  | exhausted hn hc hge hd => simp [hd] at hb
  | @success d a firstSuccessAt breached hn hc hat hf hd =>
    have hflip : (breached && !ctx.delivery.slaBreached) = true := by
      simp only [hd] at hb
      cases hfs : ctx.delivery.firstSuccessAt with
      | some t =>
        simp only [applyFirstSuccess, hfs, Prod.mk.injEq] at hf
        exact absurd hf.2.symm hb
      | none =>
        simp only [applyFirstSuccess, hfs, Prod.mk.injEq] at hf
        cases hold : ctx.delivery.slaBreached <;> cases breached <;> simp_all
    exact ⟨_, by rw [if_pos hflip], rfl, rfl⟩

/-- The counter is kept, or goes up by one together with a recorded attempt. -/
theorem Decided.counter_cases {ctx : Context} {input : ProcessInput} {s : Session}
    {pub : Option Message} (h : Decided ctx input s pub) :
    s.delivery.attemptCount = ctx.delivery.attemptCount ∨
      (s.delivery.attemptCount = ctx.delivery.attemptCount + 1 ∧ s.attempt ≠ none) := by
  cases h with
  | missingSecret hsecret hd | circuitOpen hd | success hn hc hat hf hd | poison hn hc hd
  | retry hn hc hlt hd | exhausted hn hc hge hd => simp [hd]

/-- Without an attempt the delivery is put back or fails for its missing secret. -/
theorem Decided.without_attempt {ctx : Context} {input : ProcessInput} {s : Session}
    {pub : Option Message} (h : Decided ctx input s pub) (ha : s.attempt = none) :
    s.delivery.status = .retrying ∨ s.deadLetter ≠ none := by
  cases h with
  | missingSecret hsecret hd | circuitOpen hd => simp [hd]
  | success | poison | retry | exhausted => cases ha

/-- The counter never goes down. -/
theorem Decided.counter_le {ctx : Context} {input : ProcessInput} {s : Session}
    {pub : Option Message} (h : Decided ctx input s pub) :
    ctx.delivery.attemptCount ≤ s.delivery.attemptCount := by
  rcases h.counter_cases with he | ⟨he, -⟩ <;> omega

/-- An attempt recorded while the delivery stays open is covered by the counter. -/
theorem Decided.number_lt {ctx : Context} {input : ProcessInput} {s : Session}
    {pub : Option Message} (h : Decided ctx input s pub) (ho : s.delivery.status.Open)
    {a : DeliveryAttempt} (ha : s.attempt = some a) :
    a.attemptNumber < s.delivery.attemptCount + 1 := by
  have hn := h.numbers ha
  cases h with
  | missingSecret hsecret hd | circuitOpen hd => cases ha
  | success hn' hc hat hf hd | poison hn' hc hd | exhausted hn' hc hge hd => simp [hd] at ho
  | retry hn' hc hlt hd =>
    rw [hd, hn.number]
    exact Nat.lt_succ_self _

theorem scheduleRetry_eq {ctx : Context} {input : ProcessInput} {d : Delivery}
    {a : Option DeliveryAttempt} {delay : ℚ} {v : Verdict}
    (h : scheduleRetry ctx input d a delay = .ok v) :
    ∃ d', d' = { d with status := .retrying, nextRetryAt := some (input.now + delay) } ∧
      v = .commit { loaded := ctx.delivery, delivery := d', attempt := a }
        (some (retryMessage ctx d' (retryTopicFor (d.attemptCount + 1) delay)
          (input.now + delay) (d.attemptCount + 1))) .retryScheduled :=
  ⟨_, rfl, (Except.ok.inj h).symm⟩

theorem markFailedDlq_eq {ctx : Context} {input : ProcessInput} {d : Delivery}
    {a : Option DeliveryAttempt} {reason : DeadLetterReason} {code : Option Nat} {text : PyStr}
    {v : Verdict} (h : markFailedDlq ctx input d a reason code text = .ok v) :
    ∃ d' l, d' = { d with
        status := .failed, lastErrorMessage := some (truncateResponseBody text) } ∧
      l.deliveryId = d.id ∧ l.partnerId = ctx.partner.id ∧
      v = .commit { loaded := ctx.delivery, delivery := d', attempt := a, deadLetter := some l }
        (some (dlqMessage ctx d' reason)) .dlq :=
  ⟨_, _, rfl, rfl, rfl, (Except.ok.inj h).symm⟩

theorem bind_ok {α β : Type} {x : Except String α} {f : α → Except String β} {b : β}
    (h : (x >>= f) = .ok b) : ∃ a, x = .ok a ∧ f a = .ok b := by
  cases x with
  | error e => cases h
  | ok a => exact ⟨a, rfl, h⟩

/-- The verdict is a commit that is one of the six decisions, with the outcome `dlq`
exactly for those that went through `_mark_failed_dlq`. -/
def Verdict.Commits (ctx : Context) (input : ProcessInput) (v : Verdict) : Prop :=
  ∃ s pub out, v = .commit s pub out ∧ Decided ctx input s pub ∧
    (out = .dlq ↔ s.delivery.status = .failed)

private theorem retryable_commits {settings : Settings} {ctx : Context} {input : ProcessInput}
    {post : OutboundPostResult} {v : Verdict}
    (hc : ctx.classOf (attemptRow ctx input post) = .retryable)
    (h : recordRetryable settings ctx input post (attemptRow ctx input post) = .ok v) :
    v.Commits ctx input := by
  unfold recordRetryable at h
  simp only at h
  split at h
  · rename_i hlt
    obtain ⟨delay, -, h⟩ := bind_ok h
    obtain ⟨d, rfl, hv⟩ := scheduleRetry_eq h
    exact ⟨_, _, _, hv, .retry ⟨rfl, rfl⟩ hc hlt rfl (retryTopicFor_consumed _ _), by simp⟩
  · rename_i hlt
    obtain ⟨d, l, rfl, hl, hp, hv⟩ := markFailedDlq_eq h
    exact ⟨_, _, _, hv, .exhausted ⟨rfl, rfl⟩ hc (not_lt.mp hlt) rfl hl hp, by simp⟩

/-- The branches of `process_outbound_message` for an open delivery. -/
inductive Branch (settings : Settings) (ctx : Context) (input : ProcessInput) (v : Verdict) : Prop
  | missingSecret (hsecret : input.signingSecret = none)
      (h : markFailedDlq ctx input ctx.delivery none .nonRetryableError none
        "missing signing secret" = .ok v)
  | deferred {delay : ℚ} (h : scheduleRetry ctx input ctx.delivery none delay = .ok v)
  | delivered {post : OutboundPostResult}
      (hpost : postOutbound input.reply input.durationMs = .ok post)
      (hc : ctx.classOf (attemptRow ctx input post) = .success)
      (h : markDelivered ctx input (attemptRow ctx input post) = .ok v)
  | poison {post : OutboundPostResult}
      (hpost : postOutbound input.reply input.durationMs = .ok post)
      (hc : ctx.classOf (attemptRow ctx input post) = .poison)
      (h : recordPoison ctx input post (attemptRow ctx input post) = .ok v)
  | retryable {post : OutboundPostResult}
      (hpost : postOutbound input.reply input.durationMs = .ok post)
      (hc : ctx.classOf (attemptRow ctx input post) = .retryable)
      (h : recordRetryable settings ctx input post (attemptRow ctx input post) = .ok v)

/-- The inversion of `process_outbound_message`: a delivery that is not open is
skipped, and an open one ends in one of the branches. -/
theorem process_branches {settings : Settings} {ctx : Context} {input : ProcessInput}
    {v : Verdict} (h : processDelivery settings ctx input = .ok v) :
    (¬ ctx.delivery.status.Open ∧ v = .skip) ∨
      (ctx.delivery.status.Open ∧ Branch settings ctx input v) := by
  unfold processDelivery at h
  split at h
  · rename_i hterm
    refine .inl ⟨?_, (Except.ok.inj h).symm⟩
    rcases hterm with he | he <;> rw [he] <;> decide
  split at h
  · rename_i hclosed
    exact .inl ⟨hclosed, (Except.ok.inj h).symm⟩
  rename_i hopen
  refine .inr ⟨not_not.mp hopen, ?_⟩
  obtain ⟨_, -, h⟩ := bind_ok h
  cases hsec : input.signingSecret with
  | none =>
    simp only [hsec] at h
    exact .missingSecret hsec h
  | some key =>
    simp only [hsec] at h
    split at h
    · unfold deferCircuitOpen at h
      obtain ⟨delay, -, h⟩ := bind_ok h
      exact .deferred h
    · obtain ⟨post, hpost, h⟩ := bind_ok h
      split at h
      · exact .delivered hpost ‹_› h
      · exact .poison hpost ‹_› h
      · exact .retryable hpost ‹_› h

/-- A delivery that is not open is skipped, and an open one leads to one of the six
decisions. -/
theorem process_cases {settings : Settings} {ctx : Context} {input : ProcessInput} {v : Verdict}
    (h : processDelivery settings ctx input = .ok v) :
    (¬ ctx.delivery.status.Open ∧ v = .skip) ∨
      (ctx.delivery.status.Open ∧ v.Commits ctx input) := by
  refine (process_branches h).imp_right ?_
  rintro ⟨ho, hb⟩
  refine ⟨ho, ?_⟩
  cases hb with
  | missingSecret hsec h =>
    obtain ⟨d, l, rfl, hl, hp, hv⟩ := markFailedDlq_eq h
    exact ⟨_, _, _, hv, .missingSecret hsec rfl hl hp, by simp⟩
  | deferred h =>
    obtain ⟨d, rfl, hv⟩ := scheduleRetry_eq h
    exact ⟨_, _, _, hv, .circuitOpen rfl (retryTopicFor_consumed _ _), by simp⟩
  | delivered hpost hc h =>
    exact ⟨_, _, _, (Except.ok.inj h).symm, .success ⟨rfl, rfl⟩ hc rfl rfl rfl, by simp⟩
  | poison hpost hc h =>
    obtain ⟨d, l, rfl, hl, hp, hv⟩ := markFailedDlq_eq h
    exact ⟨_, _, _, hv, .poison ⟨rfl, rfl⟩ hc rfl hl hp, by simp⟩
  | retryable hpost hc h => exact retryable_commits hc h

theorem process_decided {settings : Settings} {ctx : Context} {input : ProcessInput}
    {s : Session} {pub : Option Message} {out : ProcessOutcome}
    (h : processDelivery settings ctx input = .ok (.commit s pub out)) :
    ctx.delivery.status.Open ∧ Decided ctx input s pub := by
  rcases process_cases h with ⟨-, hv⟩ | ⟨ho, s', pub', out', hv, hd, -⟩
  · cases hv
  · cases hv
    exact ⟨ho, hd⟩

/-- The attempt row a verdict adds. -/
def Verdict.attempt : Verdict → Option DeliveryAttempt
  | .skip => none
  | .commit s _ _ => s.attempt

theorem scheduleRetry_attempt {ctx : Context} {input : ProcessInput} {d : Delivery}
    {a : Option DeliveryAttempt} {delay : ℚ} {v : Verdict}
    (h : scheduleRetry ctx input d a delay = .ok v) : v.attempt = a := by
  obtain ⟨d', -, rfl⟩ := scheduleRetry_eq h
  rfl

theorem markFailedDlq_attempt {ctx : Context} {input : ProcessInput} {d : Delivery}
    {a : Option DeliveryAttempt} {reason : DeadLetterReason} {code : Option Nat} {text : PyStr}
    {v : Verdict} (h : markFailedDlq ctx input d a reason code text = .ok v) : v.attempt = a := by
  obtain ⟨d', l, -, -, -, rfl⟩ := markFailedDlq_eq h
  rfl

/-- An attempt row records what `post_outbound` returned. -/
theorem process_attempt {settings : Settings} {ctx : Context} {input : ProcessInput}
    {v : Verdict} (h : processDelivery settings ctx input = .ok v) {a : DeliveryAttempt}
    (ha : v.attempt = some a) : ∃ post, postOutbound input.reply input.durationMs = .ok post ∧
      a = attemptRow ctx input post := by
  rcases process_branches h with ⟨-, rfl⟩ | ⟨-, hb⟩
  · cases ha
  cases hb with
  | missingSecret hsec h =>
    rw [markFailedDlq_attempt h] at ha
    cases ha
  | deferred h =>
    rw [scheduleRetry_attempt h] at ha
    cases ha
  | @delivered post hpost hc h =>
    obtain rfl := Except.ok.inj h
    exact ⟨post, hpost, (Option.some.inj ha).symm⟩
  | @poison post hpost hc h =>
    rw [recordPoison] at h
    rw [markFailedDlq_attempt h] at ha
    exact ⟨post, hpost, (Option.some.inj ha).symm⟩
  | @retryable post hpost hc h =>
    refine ⟨post, hpost, ?_⟩
    unfold recordRetryable at h
    simp only at h
    split at h
    · obtain ⟨delay, -, h⟩ := bind_ok h
      rw [scheduleRetry_attempt h] at ha
      exact (Option.some.inj ha).symm
    · rw [markFailedDlq_attempt h] at ha
      exact (Option.some.inj ha).symm

/-- The DLQ record a commit with a dead letter sends has the reason of the dead letter. -/
def Verdict.LetterSent (ctx : Context) : Verdict → Prop
  | .skip => True
  | .commit s pub _ => ∀ l, s.deadLetter = some l → pub = some (dlqMessage ctx s.delivery l.reason)

theorem markFailedDlq_letter {ctx : Context} {input : ProcessInput} {d : Delivery}
    {a : Option DeliveryAttempt} {reason : DeadLetterReason} {code : Option Nat} {text : PyStr}
    {v : Verdict} (h : markFailedDlq ctx input d a reason code text = .ok v) :
    v.LetterSent ctx := by
  obtain rfl := Except.ok.inj h
  intro l hl
  obtain rfl := Option.some.inj hl
  rfl

theorem scheduleRetry_letter {ctx : Context} {input : ProcessInput} {d : Delivery}
    {a : Option DeliveryAttempt} {delay : ℚ} {v : Verdict}
    (h : scheduleRetry ctx input d a delay = .ok v) : v.LetterSent ctx := by
  obtain ⟨d', -, rfl⟩ := scheduleRetry_eq h
  intro l hl
  cases hl

theorem process_letter {settings : Settings} {ctx : Context} {input : ProcessInput} {v : Verdict}
    (h : processDelivery settings ctx input = .ok v) : v.LetterSent ctx := by
  rcases process_branches h with ⟨-, rfl⟩ | ⟨-, hb⟩
  · trivial
  cases hb with
  | missingSecret hsec h => exact markFailedDlq_letter h
  | deferred h => exact scheduleRetry_letter h
  | delivered hpost hc h =>
    obtain rfl := Except.ok.inj h
    intro l hl
    cases hl
  | poison hpost hc h => exact markFailedDlq_letter h
  | retryable hpost hc h =>
    unfold recordRetryable at h
    simp only at h
    split at h
    · obtain ⟨delay, -, h⟩ := bind_ok h
      exact scheduleRetry_letter h
    · exact markFailedDlq_letter h

theorem process_dlq_iff {settings : Settings} {ctx : Context} {input : ProcessInput}
    {s : Session} {pub : Option Message} {out : ProcessOutcome}
    (h : processDelivery settings ctx input = .ok (.commit s pub out)) :
    out = .dlq ↔ s.delivery.status = .failed := by
  rcases process_cases h with ⟨-, hv⟩ | ⟨-, s', pub', out', hv, -, hiff⟩
  · cases hv
  · cases hv
    exact hiff

theorem process_skip {settings : Settings} {ctx : Context} {input : ProcessInput}
    (h : processDelivery settings ctx input = .ok .skip) : ¬ ctx.delivery.status.Open := by
  rcases process_cases h with ⟨hc, -⟩ | ⟨-, s, pub, out, hv, -⟩
  · exact hc
  · cases hv

end PartnerHub.Outbound
