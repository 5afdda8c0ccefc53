import PartnerHub.Domain.Status

/-!
# Rows, envelopes and topics

The columns of `app/domain/models` that the modelled services read or write, and
the Kafka envelopes of `app/integrations/kafka_producer.py`. Timestamps are exact
rational seconds; a payload is its JSON text, which the hub stores and forwards
without looking inside. Texts that can only come from a valid encoding are `String`s; what
a partner answers is a `PyStr`.
-/
namespace PartnerHub.Domain

/-- Seconds since the epoch. -/
abbrev Time := ℚ

/-- A UUID, as its 128 bits. -/
abbrev Uuid := BitVec 128

/-- The 32 lower-case hexadecimal digits, most significant first. -/
def Uuid.hex (u : Uuid) : List Char :=
  (List.range 32).map fun i => Nat.digitChar (u.toNat / 16 ^ (31 - i) % 16)

/-- `str(uuid)`: the digits in groups of 8, 4, 4, 4 and 12. -/
def Uuid.text (u : Uuid) : String :=
  let digits := Uuid.hex u
  String.ofList (digits.take 8 ++ '-' :: (digits.drop 8).take 4 ++ '-' :: (digits.drop 12).take 4 ++
    '-' :: (digits.drop 16).take 4 ++ '-' :: digits.drop 20)

abbrev Secret := List UInt8

/-- A Python `str`: its code points, which may be lone surrogates. -/
structure PyStr where
  points : List (Fin 0x110000)
  deriving DecidableEq, Repr

def PyStr.ofString (text : String) : PyStr where
  points := text.toList.map fun c => ⟨c.toNat, c.valid.elim (·.trans (by decide)) And.right⟩

instance : Coe String PyStr := ⟨PyStr.ofString⟩

/-- PostgreSQL accepts the text: it can be encoded as UTF-8 and has no U+0000. -/
def Storable (text : PyStr) : Prop :=
  ∀ c ∈ text.points, c.val ≠ 0 ∧ ¬ (0xD800 ≤ c.val ∧ c.val ≤ 0xDFFF)

/-- By going through the text: an instance found by search would try all of `Fin 0x110000`. -/
instance (text : PyStr) : Decidable (Storable text) := List.decidableBAll _ _

structure Payload where
  text : String
  deriving DecidableEq, Repr

inductive RetryTier where
  | s30 | m1 | m5 | m15 | h1
  deriving DecidableEq, Repr

inductive Topic where
  | outboundPending
  | outboundRetry (tier : RetryTier)
  | outboundDlq
  | slaBreached
  | inbound (eventType : String)
  deriving DecidableEq, Repr

def Topic.name : Topic → String
  | .outboundPending => "hub.outbound.pending"
  | .outboundRetry .s30 => "hub.outbound.retry.30s"
  | .outboundRetry .m1 => "hub.outbound.retry.1m"
  | .outboundRetry .m5 => "hub.outbound.retry.5m"
  | .outboundRetry .m15 => "hub.outbound.retry.15m"
  | .outboundRetry .h1 => "hub.outbound.retry.1h"
  | .outboundDlq => "hub.outbound.dlq"
  | .slaBreached => "hub.integration.sla_breached"
  | .inbound eventType => "hub.inbound." ++ eventType

/-- `CONSUME_TOPICS` of the outbound worker: pending and the five retry tiers. -/
def Topic.consumed : Topic → Bool
  | .outboundPending => true
  | .outboundRetry _ => true
  | _ => false

structure Partner where
  id : Nat
  publicId : Uuid
  slug : String
  status : PartnerStatus
  slaSeconds : Nat
  rateLimitRps : Int
  autoReplayEnabled : Bool
  deriving DecidableEq, Repr

structure PartnerEndpoint where
  id : Uuid
  partnerId : Nat
  direction : EndpointDirection
  url : String
  eventTypes : List String
  status : EndpointStatus
  slaSeconds : Option Nat
  maxAttempts : Nat
  retryOnStatusCodes : List Nat
  deriving DecidableEq, Repr

structure PayloadSchema where
  id : Uuid
  eventType : String
  version : Nat
  jsonSchema : String
  status : PayloadSchemaStatus
  deriving DecidableEq, Repr

structure Delivery where
  id : Nat
  publicId : Uuid
  partnerId : Nat
  endpointId : Uuid
  eventType : String
  idempotencyKey : String
  payload : Payload
  status : DeliveryStatus
  attemptCount : Nat
  maxAttempts : Nat
  nextRetryAt : Option Time
  firstSuccessAt : Option Time
  slaDeadlineAt : Time
  slaBreached : Bool
  lastErrorCode : Option String
  lastErrorMessage : Option PyStr
  correlationId : String
  sourceEventId : Option String
  createdAt : Time
  deriving DecidableEq, Repr

structure DeliveryAttempt where
  deliveryId : Nat
  attemptNumber : Nat
  requestedAt : Time
  respondedAt : Time
  httpStatusCode : Option Nat
  responseBody : PyStr
  errorType : Option String
  durationMs : Nat
  deriving DecidableEq, Repr

structure DeadLetter where
  id : Uuid
  deliveryId : Nat
  partnerId : Nat
  reason : DeadLetterReason
  lastHttpStatus : Option Nat
  lastErrorMessage : PyStr
  acknowledgedAt : Option Time
  acknowledgedBy : Option String
  createdAt : Time
  deriving DecidableEq, Repr

structure ReplayApproval where
  id : Uuid
  deliveryId : Nat
  reason : String
  requestedBy : String
  approvedBy : Option String
  status : ReplayApprovalStatus
  deriving DecidableEq, Repr

inductive AuditAction where
  | deliveryReplay | dlqAck | dlqPurge | signingSecretRotate | replayApprove | replayReject
  deriving DecidableEq, Repr

structure AuditLog where
  actorId : String
  action : AuditAction
  resourceId : Uuid
  metadata : List (String × String)
  deriving DecidableEq, Repr

/-- `build_outbound_pending_envelope`; the retry envelope has the same fields. -/
structure OutboundEnvelope where
  deliveryId : Uuid
  partnerId : Uuid
  endpointId : Uuid
  eventType : String
  attempt : Nat
  payload : Payload
  idempotencyKey : String
  correlationId : String
  scheduledAt : Time
  slaDeadlineAt : Time
  deriving DecidableEq, Repr

/-- `build_dlq_envelope`. -/
structure DlqEnvelope where
  deliveryId : Uuid
  partnerId : Uuid
  endpointId : Uuid
  eventType : String
  attempt : Nat
  reason : DeadLetterReason
  correlationId : String
  deriving DecidableEq, Repr

/-- `build_sla_breached_envelope`. -/
structure SlaBreachedEnvelope where
  deliveryId : Uuid
  partnerId : Uuid
  eventType : String
  correlationId : String
  slaDeadlineAt : Time
  deriving DecidableEq, Repr

/-- `build_inbound_envelope`. -/
structure InboundEnvelope where
  eventId : Uuid
  partnerId : Uuid
  eventType : String
  payload : Payload
  idempotencyKey : String
  correlationId : String
  receivedAt : Time
  deriving DecidableEq, Repr

inductive Envelope where
  | outbound (e : OutboundEnvelope)
  | inbound (e : InboundEnvelope)
  | dlq (e : DlqEnvelope)
  | slaBreached (e : SlaBreachedEnvelope)
  deriving DecidableEq, Repr

/-- The `delivery_id` an envelope carries, if it carries one. -/
def Envelope.deliveryId : Envelope → Option Uuid
  | .outbound e => some e.deliveryId
  | .inbound _ => none
  | .dlq e => some e.deliveryId
  | .slaBreached e => some e.deliveryId

/-- A record sent with `send_and_wait`; the key is the partner's public id. -/
structure Message where
  topic : Topic
  key : Uuid
  value : Envelope
  deriving DecidableEq, Repr

inductive AggregateType where
  | delivery | inboundEvent
  deriving DecidableEq, Repr

structure OutboxEvent where
  id : Nat
  aggregateType : AggregateType
  aggregateId : Nat
  topic : Topic
  messageKey : Uuid
  payload : Envelope
  createdAt : Time
  publishedAt : Option Time
  publishAttempts : Nat
  deriving DecidableEq, Repr

/-- The record the relay sends for an outbox row. -/
def OutboxEvent.message (o : OutboxEvent) : Message :=
  { topic := o.topic, key := o.messageKey, value := o.payload }

structure InboundEvent where
  id : Uuid
  partnerId : Nat
  idempotencyKey : String
  eventType : String
  payload : Payload
  receivedAt : Time
  publishedAt : Option Time
  correlationId : String
  deriving DecidableEq, Repr

structure PartnerSigningSecret where
  id : Uuid
  partnerId : Nat
  secretEncrypted : Secret
  version : Nat
  status : SigningSecretStatus
  validFrom : Time
  validUntil : Option Time
  deriving DecidableEq, Repr

/-- The settings of `app/config.py` the modelled services read. -/
structure Settings where
  hubBackoffBaseSeconds : Nat := 30
  hubBackoffMultiplier : Nat := 2
  hubBackoffMaxSeconds : Nat := 3600
  hubSecretRotationOverlapHours : Nat := 24
  hubCircuitFailureThreshold : Nat := 10
  hubCircuitWindowSeconds : Nat := 60
  hubCircuitOpenSeconds : Nat := 300
  deriving DecidableEq, Repr

end PartnerHub.Domain
