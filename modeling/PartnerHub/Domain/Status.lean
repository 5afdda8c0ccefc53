import Mathlib

/-!
# Delivery statuses and the status machine

The enumerations of `app/domain/enums.py` that the delivery pipeline reads, and
`app/domain/services/status_machine.py`. A transition outside the table raises,
with the message the source builds.
-/
namespace PartnerHub.Domain

inductive DeliveryStatus where
  | pending | delivering | delivered | retrying | failed | replaying
  deriving DecidableEq, Repr

def DeliveryStatus.value : DeliveryStatus → String
  | .pending => "pending"
  | .delivering => "delivering"
  | .delivered => "delivered"
  | .retrying => "retrying"
  | .failed => "failed"
  | .replaying => "replaying"

inductive PartnerStatus where
  | active | suspended | provisioning
  deriving DecidableEq, Repr

inductive EndpointDirection where
  | outbound | inbound
  deriving DecidableEq, Repr

inductive EndpointStatus where
  | active | paused | disabled
  deriving DecidableEq, Repr

inductive DeadLetterReason where
  | maxAttemptsExceeded | nonRetryableError | manualPurge
  deriving DecidableEq, Repr

inductive SigningSecretStatus where
  | primary | previous | revoked
  deriving DecidableEq, Repr

inductive PayloadSchemaStatus where
  | active | deprecated
  deriving DecidableEq, Repr

inductive ReplayApprovalStatus where
  | pending | approved | rejected
  deriving DecidableEq, Repr

def ReplayApprovalStatus.value : ReplayApprovalStatus → String
  | .pending => "pending"
  | .approved => "approved"
  | .rejected => "rejected"

/-- `CircuitState` of `circuit_breaker.py`; `opened` is OPEN. -/
inductive CircuitState where
  | closed | opened | halfOpen
  deriving DecidableEq, Repr

/-- `_VALID_TRANSITIONS`, in the order of the source. -/
def validTransitions : List (DeliveryStatus × DeliveryStatus) :=
  [(.pending, .delivering), (.delivering, .delivered), (.delivering, .retrying),
    (.delivering, .failed), (.retrying, .delivering), (.failed, .replaying),
    (.replaying, .delivering), (.replaying, .delivered), (.replaying, .failed)]

def canTransition (src dst : DeliveryStatus) : Bool :=
  validTransitions.contains (src, dst)

/-- The target status, or the message of the `ValueError` the source raises. -/
def transition (src dst : DeliveryStatus) : Except String DeliveryStatus :=
  if canTransition src dst then .ok dst
  else .error ("invalid transition: " ++ src.value ++ " -> " ++ dst.value)

/-- `_DELIVERING_SOURCES`: the statuses from which a worker picks a delivery up. -/
def deliveringSources : List DeliveryStatus := [.pending, .retrying, .replaying]

/-- A delivery that still has to be worked on: PENDING, RETRYING or REPLAYING. -/
def DeliveryStatus.Open (s : DeliveryStatus) : Prop := s ∈ deliveringSources

instance (s : DeliveryStatus) : Decidable s.Open :=
  inferInstanceAs (Decidable (s ∈ deliveringSources))

@[simp] theorem not_open_delivered : ¬ DeliveryStatus.delivered.Open := by decide

@[simp] theorem not_open_failed : ¬ DeliveryStatus.failed.Open := by decide

@[simp] theorem open_retrying : DeliveryStatus.retrying.Open := by decide

@[simp] theorem open_replaying : DeliveryStatus.replaying.Open := by decide

/-- A worker may take exactly the open statuses to DELIVERING. -/
theorem transition_delivering {s : DeliveryStatus} :
    transition s .delivering = .ok .delivering ↔ s.Open := by
  cases s <;> decide

/-- The edges a committed status may take: an open delivery becomes DELIVERED,
RETRYING or FAILED, and a FAILED one becomes REPLAYING. DELIVERING is only ever
held inside a transaction. -/
def CommittedEdge (src dst : DeliveryStatus) : Prop :=
  (src.Open ∧ (dst = .delivered ∨ dst = .retrying ∨ dst = .failed)) ∨
    (src = .failed ∧ dst = .replaying)

instance (src dst : DeliveryStatus) : Decidable (CommittedEdge src dst) :=
  inferInstanceAs (Decidable (_ ∨ _))

/-- Each committed edge is a table edge, or two of them through DELIVERING. -/
theorem committedEdge_iff {src dst : DeliveryStatus} :
    CommittedEdge src dst ↔
      (transition src .delivering = .ok .delivering ∧ transition .delivering dst = .ok dst) ∨
        (src = .failed ∧ transition src dst = .ok dst) := by
  cases src <;> cases dst <;> decide

/-- The domain errors of `app/domain/errors.py` the services raise, and the two other
exceptions that leave them. -/
inductive HubError where
  | partnerNotFound
  | deliveryNotFound
  | partnerInactive
  | schemaValidationFailed
  | noActiveEndpoint (eventType : String)
  | idempotencyConflict
  | deliveryNotReplayable (currentStatus : String)
  | deadLetterNotFound
  | deadLetterAcknowledged
  | replayApprovalNotFound
  | replayApprovalNotPending (currentStatus : String)
  | valueError (message : String)
  | missingGreenlet
  | dataError
  deriving DecidableEq, Repr

def HubError.statusCode : HubError → Nat
  | .partnerNotFound | .deliveryNotFound | .deadLetterNotFound | .replayApprovalNotFound => 404
  | .partnerInactive | .schemaValidationFailed | .noActiveEndpoint _ => 422
  | .idempotencyConflict | .deliveryNotReplayable _ | .deadLetterAcknowledged
  | .replayApprovalNotPending _ => 409
  | .valueError _ | .missingGreenlet | .dataError => 500

def HubError.detail : HubError → String
  | .partnerNotFound => "Partner not found."
  | .deliveryNotFound => "Delivery not found."
  | .partnerInactive => "Partner is not active."
  | .schemaValidationFailed => "payload does not match registered schema"
  | .noActiveEndpoint eventType => "No active outbound endpoint for event_type: " ++ eventType
  | .idempotencyConflict => "Idempotency conflict; retry."
  | .deliveryNotReplayable current =>
    "Delivery cannot be replayed from status: " ++ current ++ "."
  | .deadLetterNotFound => "Dead-letter entry not found."
  | .deadLetterAcknowledged => "Dead-letter entry is already acknowledged."
  | .replayApprovalNotFound => "Replay approval not found."
  | .replayApprovalNotPending current => "Replay approval is not pending: " ++ current ++ "."
  | .valueError message => message
  | .missingGreenlet | .dataError => "Internal Server Error"

end PartnerHub.Domain
