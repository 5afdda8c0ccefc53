import PartnerHub.Outbound.Processor

/-!
# Replay and dead-letter administration

`replay_delivery` of `app/domain/services/replay_service.py`, from the row it reads
to what its transaction writes, and the two writes of
`app/api/v1/admin/dead_letters.py`. A replay breaks no constraint, so its commit
has no error case.
-/
namespace PartnerHub.Outbound

open PartnerHub.Domain PartnerHub.Lib

/-- `fetch_delivery_with_partner`. -/
def Tables.fetchDeliveryWithPartner (t : Tables) (deliveryPublicId : Uuid) :
    Option (Delivery × Partner) := do
  let delivery ← t.deliveries.find? (fun d => d.publicId = deliveryPublicId)
  let partner ← t.partners.find? (fun p => p.id = delivery.partnerId)
  return (delivery, partner)

inductive ReplayTrigger where
  | manual | scheduled
  deriving DecidableEq, Repr

def ReplayTrigger.value : ReplayTrigger → String
  | .manual => "manual"
  | .scheduled => "scheduled"

/-- The arguments of one `replay_delivery` call and the times it takes. -/
structure ReplayRequest where
  actorId : String
  reason : String
  resetAttemptCounter : Bool
  trigger : ReplayTrigger
  scheduledAt : Time
  createdAt : Time
  deriving DecidableEq

/-- `_next_kafka_attempt`. -/
def nextKafkaAttempt (attemptCount : Nat) (resetAttemptCounter : Bool) : Nat :=
  if resetAttemptCounter then 1 else max (attemptCount + 1) 1

/-- What a replay's session holds when it commits. The outbox row gets its id
from the database. -/
structure ReplaySession where
  loaded : Delivery
  delivery : Delivery
  audit : AuditLog
  topic : Topic
  messageKey : Uuid
  payload : Envelope
  createdAt : Time
  deriving DecidableEq

/-- `replay_delivery` after the row has been read, up to its commit. -/
def replayDelivery (row : Option (Delivery × Partner)) (req : ReplayRequest) :
    Except HubError ReplaySession :=
  match row with
  | none => .error .deliveryNotFound
  | some (loaded, partner) =>
    if loaded.status ≠ .failed then .error (.deliveryNotReplayable loaded.status.value)
    else
      match transition loaded.status .replaying with
      | .error message => .error (.valueError message)
      | .ok status =>
        let delivery : Delivery :=
          { loaded with
            status := status
            attemptCount := if req.resetAttemptCounter then 0 else loaded.attemptCount }
        .ok
          { loaded := loaded, delivery := delivery
            audit :=
              { actorId := req.actorId, action := .deliveryReplay, resourceId := delivery.publicId
                metadata := [("reason", req.reason), ("trigger", req.trigger.value)] }
            topic := .outboundPending
            messageKey := partner.publicId
            payload := .outbound
              { deliveryId := delivery.publicId, partnerId := partner.publicId
                endpointId := delivery.endpointId, eventType := delivery.eventType
                attempt := nextKafkaAttempt delivery.attemptCount req.resetAttemptCounter
                payload := delivery.payload, idempotencyKey := delivery.idempotencyKey
                correlationId := delivery.correlationId, scheduledAt := req.scheduledAt
                slaDeadlineAt := delivery.slaDeadlineAt }
            createdAt := req.createdAt }

/-- Everything an accepted replay does: it read FAILED, it writes REPLAYING with the
counter kept or cleared, and its outbox row names the delivery on the pending topic. -/
structure Replays (loaded : Delivery) (req : ReplayRequest) (s : ReplaySession) : Prop where
  loaded_eq : s.loaded = loaded
  failed : loaded.status = .failed
  delivery_eq : s.delivery = { loaded with
    status := .replaying
    attemptCount := if req.resetAttemptCounter then 0 else loaded.attemptCount }
  audit_action : s.audit.action = .deliveryReplay
  audit_resource : s.audit.resourceId = loaded.publicId
  topic_eq : s.topic = .outboundPending
  names : s.payload.deliveryId = some loaded.publicId

theorem replay_cases {row : Option (Delivery × Partner)} {req : ReplayRequest} {s : ReplaySession}
    (h : replayDelivery row req = .ok s) :
    ∃ loaded partner, row = some (loaded, partner) ∧ Replays loaded req s := by
  unfold replayDelivery at h
  split at h
  · cases h
  · rename_i loaded partner
    refine ⟨loaded, partner, rfl, ?_⟩
    split at h
    · cases h
    · rename_i hf
      have hfailed : loaded.status = .failed := not_not.mp hf
      rw [hfailed] at h
      cases h
      exact ⟨rfl, hfailed, rfl, rfl, rfl, rfl, rfl⟩

/-- The outbox row of a replay, numbered by the identity column. -/
def ReplaySession.outboxEvent (s : ReplaySession) (id : Nat) : OutboxEvent :=
  { id := id, aggregateType := .delivery, aggregateId := s.delivery.id, topic := s.topic
    messageKey := s.messageKey, payload := s.payload, createdAt := s.createdAt
    publishedAt := none, publishAttempts := 0 }

/-- The tables after a replay's commit: the UPDATE, the audit row and the outbox
row, in one transaction. -/
def Tables.replayed (t : Tables) (s : ReplaySession) : Tables :=
  { t.flush s.loaded s.delivery with
    auditLogs := t.auditLogs ++ [s.audit]
    outbox := t.outbox ++ [s.outboxEvent (t.outboxSeq + 1)]
    outboxSeq := t.outboxSeq + 1 }

theorem Tables.Consistent.replayed {t : Tables} (h : t.Consistent) (s : ReplaySession) :
    (t.replayed s).Consistent where
  __ := h.flush s.loaded s.delivery
  outbox_id := by
    simp only [Tables.replayed, List.map_append, List.nodup_append]
    refine ⟨h.outbox_id, by simp, ?_⟩
    intro x hx y hy
    obtain ⟨o, ho, rfl⟩ := List.mem_map.mp hx
    have hle := h.outbox_seq o ho
    simp only [List.map_cons, List.map_nil, List.mem_singleton] at hy
    subst hy
    exact Nat.ne_of_lt (Nat.lt_succ_of_le hle)
  outbox_seq := by
    intro o ho
    rcases List.mem_append.mp ho with hold | hnew
    · exact (h.outbox_seq o hold).trans (Nat.le_succ _)
    · rw [List.mem_singleton.mp hnew]
      exact le_rfl

def Db.commitReplay (db : Db) (s : ReplaySession) : Db :=
  ⟨db.tables.replayed s, db.consistent.replayed s⟩

/-- `_get_dead_letter_row_or_404`: the dead letter joined with its delivery and
partner. -/
def Tables.getDeadLetterRow (t : Tables) (id : Uuid) : Option (DeadLetter × Delivery × Partner) := do
  let deadLetter ← t.deadLetters.find? (fun l => l.id = id)
  let delivery ← t.deliveries.find? (fun d => d.id = deadLetter.deliveryId)
  let partner ← t.partners.find? (fun p => p.id = deadLetter.partnerId)
  return (deadLetter, delivery, partner)

/-- An UPDATE of dead letters that leaves `delivery_id` alone. -/
def Tables.updateDeadLetter (t : Tables) (id : Uuid) (f : DeadLetter → DeadLetter)
    (audit : AuditLog) : Tables :=
  { t with
    deadLetters := Table.modify (·.id) id f t.deadLetters
    auditLogs := t.auditLogs ++ [audit] }

theorem Tables.Consistent.updateDeadLetter {t : Tables} (h : t.Consistent) (id : Uuid)
    {f : DeadLetter → DeadLetter} (hf : ∀ l, (f l).deliveryId = l.deliveryId) (audit : AuditLog) :
    (t.updateDeadLetter id f audit).Consistent where
  __ := h
  deadLetter_unique := by
    rw [Tables.updateDeadLetter, Table.map_modify _ _ _ _ _ hf]
    exact h.deadLetter_unique
  deadLetter_delivery := by
    intro l hl
    obtain ⟨l₀, hl₀, rfl⟩ := Table.mem_modify.mp hl
    have hd := h.deadLetter_delivery l₀ hl₀
    split
    · rwa [hf]
    · exact hd

/-- `acknowledge_dead_letter`. -/
def Db.acknowledgeDeadLetter (db : Db) (id : Uuid) (now : Time) (sub : String) :
    Except HubError Db :=
  match db.tables.getDeadLetterRow id with
  | none => .error .deadLetterNotFound
  | some (deadLetter, delivery, _) =>
    if deadLetter.acknowledgedAt ≠ none then .error .deadLetterAcknowledged
    else .ok ⟨_, db.consistent.updateDeadLetter id
      (f := fun l => { l with acknowledgedAt := some now, acknowledgedBy := some sub })
      (fun _ => rfl)
      { actorId := sub, action := .dlqAck, resourceId := deadLetter.id
        metadata := [("delivery_id", delivery.publicId.text)] }⟩

/-- `purge_dead_letter`: the row stays, with reason `manual_purge`. -/
def Db.purgeDeadLetter (db : Db) (id : Uuid) (reason sub : String) : Except HubError Db :=
  match db.tables.getDeadLetterRow id with
  | none => .error .deadLetterNotFound
  | some (deadLetter, _, _) =>
    .ok ⟨_, db.consistent.updateDeadLetter id
      (f := fun l => { l with reason := .manualPurge }) (fun _ => rfl)
      { actorId := sub, action := .dlqPurge, resourceId := deadLetter.id
        metadata := [("reason", reason)] }⟩

/-- What an administrative write does: `dead_letters` keeps its deliveries,
`audit_logs` gains a row that is no replay, every other table stays. -/
structure DeadLetterWrite (t t' : Tables) : Prop where
  deadLetters : t'.deadLetters.map (·.deliveryId) = t.deadLetters.map (·.deliveryId)
  audit : ∃ a : AuditLog, a.action ≠ .deliveryReplay ∧ t'.auditLogs = t.auditLogs ++ [a]
  frame : t' = { t with deadLetters := t'.deadLetters, auditLogs := t'.auditLogs }

theorem acknowledge_ok {db db' : Db} {id : Uuid} {now : Time} {sub : String}
    (h : db.acknowledgeDeadLetter id now sub = .ok db') : DeadLetterWrite db.tables db'.tables := by
  unfold Db.acknowledgeDeadLetter at h
  split at h
  · cases h
  · split at h
    · cases h
    · cases h
      refine ⟨?_, ⟨_, ?_, rfl⟩, rfl⟩
      · exact Table.map_modify _ _ _ _ _ fun _ => rfl
      · simp

theorem purge_ok {db db' : Db} {id : Uuid} {reason sub : String}
    (h : db.purgeDeadLetter id reason sub = .ok db') : DeadLetterWrite db.tables db'.tables := by
  unfold Db.purgeDeadLetter at h
  split at h
  · cases h
  · cases h
    refine ⟨?_, ⟨_, ?_, rfl⟩, rfl⟩
    · exact Table.map_modify _ _ _ _ _ fun _ => rfl
    · simp

end PartnerHub.Outbound
