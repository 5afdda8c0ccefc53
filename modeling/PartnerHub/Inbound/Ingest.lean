import PartnerHub.Lib.Slots
import PartnerHub.Lib.System
import PartnerHub.Domain.Text

/-!
# Ingesting partner events

`ingest_event` from the idempotency look-up on, for requests that passed authentication,
rate limiting and validation. It is cut where it awaits: between two steps of a request
other requests run, cached entries expire and the process may die. PostgreSQL checks the
primary key and UNIQUE (partner_id, idempotency_key) at the flush; an insert that
conflicts with an open transaction waits for its end.
-/
namespace PartnerHub.Inbound

open PartnerHub.Domain PartnerHub.Lib.System

/-- What a request brings to the idempotency check: the partner it authenticated as, the
`Idempotency-Key` header, the parsed body, whether its process has a Redis client, and
the id `generate_uuidv7` will give to its row. -/
structure IngestRequest where
  partner : Partner
  idempotencyHeader : String
  eventType : String
  payload : Payload
  correlationId : String
  receivedAt : Time
  redis : Bool
  eventId : Uuid
  deriving DecidableEq, Repr

def IngestRequest.idempotencyKey (req : IngestRequest) : String :=
  strip req.idempotencyHeader

/-- The row that is added to the session. -/
def IngestRequest.inbound (req : IngestRequest) : InboundEvent where
  id := req.eventId
  partnerId := req.partner.id
  idempotencyKey := req.idempotencyKey
  eventType := req.eventType
  payload := req.payload
  receivedAt := req.receivedAt
  publishedAt := none
  correlationId := req.correlationId

/-- `build_inbound_envelope`, as `ingest_event` calls it. -/
def buildInboundEnvelope (partner : Partner) (inbound : InboundEvent) : InboundEnvelope where
  eventId := inbound.id
  partnerId := partner.publicId
  eventType := inbound.eventType
  payload := inbound.payload
  idempotencyKey := inbound.idempotencyKey
  correlationId := inbound.correlationId
  receivedAt := inbound.receivedAt

/-- The row `enqueue_outbox` adds in the same transaction. -/
def IngestRequest.outboxEvent (req : IngestRequest) (id : Nat) (createdAt : Time) :
    OutboxEvent where
  id := id
  aggregateType := .inboundEvent
  aggregateId := req.partner.id
  topic := .inbound req.eventType
  messageKey := req.partner.publicId
  payload := .inbound (buildInboundEnvelope req.partner req.inbound)
  createdAt := createdAt
  publishedAt := none
  publishAttempts := 0

def idempotencyRedisKey (partnerId : Nat) (idempotencyKey : String) : String :=
  "inbound:idempotency:" ++ (Nat.repr partnerId ++ ":" ++ idempotencyKey)

theorem idempotencyRedisKey_injective {m n : Nat} {a b : String}
    (h : idempotencyRedisKey m a = idempotencyRedisKey n b) : m = n ∧ a = b := by
  have hl : "inbound:idempotency:".toList ++ (Nat.repr m ++ ":" ++ a).toList =
      "inbound:idempotency:".toList ++ (Nat.repr n ++ ":" ++ b).toList := by
    rw [← String.toList_append, ← String.toList_append]
    exact congrArg String.toList h
  exact decimal_colon_injective (String.toList_inj.mp (List.append_cancel_left hl))

/-- Where a request stands: before the cache look-up, before the flush, in its open
transaction, after the rollback, after the commit, after the cache write. -/
inductive Phase where
  | looking | inserting | flushed | conflicted | committed | cached
  deriving DecidableEq, Repr

/-- 202, 200 and 409. -/
inductive Response where
  | accepted (eventId : Uuid)
  | duplicate (eventId : Uuid)
  | conflict
  deriving DecidableEq, Repr

def Response.eventId : Response → Option Uuid
  | .accepted i => some i
  | .duplicate i => some i
  | .conflict => none

structure Answer where
  partnerId : Nat
  idempotencyKey : String
  response : Response
  deriving DecidableEq, Repr

/-- The committed rows, the rows of open transactions with their requests, the Redis
entries, the requests under way, and the responses given so far. -/
structure Ingest where
  events : List InboundEvent
  pending : List (Nat × InboundEvent)
  outbox : List OutboxEvent
  outboxSeq : Nat
  redis : String → Option String
  requests : Nat → Option (IngestRequest × Phase)
  answers : List Answer

def Ingest.init : Ingest where
  events := []
  pending := []
  outbox := []
  outboxSeq := 0
  redis := fun _ => none
  requests := fun _ => none
  answers := []

inductive IngestAction where
  | arrive (r : Nat) (req : IngestRequest)
  | getCachedEventId (r : Nat)
  | flush (r : Nat)
  | fetchExisting (r : Nat)
  | commit (r : Nat) (createdAt : Time)
  | cacheEventId (r : Nat)
  | respond (r : Nat)
  | expire (key : String)
  | fail (r : Nat)
  deriving DecidableEq, Repr

def eventKey (e : InboundEvent) : Nat × String := (e.partnerId, e.idempotencyKey)

def IngestRequest.key (req : IngestRequest) : Nat × String := (req.partner.id, req.idempotencyKey)

/-- Two rows violate the primary key or UNIQUE (partner_id, idempotency_key). -/
def Collides (e e' : InboundEvent) : Prop :=
  eventKey e = eventKey e' ∨ e.id = e'.id

instance (e e' : InboundEvent) : Decidable (Collides e e') :=
  inferInstanceAs (Decidable (_ ∨ _))

/-- `get_cached_event_id`: the raw Redis value. -/
def Ingest.getCached (s : Ingest) (req : IngestRequest) : Option String :=
  if req.redis then s.redis (idempotencyRedisKey req.partner.id req.idempotencyKey) else none

def Ingest.setRequest (s : Ingest) (r : Nat) (req : IngestRequest) (phase : Phase) : Ingest :=
  { s with requests := Function.update s.requests r (some (req, phase)) }

/-- The request is over, with a response or without one; an open transaction is rolled
back. -/
def Ingest.endRequest (s : Ingest) (r : Nat) (answers : List Answer) : Ingest :=
  { s with
    requests := Function.update s.requests r none
    pending := s.pending.filter (·.1 ≠ r)
    answers := s.answers ++ answers }

def Ingest.answer (s : Ingest) (r : Nat) (req : IngestRequest) (response : Response) : Ingest :=
  s.endRequest r [⟨req.partner.id, req.idempotencyKey, response⟩]

/-- One step of a request. After a conflict the code goes on as `fetchExisting` where the
rollback leaves the loaded partner readable, and as `fail` where it has expired it. -/
def Ingest.step (s : Ingest) : IngestAction → Option Ingest
  | .arrive r req =>
    if s.requests r = none ∧ req.idempotencyKey ≠ "" then some (s.setRequest r req .looking)
    else none
  | .getCachedEventId r =>
    match s.requests r with
    | some (req, .looking) =>
      match s.getCached req with
      | none => some (s.setRequest r req .inserting)
      | some raw =>
        match Uuid.parse raw with
        | none => some (s.endRequest r [])
        | some eventId => some (s.answer r req (.duplicate eventId))
    | _ => none
  | .flush r =>
    match s.requests r with
    | some (req, .inserting) =>
      if ∃ e ∈ s.events, Collides e req.inbound then some (s.setRequest r req .conflicted)
      else if ∃ x ∈ s.pending, Collides x.2 req.inbound then none
      else some { s.setRequest r req .flushed with pending := (r, req.inbound) :: s.pending }
    | _ => none
  | .fetchExisting r =>
    match s.requests r with
    | some (req, .conflicted) =>
      match s.events.find? fun e => eventKey e = req.key with
      | none => some (s.answer r req .conflict)
      | some existing => some (s.answer r req (.duplicate existing.id))
    | _ => none
  | .commit r createdAt =>
    match s.requests r with
    | some (req, .flushed) => some { s.setRequest r req .committed with
        events := s.events ++ [req.inbound]
        pending := s.pending.erase (r, req.inbound)
        outbox := s.outbox ++ [req.outboxEvent (s.outboxSeq + 1) createdAt]
        outboxSeq := s.outboxSeq + 1 }
    | _ => none
  | .cacheEventId r =>
    match s.requests r with
    | some (req, .committed) => some { s.setRequest r req .cached with
        redis := if req.redis then
            Function.update s.redis (idempotencyRedisKey req.partner.id req.idempotencyKey)
              (some (Uuid.text req.eventId))
          else s.redis }
    | _ => none
  | .respond r =>
    match s.requests r with
    | some (req, .cached) => some (s.answer r req (.accepted req.eventId))
    | _ => none
  | .expire key => some { s with redis := Function.update s.redis key none }
  | .fail r => (s.requests r).map fun _ => s.endRequest r []

end PartnerHub.Inbound
