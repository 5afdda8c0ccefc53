import PartnerHub.Inbound.EventBody
import PartnerHub.Inbound.Ingest
import PartnerHub.Outbound.Enqueue
import PartnerHub.PartnerApi.DeliveryStatus
import PartnerHub.RateLimit.Outage
import PartnerHub.Secrets.SignatureAcceptance

/-!
# One inbound request

The whole of `ingest_event`, from the headers to the answer, with the replies Redis gives to
its commands: the four of the rate limit, the GET of the cached event id and the SET after the
commit.
-/
namespace PartnerHub.Inbound

open PartnerHub.Domain PartnerHub.Outbound PartnerHub.Secrets
open PartnerHub.Circuit (Reply)
open PartnerHub.Lib.Json (Limits Text Value LoadsError)
open PartnerHub.PartnerApi (PartnerApiKey extractPrefix parseBearerToken)
open PartnerHub.RateLimit (Command allowRequestUnder)

/-- What the handler uses of other packages: `int`, HMAC-SHA256, Fernet, argon2, the limits of
`json.loads`, the JSONB value of a dict, jsonschema, what PostgreSQL takes for a row, and what a
rollback of SQLAlchemy does to loaded rows. -/
structure Libraries where
  parseInt : String → Option Int
  digest : Secret → List UInt8 → List UInt8
  decrypt : Secret → Option Secret
  verifyHash : String → String → Bool
  limits : Limits
  dump : List (Text × Value) → Payload
  validates : PayloadSchema → Payload → Bool
  storable : InboundEvent → Bool
  orm : LoadedRows

structure InboundSettings where
  hubInboundTimestampTolerance : Int := 300

/-- The request, the readings of the clock while it is served, and the id its row gets. -/
structure InboundRequest where
  partnerSlug : String
  rawBody : List UInt8
  authorization : Option String
  signature : Option String
  timestamp : Option String
  idempotencyKey : Option String
  correlationId : Option String
  now : Int
  authenticatedAt : Time
  limitedAt : Time
  receivedAt : Time
  committedAt : Time
  eventId : Uuid

/-- The tables an inbound request reads and writes. -/
structure InboundTables where
  hub : Tables
  secrets : SecretStore
  apiKeys : List PartnerApiKey
  events : List InboundEvent

/-- The token buckets by slug, and the other values by their key. -/
structure InboundRedis where
  buckets : String → RateLimit.Keys
  values : String → Option String

structure RedisReplies where
  limiter : Command → Reply
  getCached : Reply
  setCached : Reply

/-- Exceptions other than `HTTPException` and `RedisError`, none of which the handler catches. -/
inductive HandlerError where
  | valueError | typeError | dataError | missingGreenlet | multipleResultsFound
  | loads (e : LoadsError)
  deriving DecidableEq, Repr

/-- How a request ends before its event is looked at. -/
inductive Refusal where
  | httpException (statusCode : Nat) (detail : Text)
  | raised (e : HandlerError)
  deriving DecidableEq, Repr

inductive Outcome where
  | accepted (eventId : Uuid)
  | duplicate (eventId : Uuid)
  | refused (r : Refusal)
  | redisError
  deriving DecidableEq, Repr

def refuse (statusCode : Nat) (detail : String) : Refusal :=
  .httpException statusCode (Lib.Json.textOf detail)

/-- `_load_partner`. -/
def loadPartner (t : InboundTables) (partnerSlug : String) : Except Refusal Partner :=
  match t.hub.partners.find? fun p => p.slug = partnerSlug with
  | none => .error (refuse 404 "Partner not found or inactive.")
  | some partner =>
    if partner.status ≠ .active then .error (refuse 404 "Partner not found or inactive.")
    else .ok partner

/-- `_verify_timestamp`; it returns the header it has checked. -/
def verifyTimestamp (lib : Libraries) (timestampHeader : Option String) (now tolerance : Int) :
    Except Refusal String :=
  match timestampHeader with
  | none => .error (refuse 403 "Missing or invalid HMAC signature or timestamp.")
  | some timestamp =>
    match lib.parseInt timestamp with
    | none => .error (refuse 403 "Missing or invalid HMAC signature or timestamp.")
    | some ts =>
      if tolerance < |now - ts| then
        .error (refuse 403 "Request timestamp outside allowed skew window.")
      else .ok timestamp

/-- `_verify_hmac`. -/
def verifyHmac (lib : Libraries) (settings : InboundSettings) (t : InboundTables)
    (partner : Partner) (timestamp : String) (body : List UInt8)
    (signatureHeader : Option String) (now : Int) : Except Refusal Unit :=
  match signatureHeader with
  | none => .error (refuse 403 "Missing or invalid HMAC signature or timestamp.")
  | some header =>
    match t.secrets.loadInboundSigningSecrets lib.decrypt partner.id now with
    | .error _ => .error (.raised .multipleResultsFound)
    | .ok (none, _) => .error (refuse 403 "Missing or invalid HMAC signature or timestamp.")
    | .ok (some secret, previousSecret) =>
      match verify lib.parseInt lib.digest secret timestamp body header now
          settings.hubInboundTimestampTolerance previousSecret with
      | .error .valueError => .error (.raised .valueError)
      | .error .typeError => .error (.raised .typeError)
      | .ok false => .error (refuse 403 "Invalid HMAC signature.")
      | .ok true => .ok ()

def inboundWriteScope : String := "inbound:write"

/-- `_verify_api_key`. -/
def verifyApiKey (lib : Libraries) (t : InboundTables) (partner : Partner)
    (apiKey : Option String) (now : Time) : Except Refusal Unit :=
  match apiKey with
  | none => .error (refuse 401 "Missing or invalid API key.")
  | some key =>
    let rows := t.apiKeys.filter fun row =>
      row.keyPrefix = extractPrefix key ∧ row.partnerId = partner.id ∧ row.revokedAt = none
    if ∃ row ∈ rows, (∀ expiresAt ∈ row.expiresAt, now < expiresAt) ∧
        inboundWriteScope ∈ row.scopes ∧ lib.verifyHash row.keyHash key = true then
      .ok ()
    else .error (refuse 401 "Missing or invalid API key.")

/-- The handler up to the rate limit: the partner and the `Idempotency-Key` header. -/
def checkRequest (lib : Libraries) (settings : InboundSettings) (t : InboundTables)
    (req : InboundRequest) : Except Refusal (Partner × String) :=
  match req.idempotencyKey with
  | none => .error (refuse 422 "Idempotency-Key header is required.")
  | some idempotencyHeader =>
    if strip idempotencyHeader = "" then
      .error (refuse 422 "Idempotency-Key header is required.")
    else do
      let partner ← loadPartner t req.partnerSlug
      let timestamp ← verifyTimestamp lib req.timestamp req.now
        settings.hubInboundTimestampTolerance
      verifyHmac lib settings t partner timestamp req.rawBody req.signature req.now
      verifyApiKey lib t partner (parseBearerToken req.authorization) req.authenticatedAt
      return (partner, idempotencyHeader)

/-- From the body to the event that is to be stored. -/
def readEvent (lib : Libraries) (t : InboundTables) (req : InboundRequest) (partner : Partner)
    (idempotencyHeader : String) (hasRedis : Bool) : Except Refusal IngestRequest :=
  match parseEventBody lib.limits req.rawBody with
  | .error (.httpException statusCode detail) => .error (.httpException statusCode detail)
  | .error (.unhandled e) => .error (.raised (.loads e))
  | .ok eventBody =>
    let eventType := String.ofList (eventBody.eventType.map Char.ofNat)
    let payload := lib.dump eventBody.payload
    if validatePayload lib.validates eventType payload
        (t.hub.fetchLatestActiveSchema eventType) = false then
      .error (refuse 422 "payload does not match registered schema")
    else
      match req.correlationId with
      | none => .error (refuse 500 "Correlation context missing.")
      | some correlationId =>
        .ok
          { partner := partner, idempotencyHeader := idempotencyHeader, eventType := eventType
            payload := payload, correlationId := correlationId, receivedAt := req.receivedAt
            redis := hasRedis, eventId := req.eventId }

/-- `get_cached_event_id`. -/
def getCachedEventId (redis : Option InboundRedis) (reply : Reply) (partnerId : Nat)
    (idempotencyKey : String) : Except Outcome (Option Uuid) :=
  match redis with
  | none => .ok none
  | some server =>
    match reply with
    | .raised _ => .error .redisError
    | .answered =>
      match server.values (idempotencyRedisKey partnerId idempotencyKey) with
      | none => .ok none
      | some raw =>
        match Uuid.parse raw with
        | none => .error (.refused (.raised .valueError))
        | some eventId => .ok (some eventId)

/-- `cache_event_id`: what Redis holds afterwards, and whether the SET raised. -/
def cacheEventId (redis : Option InboundRedis) (reply : Reply) (partnerId : Nat)
    (idempotencyKey : String) (eventId : Uuid) : Option InboundRedis × Bool :=
  match redis with
  | none => (none, false)
  | some server =>
    let written := { server with
      values := Function.update server.values (idempotencyRedisKey partnerId idempotencyKey)
        (some (Uuid.text eventId)) }
    (some (if reply.executed then written else server), reply ≠ .answered)

/-- What the request leaves behind; `committed` says that its transaction was. -/
structure IngestResult where
  outcome : Outcome
  tables : InboundTables
  redis : Option InboundRedis
  committed : Bool := false

/-- The tables after the commit of the event and its outbox row. -/
def InboundTables.commitEvent (t : InboundTables) (event : IngestRequest) (createdAt : Time) :
    InboundTables :=
  { t with
    events := t.events ++ [event.inbound]
    hub := { t.hub with
      outbox := t.hub.outbox ++ [event.outboxEvent (t.hub.outboxSeq + 1) createdAt]
      outboxSeq := t.hub.outboxSeq + 1 } }

/-- The handler from the flush on. After an `IntegrityError` it rolls back and reads
`partner.id` again, of a row its own session has loaded. -/
def insertEvent (lib : Libraries) (replies : RedisReplies) (t : InboundTables)
    (redis : Option InboundRedis) (event : IngestRequest) (createdAt : Time) : IngestResult :=
  if lib.storable event.inbound = false then ⟨.refused (.raised .dataError), t, redis, false⟩
  else if ∃ e ∈ t.events, Collides e event.inbound then
    if lib.orm.readable false = false then
      ⟨.refused (.raised .missingGreenlet), t, redis, false⟩
    else
      match t.events.find? fun e => eventKey e = event.key with
      | none => ⟨.refused (refuse 409 "Idempotency conflict; retry."), t, redis, false⟩
      | some existing => ⟨.duplicate existing.id, t, redis, false⟩
  else
    let (redis, raised) := cacheEventId redis replies.setCached event.partner.id
      event.idempotencyKey event.eventId
    ⟨if raised then .redisError else .accepted event.eventId, t.commitEvent event createdAt, redis,
      true⟩

/-- The handler from the look-up of the cached id on. -/
def submitEvent (lib : Libraries) (replies : RedisReplies) (t : InboundTables)
    (redis : Option InboundRedis) (event : IngestRequest) (createdAt : Time) : IngestResult :=
  match getCachedEventId redis replies.getCached event.partner.id event.idempotencyKey with
  | .error outcome => ⟨outcome, t, redis, false⟩
  | .ok (some cachedId) => ⟨.duplicate cachedId, t, redis, false⟩
  | .ok none => insertEvent lib replies t redis event createdAt

/-- The rate limit of the request's partner, and Redis after it. -/
def limitRequest (replies : RedisReplies) (redis : Option InboundRedis) (partner : Partner)
    (now : Time) : Option InboundRedis × Bool :=
  let (bucket, allowed) := allowRequestUnder replies.limiter partner.rateLimitRps
    (redis.map fun server => server.buckets partner.slug) now
  let stored := redis.map fun server =>
    { server with
      buckets := Function.update server.buckets partner.slug
        (bucket.getD (server.buckets partner.slug)) }
  (stored, allowed)

/-- `ingest_event`. -/
def ingestEvent (lib : Libraries) (settings : InboundSettings) (replies : RedisReplies)
    (t : InboundTables) (redis : Option InboundRedis) (req : InboundRequest) : IngestResult :=
  match checkRequest lib settings t req with
  | .error r => ⟨.refused r, t, redis, false⟩
  | .ok (partner, idempotencyHeader) =>
    let (redis, allowed) := limitRequest replies redis partner req.limitedAt
    if allowed = false then ⟨.refused (refuse 429 "Rate limit exceeded."), t, redis, false⟩
    else
      match readEvent lib t req partner idempotencyHeader redis.isSome with
      | .error r => ⟨.refused r, t, redis, false⟩
      | .ok event => submitEvent lib replies t redis event req.committedAt

section Answers

variable {lib : Libraries} {settings : InboundSettings} {replies : RedisReplies}
  {t : InboundTables} {server : InboundRedis} {req : InboundRequest} {partner : Partner}
  {idempotencyHeader : String} {event : IngestRequest}

/-- The status code and the event id of a response, or the exception. -/
def Outcome.answer : Outcome → Except (Option HandlerError) (Nat × Option Uuid)
  | .accepted eventId => .ok (202, some eventId)
  | .duplicate eventId => .ok (200, some eventId)
  | .refused (.httpException statusCode _) => .ok (statusCode, none)
  | .refused (.raised e) => .error (some e)
  | .redisError => .error none

/-- Redis holds this id under the request's key, and it is the id of the event with the key. -/
def ValidCached (t : InboundTables) (server : InboundRedis) (event : IngestRequest)
    (eventId : Uuid) : Prop :=
  (server.values (idempotencyRedisKey event.partner.id event.idempotencyKey)).bind Uuid.parse =
      some eventId ∧
    ∃ e ∈ t.events, eventKey e = event.key ∧ e.id = eventId

/-- The limiter does not turn the request away. -/
def Admitted (lib : Libraries) (settings : InboundSettings) (replies : RedisReplies)
    (t : InboundTables) (server : InboundRedis) (req : InboundRequest) : Prop :=
  ∀ partner idempotencyHeader, checkRequest lib settings t req = .ok (partner, idempotencyHeader) →
    (limitRequest replies (some server) partner req.limitedAt).2 = true

/-- The request gets as far as the look-up of its key, with this event. -/
def Reaches (lib : Libraries) (settings : InboundSettings) (replies : RedisReplies)
    (t : InboundTables) (server : InboundRedis) (req : InboundRequest) (event : IngestRequest) :
    Prop :=
  ∃ partner idempotencyHeader,
    checkRequest lib settings t req = .ok (partner, idempotencyHeader) ∧
    (limitRequest replies (some server) partner req.limitedAt).2 = true ∧
    readEvent lib t req partner idempotencyHeader true = .ok event

/-- The answer with this Redis, against the one without Redis. -/
structure SurvivesOutage (lib : Libraries) (settings : InboundSettings) (replies : RedisReplies)
    (t : InboundTables) (server : InboundRedis) (req : InboundRequest) : Prop where
  escapes : (ingestEvent lib settings replies t (some server) req).outcome ≠ .redisError
  answers : Admitted lib settings replies t server req →
    (ingestEvent lib settings replies t (some server) req).outcome.answer =
        (ingestEvent lib settings replies t none req).outcome.answer ∨
      ∃ event eventId, Reaches lib settings replies t server req event ∧
        ValidCached t server event eventId ∧
        (ingestEvent lib settings replies t (some server) req).outcome = .duplicate eventId
  committed : (ingestEvent lib settings replies t (some server) req).committed = true →
    ∃ eventId, (ingestEvent lib settings replies t (some server) req).outcome = .accepted eventId

/-- The row of the event can be inserted. -/
def Inserts (lib : Libraries) (t : InboundTables) (event : IngestRequest) : Prop :=
  lib.storable event.inbound = true ∧ ¬∃ e ∈ t.events, Collides e event.inbound

/-- The GET is answered, with a valid id or with nothing; after nothing and an insert, the SET
is answered. -/
def Undisturbed (lib : Libraries) (replies : RedisReplies) (t : InboundTables)
    (server : InboundRedis) (event : IngestRequest) : Prop :=
  replies.getCached = .answered ∧
    ((∃ eventId, ValidCached t server event eventId) ∨
      server.values (idempotencyRedisKey event.partner.id event.idempotencyKey) = none ∧
        (Inserts lib t event → replies.setCached = .answered))

/-- A signature that verifies under the loaded secrets is let through. -/
theorem verifyHmac_ok {timestamp header : String} {body : List UInt8} {now : Int}
    {secret : Secret} {previousSecret : Option Secret}
    (hload : t.secrets.loadInboundSigningSecrets lib.decrypt partner.id now =
      .ok (some secret, previousSecret))
    (hverify : verify lib.parseInt lib.digest secret timestamp body header now
      settings.hubInboundTimestampTolerance previousSecret = .ok true) :
    verifyHmac lib settings t partner timestamp body (some header) now = .ok () := by
  simp only [verifyHmac, hload, hverify]

/-- A request that passes every check reaches the limiter. -/
theorem checkRequest_ok {timestamp : String} (hkey : req.idempotencyKey = some idempotencyHeader)
    (hblank : strip idempotencyHeader ≠ "") (hpartner : loadPartner t req.partnerSlug = .ok partner)
    (htime : verifyTimestamp lib req.timestamp req.now settings.hubInboundTimestampTolerance =
      .ok timestamp)
    (hhmac : verifyHmac lib settings t partner timestamp req.rawBody req.signature req.now =
      .ok ())
    (hapi : verifyApiKey lib t partner (parseBearerToken req.authorization) req.authenticatedAt =
      .ok ()) :
    checkRequest lib settings t req = .ok (partner, idempotencyHeader) := by
  simp only [checkRequest, hkey, if_neg hblank, hpartner, htime, hhmac, hapi, bind, Except.bind,
    pure, Except.pure]

theorem readEvent_redis (lib : Libraries) (t : InboundTables) (req : InboundRequest)
    (partner : Partner) (idempotencyHeader : String) (hasRedis : Bool) :
    readEvent lib t req partner idempotencyHeader hasRedis =
      (readEvent lib t req partner idempotencyHeader true).map fun event =>
        { event with redis := hasRedis } := by
  unfold readEvent
  split
  · rfl
  · rfl
  · dsimp only
    split_ifs
    · rfl
    · cases req.correlationId <;> rfl

/-- The limiter leaves the other values alone. -/
theorem limitRequest_values (replies : RedisReplies) (server : InboundRedis) (partner : Partner)
    (now : Time) : ∃ server', (limitRequest replies (some server) partner now).1 = some server' ∧
      server'.values = server.values := ⟨_, rfl, rfl⟩

/-- How an insert ends that PostgreSQL refuses. -/
inductive NotInserted (t : InboundTables) (event : IngestRequest) : Outcome → Prop
  | notStorable : NotInserted t event (.refused (.raised .dataError))
  | expired : NotInserted t event (.refused (.raised .missingGreenlet))
  | conflict : NotInserted t event (.refused (refuse 409 "Idempotency conflict; retry."))
  | duplicate {existing : InboundEvent} (hmem : existing ∈ t.events)
      (hkey : eventKey existing = event.key) : NotInserted t event (.duplicate existing.id)

/-- An insert ends in 202 unless the SET raises, or Redis plays no part in it. -/
theorem insert_cases (lib : Libraries) (replies : RedisReplies) (t : InboundTables)
    (event : IngestRequest) (createdAt : Time) :
    (Inserts lib t event ∧
      (insertEvent lib replies t none event createdAt).outcome = .accepted event.eventId ∧
      ∀ server, (insertEvent lib replies t (some server) event createdAt).outcome =
        if replies.setCached = .answered then .accepted event.eventId else .redisError) ∨
    (¬Inserts lib t event ∧ ∃ outcome, NotInserted t event outcome ∧
      ∀ redis, insertEvent lib replies t redis event createdAt = ⟨outcome, t, redis, false⟩) := by
  by_cases hstorable : lib.storable event.inbound = false
  · refine .inr ⟨fun h => by simp [h.1] at hstorable, _, .notStorable, fun redis => ?_⟩
    simp only [insertEvent, if_pos hstorable]
  by_cases hcollides : ∃ e ∈ t.events, Collides e event.inbound
  · refine .inr ⟨fun h => h.2 hcollides, ?_⟩
    simp only [insertEvent, if_neg hstorable, if_pos hcollides]
    by_cases hreadable : lib.orm.readable false = false
    · exact ⟨_, .expired, fun redis => if_pos hreadable⟩
    · simp only [if_neg hreadable]
      cases hfind : t.events.find? fun e => eventKey e = event.key with
      | none => exact ⟨_, .conflict, fun redis => rfl⟩
      | some existing =>
        have hkey : eventKey existing = event.key := by simpa using List.find?_some hfind
        exact ⟨_, .duplicate (List.mem_of_find?_eq_some hfind) hkey, fun redis => rfl⟩
  · refine .inl ⟨⟨by simpa using hstorable, hcollides⟩, ?_, fun server => ?_⟩
    · simp only [insertEvent, if_neg hstorable, if_neg hcollides, cacheEventId]
      rfl
    · simp only [insertEvent, if_neg hstorable, if_neg hcollides, cacheEventId]
      cases replies.setCached <;> simp

theorem submit_get_raises {executed : Bool} (h : replies.getCached = .raised executed)
    (lib : Libraries) (t : InboundTables) (server : InboundRedis) (event : IngestRequest)
    (createdAt : Time) :
    submitEvent lib replies t (some server) event createdAt =
      ⟨.redisError, t, some server, false⟩ := by
  simp only [submitEvent, getCachedEventId, h]

theorem submit_missing (hget : replies.getCached = .answered)
    (hraw : server.values (idempotencyRedisKey event.partner.id event.idempotencyKey) = none)
    (lib : Libraries) (t : InboundTables) (createdAt : Time) :
    submitEvent lib replies t (some server) event createdAt =
      insertEvent lib replies t (some server) event createdAt := by
  simp only [submitEvent, getCachedEventId, hget, hraw]

/-- What `SurvivesOutage` asks of a request that has reached the look-up of its key. -/
def SubmitSurvives (t : InboundTables) (server : InboundRedis) (event : IngestRequest)
    (result withoutRedis : IngestResult) : Prop :=
  result.outcome ≠ .redisError ∧
    (result.outcome.answer = withoutRedis.outcome.answer ∨
      ∃ eventId, ValidCached t server event eventId ∧ result.outcome = .duplicate eventId) ∧
    (result.committed = true → ∃ eventId, result.outcome = .accepted eventId)

theorem submit_survives_iff (lib : Libraries) (replies : RedisReplies) (t : InboundTables)
    (server : InboundRedis) (event : IngestRequest) (createdAt : Time) :
    SubmitSurvives t server event
        (submitEvent lib replies t (some server) event createdAt)
        (insertEvent lib replies t none event createdAt) ↔
      Undisturbed lib replies t server event := by
  have hinsert := insert_cases lib replies t event createdAt
  cases hget : replies.getCached with
  | raised executed =>
    simp [SubmitSurvives, Undisturbed, submit_get_raises hget, hget]
  | answered =>
    cases hraw : server.values (idempotencyRedisKey event.partner.id event.idempotencyKey) with
    | none =>
      have hresult := submit_missing hget hraw lib t createdAt
      rcases hinsert with ⟨hok, hnone, hsome⟩ | ⟨hnot, outcome, houtcome, hall⟩
      · by_cases hset : replies.setCached = .answered
        · simp [SubmitSurvives, Undisturbed, ValidCached, hresult, hget, hraw, hnone, hsome, hset]
        · simp [SubmitSurvives, Undisturbed, ValidCached, hresult, hget, hraw, hok, hsome, hset]
      · have hne : outcome ≠ .redisError := by
          rintro rfl
          cases houtcome
        simp [SubmitSurvives, Undisturbed, ValidCached, hresult, hget, hraw, hnot, hall, hne]
    | some raw =>
      cases hparse : Uuid.parse raw with
      | none =>
        have hresult : submitEvent lib replies t (some server) event createdAt =
            ⟨.refused (.raised .valueError), t, some server, false⟩ := by
          simp only [submitEvent, getCachedEventId, hget, hraw, hparse]
        have hvalue : (insertEvent lib replies t none event createdAt).outcome.answer ≠
            .error (some .valueError) := by
          rcases hinsert with ⟨-, hnone, -⟩ | ⟨-, outcome, houtcome, hall⟩
          · simp [hnone, Outcome.answer]
          · rw [hall]
            cases houtcome <;> simp [Outcome.answer, refuse]
        have hanswer : (Outcome.refused (.raised .valueError)).answer =
            .error (some .valueError) := rfl
        simp [SubmitSurvives, Undisturbed, ValidCached, hresult, hget, hraw, hparse, hanswer,
          hvalue.symm]
      | some eventId =>
        have hresult : submitEvent lib replies t (some server) event createdAt =
            ⟨.duplicate eventId, t, some server, false⟩ := by
          simp only [submitEvent, getCachedEventId, hget, hraw, hparse]
        have hstored : (insertEvent lib replies t none event createdAt).outcome.answer =
            .ok (200, some eventId) → ∃ e ∈ t.events, eventKey e = event.key ∧ e.id = eventId := by
          intro h
          rcases hinsert with ⟨-, hnone, -⟩ | ⟨-, outcome, houtcome, hall⟩
          · simp [hnone, Outcome.answer] at h
          · rw [hall] at h
            cases houtcome with
            | @duplicate existing hmem hkey =>
              have hid : existing.id = eventId := by simpa [Outcome.answer] using h
              exact ⟨existing, hmem, hkey, hid⟩
            | _ => simp [Outcome.answer, refuse] at h
        have hvalid : Undisturbed lib replies t server event ↔
            ∃ e ∈ t.events, eventKey e = event.key ∧ e.id = eventId := by
          simp [Undisturbed, ValidCached, hget, hraw, hparse]
        rw [hvalid]
        constructor
        · rintro ⟨-, hsame | ⟨eventId', ⟨hcached, hexists⟩, hdup⟩, -⟩
          · rw [hresult] at hsame
            exact hstored hsame.symm
          · rw [hresult] at hdup
            obtain rfl := Outcome.duplicate.inj hdup
            exact hexists
        · intro hexists
          refine ⟨by simp [hresult], .inr ⟨eventId, ⟨?_, hexists⟩, by rw [hresult]⟩, ?_⟩
          · rw [hraw, Option.bind_some, hparse]
          · simp [hresult]

/-- The buckets do not matter any more. -/
theorem undisturbed_values {server' : InboundRedis} (h : server'.values = server.values) :
    Undisturbed lib replies t server' event ↔ Undisturbed lib replies t server event := by
  simp only [Undisturbed, ValidCached, h]

theorem submitSurvives_values {server' : InboundRedis} (h : server'.values = server.values)
    {result withoutRedis : IngestResult} :
    SubmitSurvives t server' event result withoutRedis ↔
      SubmitSurvives t server event result withoutRedis := by
  simp only [SubmitSurvives, ValidCached, h]

theorem ingest_refused (replies : RedisReplies) (redis : Option InboundRedis) {r : Refusal}
    (hcheck : checkRequest lib settings t req = .error r) :
    ingestEvent lib settings replies t redis req = ⟨.refused r, t, redis, false⟩ := by
  simp only [ingestEvent, hcheck]

theorem ingest_limited
    (hcheck : checkRequest lib settings t req = .ok (partner, idempotencyHeader))
    (hlimited : (limitRequest replies (some server) partner req.limitedAt).2 = false) :
    ∃ redis, ingestEvent lib settings replies t (some server) req =
      ⟨.refused (refuse 429 "Rate limit exceeded."), t, redis, false⟩ := by
  simp only [ingestEvent, hcheck, hlimited, if_true]
  exact ⟨_, rfl⟩

/-- Past the limiter the body is read and the event submitted, with the same values in Redis. -/
theorem ingest_admitted
    (hcheck : checkRequest lib settings t req = .ok (partner, idempotencyHeader))
    (hallowed : (limitRequest replies (some server) partner req.limitedAt).2 = true) :
    ∃ server', server'.values = server.values ∧
      ingestEvent lib settings replies t (some server) req =
        match readEvent lib t req partner idempotencyHeader true with
        | .error r => ⟨.refused r, t, some server', false⟩
        | .ok event => submitEvent lib replies t (some server') event req.committedAt := by
  obtain ⟨server', hserver, hvalues⟩ := limitRequest_values replies server partner req.limitedAt
  refine ⟨server', hvalues, ?_⟩
  simp only [ingestEvent, hcheck, hallowed, hserver, Bool.true_eq_false, if_false,
    Option.isSome_some]

/-- Without Redis nobody is turned away, nothing is looked up and nothing is cached. -/
theorem ingest_without_redis (replies : RedisReplies)
    (hcheck : checkRequest lib settings t req = .ok (partner, idempotencyHeader)) :
    ingestEvent lib settings replies t none req =
      match readEvent lib t req partner idempotencyHeader true with
      | .error r => ⟨.refused r, t, none, false⟩
      | .ok event => insertEvent lib replies t none event req.committedAt := by
  have hlimit : limitRequest replies none partner req.limitedAt = (none, true) := rfl
  simp only [ingestEvent, hcheck, hlimit, Bool.true_eq_false, if_false, Option.isSome_none]
  rw [readEvent_redis]
  cases readEvent lib t req partner idempotencyHeader true <;> rfl

end Answers

/-- Inbound survives a Redis outage exactly as far as the request does not meet one at its
idempotency key: the two helpers behind the GET and the SET catch no `RedisError`. -/
theorem survives_outage_iff (lib : Libraries) (settings : InboundSettings)
    (replies : RedisReplies) (t : InboundTables) (server : InboundRedis) (req : InboundRequest) :
    SurvivesOutage lib settings replies t server req ↔
      ∀ event, Reaches lib settings replies t server req event →
        Undisturbed lib replies t server event := by
  cases hcheck : checkRequest lib settings t req with
  | error r =>
    have hsome := ingest_refused replies (some server) hcheck
    have hnone := ingest_refused replies none hcheck
    refine iff_of_true ⟨by simp [hsome], fun _ => .inl (by rw [hsome, hnone]), ?_⟩ ?_
    · simp [hsome]
    · rintro event ⟨partner, header, hok, -⟩
      rw [hcheck] at hok
      cases hok
  | ok x =>
    obtain ⟨partner, header⟩ := x
    have hreaches : ∀ event, Reaches lib settings replies t server req event ↔
        (limitRequest replies (some server) partner req.limitedAt).2 = true ∧
          readEvent lib t req partner header true = .ok event := by
      intro event
      constructor
      · rintro ⟨partner', header', hok, hrest⟩
        obtain ⟨rfl, rfl⟩ := Prod.mk.inj (Except.ok.inj (hcheck.symm.trans hok))
        exact hrest
      · exact fun hrest => ⟨partner, header, hcheck, hrest⟩
    by_cases hallowed : (limitRequest replies (some server) partner req.limitedAt).2 = true
    swap
    · obtain ⟨redis, hsome⟩ := ingest_limited hcheck (Bool.eq_false_of_not_eq_true hallowed)
      refine iff_of_true ⟨by simp [hsome], fun hadmitted => ?_, by simp [hsome]⟩ ?_
      · exact absurd (hadmitted partner header hcheck) hallowed
      · intro event hevent
        exact absurd ((hreaches event).mp hevent).1 hallowed
    obtain ⟨server', hvalues, hsome⟩ := ingest_admitted hcheck hallowed
    have hnone := ingest_without_redis replies hcheck
    cases hread : readEvent lib t req partner header true with
    | error r =>
      simp only [hread] at hsome hnone
      refine iff_of_true ⟨by simp [hsome], fun _ => .inl (by rw [hsome, hnone]), ?_⟩ ?_
      · simp [hsome]
      · intro event hevent
        have hok := ((hreaches event).mp hevent).2
        rw [hread] at hok
        cases hok
    | ok event =>
      simp only [hread] at hsome hnone
      have hone : ∀ event', Reaches lib settings replies t server req event' ↔ event' = event := by
        intro event'
        rw [hreaches, hread, Except.ok.injEq]
        exact ⟨fun h => h.2.symm, fun h => ⟨hallowed, h.symm⟩⟩
      have hsubmit := submit_survives_iff lib replies t server' event req.committedAt
      rw [undisturbed_values hvalues, submitSurvives_values hvalues] at hsubmit
      simp only [hone, forall_eq]
      rw [← hsubmit]
      constructor
      · intro h
        rw [SubmitSurvives, ← hsome]
        refine ⟨h.escapes, ?_, h.committed⟩
        have hadmitted : Admitted lib settings replies t server req := by
          intro partner' header' hok
          obtain ⟨rfl, rfl⟩ := Prod.mk.inj (Except.ok.inj (hcheck.symm.trans hok))
          exact hallowed
        rcases h.answers hadmitted with hsame | ⟨event', eventId, hreach, hvalid, hdup⟩
        · rw [hnone] at hsame
          exact .inl hsame
        · obtain rfl := (hone event').mp hreach
          exact .inr ⟨eventId, hvalid, hdup⟩
      · rw [SubmitSurvives, ← hsome]
        rintro ⟨hescapes, hanswers, hcommitted⟩
        refine ⟨hescapes, fun _ => ?_, hcommitted⟩
        rw [hnone]
        rcases hanswers with hsame | ⟨eventId, hvalid, hdup⟩
        · exact .inl hsame
        · exact .inr ⟨event, eventId, (hone event).mpr rfl, hvalid, hdup⟩

/-- HMAC-SHA256, Fernet and argon2 are replaced by the plainest functions with their types. -/
def plainLibraries : Libraries where
  parseInt := fun text => if text = "100" then some 100 else none
  digest := fun key message => key ++ message
  decrypt := some
  verifyHash := fun hash key => hash = key
  limits := ⟨1000, 4300⟩
  dump := fun _ => ⟨"\x7b\x7d"⟩
  validates := fun _ _ => true
  storable := fun _ => true
  orm := .expire

def acme : Partner := ⟨1, 1, "acme", .active, 60, 10, false⟩

def acmeTables : InboundTables where
  hub := { partners := [acme] }
  secrets := { SecretStore.init with rows := [⟨1, 1, [1], 1, .primary, 0, none⟩] }
  apiKeys := [⟨1, 1, "key", "key", [inboundWriteScope], none, none⟩]
  events := []

def orderBody : List UInt8 :=
  ("\x7b\"event_type\":\"order.created\",\"payload\":\x7b\x7d\x7d".toList).map fun c =>
    c.toNat.toUInt8

def orderRequest : InboundRequest where
  partnerSlug := "acme"
  rawBody := orderBody
  authorization := some "Bearer key"
  signature := some (sign plainLibraries.digest [1] "100" orderBody)
  timestamp := some "100"
  idempotencyKey := some "order-1"
  correlationId := some "c"
  now := 100
  authenticatedAt := 100
  limitedAt := 100
  receivedAt := 100
  committedAt := 100
  eventId := 7

theorem order_time :
    verifyTimestamp plainLibraries (some "100") 100 300 = .ok "100" := by
  have hparsed : plainLibraries.parseInt "100" = some 100 := by simp [plainLibraries]
  simp only [verifyTimestamp, hparsed]
  exact if_neg (by decide)

theorem order_hmac : verifyHmac plainLibraries {} acmeTables acme "100" orderBody
    (some (sign plainLibraries.digest [1] "100" orderBody)) 100 = .ok () := by
  have hparsed : plainLibraries.parseInt "100" = some 100 := by simp [plainLibraries]
  have hload : ∀ now, acmeTables.secrets.loadInboundSigningSecrets plainLibraries.decrypt acme.id
      now = .ok (some [1], none) := fun now => rfl
  exact verifyHmac_ok (hload _) (verify_own_signature hparsed (by decide) (.inl rfl))

theorem order_checked :
    checkRequest plainLibraries {} acmeTables orderRequest = .ok (acme, "order-1") := by
  have hpartner : loadPartner acmeTables "acme" = .ok acme := by
    simp [loadPartner, acmeTables, acme]
  have hbearer : parseBearerToken (some "Bearer key") = some "key" := by decide
  have hapi : verifyApiKey plainLibraries acmeTables acme
      (parseBearerToken (some "Bearer key")) 100 = .ok () := by
    rw [hbearer]
    simp [verifyApiKey, plainLibraries, acmeTables, acme, extractPrefix]
  exact checkRequest_ok rfl (by decide) hpartner order_time order_hmac hapi

theorem order_read (eventId : Uuid) :
    ∃ event, readEvent plainLibraries acmeTables { orderRequest with eventId := eventId } acme
      "order-1" true = .ok event := by
  have hparsed : (parseEventBody ⟨1000, 4300⟩ orderBody).toOption.isSome = true := by
    decide +kernel
  cases hbody : parseEventBody ⟨1000, 4300⟩ orderBody with
  | error e =>
    rw [hbody] at hparsed
    cases hparsed
  | ok body =>
    have hvalid : ∀ eventType payload, validatePayload plainLibraries.validates eventType payload
        (acmeTables.hub.fetchLatestActiveSchema eventType) = true := fun eventType payload => rfl
    have hlib : parseEventBody plainLibraries.limits orderRequest.rawBody = .ok body := hbody
    simp only [readEvent, hlib, hvalid, Bool.true_eq_false, if_false]
    exact ⟨_, rfl⟩

theorem order_allowed (getCached setCached : Reply) (values : String → Option String) :
    (limitRequest ⟨fun _ => .answered, getCached, setCached⟩ (some ⟨fun _ => {}, values⟩) acme
      orderRequest.limitedAt).2 = true := by
  simp [limitRequest, allowRequestUnder, RateLimit.settle, RateLimit.storeUnder, acme]

/-- A `RedisError` at the look-up escapes; one at the SET escapes after the commit. -/
theorem redis_error_escapes :
    ¬SurvivesOutage plainLibraries {} ⟨fun _ => .answered, .raised false, .answered⟩ acmeTables
        ⟨fun _ => {}, fun _ => none⟩ orderRequest ∧
      ¬SurvivesOutage plainLibraries {} ⟨fun _ => .answered, .answered, .raised false⟩ acmeTables
        ⟨fun _ => {}, fun _ => none⟩ orderRequest := by
  obtain ⟨event, hevent⟩ : ∃ event,
      readEvent plainLibraries acmeTables orderRequest acme "order-1" true = .ok event := order_read 7
  have hallowed := fun getCached setCached => order_allowed getCached setCached fun _ => none
  constructor
  · intro h
    obtain ⟨server', -, hresult⟩ := ingest_admitted order_checked (hallowed (.raised false) .answered)
    apply h.escapes
    rw [hresult]
    simp only [hevent]
    rw [submit_get_raises rfl]
  · intro h
    obtain ⟨server', hvalues, hresult⟩ :=
      ingest_admitted order_checked (hallowed .answered (.raised false))
    apply h.escapes
    rw [hresult]
    simp only [hevent]
    rw [submit_missing rfl (by rw [hvalues])]
    rcases insert_cases plainLibraries ⟨fun _ => .answered, .answered, .raised false⟩ acmeTables
      event orderRequest.committedAt with ⟨-, -, hsome⟩ | ⟨hnot, -⟩
    · rw [hsome]
      exact if_neg (by decide)
    · exact absurd ⟨rfl, by simp [acmeTables]⟩ hnot

end PartnerHub.Inbound
