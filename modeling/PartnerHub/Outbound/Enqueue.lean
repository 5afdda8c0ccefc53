import PartnerHub.Domain.Text
import PartnerHub.Outbound.Operations

/-!
# Enqueueing an outbound event

`enqueue_outbound_for_event` with its process-local look-up cache
(`accept_path_cache.py`), and the administrative writes that change what it sees. Every
API process has a cache of its own, which only the writes it serves itself invalidate.
The JSON-Schema validator is a parameter, and so is what becomes of loaded rows when the
session rolls back.
-/
namespace PartnerHub.Outbound

open PartnerHub.Domain PartnerHub.Lib

/-- `DEFAULT_TTL_SECONDS`. -/
def defaultTtlSeconds : Time := 30

/-- An entry of the cache with its expiry on the monotonic clock. -/
abbrev CacheEntry (β : Type) := Option (Time × β)

/-- `_cache`, by the three families of keys; a schema entry may hold its absence. -/
structure AcceptPathCache where
  partners : Uuid → CacheEntry Partner
  schemas : String → CacheEntry (Option PayloadSchema)
  endpoints : Nat → String → CacheEntry (List PartnerEndpoint)

def AcceptPathCache.empty : AcceptPathCache := ⟨fun _ => none, fun _ => none, fun _ _ => none⟩

/-- `cache_get`. -/
def cacheGet {β : Type} (now : Time) : CacheEntry β → Option β
  | none => none
  | some (expiresAt, value) => if expiresAt ≤ now then none else some value

/-- `cache_set`. -/
def cacheSet {β : Type} (now : Time) (value : β) : CacheEntry β :=
  some (now + defaultTtlSeconds, value)

def Tables.fetchPartnerByPublicId (t : Tables) (publicId : Uuid) : Option Partner :=
  t.partners.find? fun p => p.publicId = publicId

/-- `fetch_latest_active_schema`. -/
def Tables.fetchLatestActiveSchema (t : Tables) (eventType : String) : Option PayloadSchema :=
  ((t.schemas.filter fun s => s.eventType = eventType ∧ s.status = .active).insertionSort
    fun a b => b.version ≤ a.version).head?

def Tables.fetchActiveOutboundEndpoints (t : Tables) (partnerId : Nat) (eventType : String) :
    List PartnerEndpoint :=
  t.endpoints.filter fun e =>
    e.partnerId = partnerId ∧ e.direction = .outbound ∧ e.status = .active ∧
      eventType ∈ e.eventTypes

def Tables.fetchDeliveriesBySourceEventId (t : Tables) (partnerId : Nat) (sourceEventId : String) :
    List Delivery :=
  t.deliveries.filter fun d => d.partnerId = partnerId ∧ d.sourceEventId = some sourceEventId

def Tables.fetchDeliveryByIdempotency (t : Tables) (partnerId : Nat) (idempotencyKey : String) :
    Option Delivery :=
  t.deliveries.find? fun d => d.partnerId = partnerId ∧ d.idempotencyKey = idempotencyKey

/-- `validate_payload`: no row, a deprecated row or a row of another type accepts. -/
def validatePayload (validates : PayloadSchema → Payload → Bool) (eventType : String)
    (payload : Payload) : Option PayloadSchema → Bool
  | none => true
  | some row =>
    if row.status ≠ .active then true
    else if row.eventType ≠ eventType then true
    else validates row payload

/-- The partner a call works with: the cached one, else the stored one. -/
def seenPartner (t : Tables) (c : AcceptPathCache) (now : Time) (publicId : Uuid) :
    Option Partner :=
  (cacheGet now (c.partners publicId)).or (t.fetchPartnerByPublicId publicId)

def seenSchema (t : Tables) (c : AcceptPathCache) (now : Time) (eventType : String) :
    Option PayloadSchema :=
  (cacheGet now (c.schemas eventType)).getD (t.fetchLatestActiveSchema eventType)

def seenEndpoints (t : Tables) (c : AcceptPathCache) (now : Time) (partnerId : Nat)
    (eventType : String) : List PartnerEndpoint :=
  (cacheGet now (c.endpoints partnerId eventType)).getD
    (t.fetchActiveOutboundEndpoints partnerId eventType)

/-- The cache after each look-up: what was not found there is stored. -/
def AcceptPathCache.withPartner (c : AcceptPathCache) (t : Tables) (now : Time) (publicId : Uuid) :
    AcceptPathCache :=
  match cacheGet now (c.partners publicId), t.fetchPartnerByPublicId publicId with
  | none, some p => { c with partners := Function.update c.partners publicId (cacheSet now p) }
  | _, _ => c

def AcceptPathCache.withSchema (c : AcceptPathCache) (t : Tables) (now : Time)
    (eventType : String) : AcceptPathCache :=
  match cacheGet now (c.schemas eventType) with
  | none =>
    { c with
      schemas := Function.update c.schemas eventType
        (cacheSet now (t.fetchLatestActiveSchema eventType)) }
  | some _ => c

def AcceptPathCache.withEndpoints (c : AcceptPathCache) (t : Tables) (now : Time)
    (partnerId : Nat) (eventType : String) : AcceptPathCache :=
  match cacheGet now (c.endpoints partnerId eventType) with
  | none =>
    { c with
      endpoints := Function.update c.endpoints partnerId
        (Function.update (c.endpoints partnerId) eventType
          (cacheSet now (t.fetchActiveOutboundEndpoints partnerId eventType))) }
  | some _ => c

inductive EnqueueStatus where
  | accepted | duplicate
  deriving DecidableEq, Repr

/-- `OutboundEventAcceptedResponse` and `OutboundEventDuplicateResponse`. -/
structure EnqueueResponse where
  deliveryId : Uuid
  deliveryIds : List Uuid
  status : EnqueueStatus
  deriving DecidableEq, Repr

/-- A response names its first delivery besides all of them. -/
def responseFor (status : EnqueueStatus) (first : Delivery) (rest : List Delivery) :
    EnqueueResponse :=
  { deliveryId := first.publicId, deliveryIds := (first :: rest).map (·.publicId), status := status }

/-- What a rollback does to the rows its session has loaded. SQLAlchemy expires them, and
a column of an expired row that is read outside an awaited call raises `MissingGreenlet`. -/
inductive LoadedRows where
  | expire
  | stay
  deriving DecidableEq, Repr

/-- A row can be read after a rollback: it is a copy from the cache, which belongs to no
session, or the session keeps what it loaded. -/
def LoadedRows.readable (orm : LoadedRows) (cached : Bool) : Bool :=
  cached || orm = .stay

/-- The answer after an `IntegrityError` and the rollback: the deliveries with the caller's
key, else the one with the first derived key. The first look-up reads the partner again,
the second the first endpoint. -/
def answerConflict (partnerReadable endpointsReadable : Bool) (t : Tables) (partner : Partner)
    (endpoints : List PartnerEndpoint) (clientKey : String) : Except HubError EnqueueResponse :=
  if partnerReadable = false then .error .missingGreenlet
  else
    match t.fetchDeliveriesBySourceEventId partner.id clientKey with
    | first :: rest => .ok (responseFor .duplicate first rest)
    | [] =>
      if endpointsReadable = false then .error .missingGreenlet
      else
        match endpoints.head?.bind fun e =>
            t.fetchDeliveryByIdempotency partner.id (derivedIdempotencyKey clientKey e.id) with
        | none => .error .idempotencyConflict
        | some d => .ok (responseFor .duplicate d [])

/-- An answer after an `IntegrityError` is a duplicate or an error. -/
theorem answerConflict_duplicate {partnerReadable endpointsReadable : Bool} {t : Tables}
    {partner : Partner} {endpoints : List PartnerEndpoint} {key : String}
    {response : EnqueueResponse}
    (h : answerConflict partnerReadable endpointsReadable t partner endpoints key =
      .ok response) : response.status = .duplicate := by
  unfold answerConflict at h
  split at h
  · cases h
  split at h
  · cases h
    rfl
  split at h
  · cases h
  split at h
  · cases h
  · cases h
    rfl

/-- Build the deliveries, insert them with their outbox rows, answer. -/
def Db.persistAndAnswer (db : Db) (partnerReadable endpointsReadable : Bool) (partner : Partner)
    (endpoints : List PartnerEndpoint) (req : EnqueueRequest) :
    Db × Except HubError EnqueueResponse :=
  match db.acceptEvent partner endpoints req with
  | .error (.valueError message) => (db, .error (.valueError message))
  | .error .dataError => (db, .error .dataError)
  | .error (.integrity _) =>
    (db, answerConflict partnerReadable endpointsReadable db.tables partner endpoints
      req.idempotencyKey)
  | .ok db' =>
    match createdDeliveries partner endpoints req with
    | [] => (db', .error (.valueError "deliveries must not be empty"))
    | first :: rest => (db', .ok (responseFor .accepted first rest))

/-- What one look-up returned, and whether the cache had it. -/
structure Seen (β : Type) where
  value : β
  cached : Bool

/-- The checks of `enqueue_outbound_for_event` on what its look-ups returned. -/
def Db.enqueueSeen (validates : PayloadSchema → Payload → Bool) (orm : LoadedRows) (db : Db)
    (partner : Seen (Option Partner)) (schema : Option PayloadSchema)
    (endpoints : Nat → Seen (List PartnerEndpoint)) (req : EnqueueRequest) :
    Db × Except HubError EnqueueResponse :=
  match partner.value with
  | none => (db, .error .partnerNotFound)
  | some p =>
    if p.status ≠ .active then (db, .error .partnerInactive)
    else if validatePayload validates req.eventType req.payload schema = false then
      (db, .error .schemaValidationFailed)
    else if (endpoints p.id).value = [] then (db, .error (.noActiveEndpoint req.eventType))
    else
      db.persistAndAnswer (orm.readable partner.cached) (orm.readable (endpoints p.id).cached) p
        (endpoints p.id).value req

/-- The partner comes from the cache. -/
def partnerCached (c : AcceptPathCache) (now : Time) (publicId : Uuid) : Bool :=
  (cacheGet now (c.partners publicId)).isSome

def endpointsCached (c : AcceptPathCache) (now : Time) (partnerId : Nat) (eventType : String) :
    Bool :=
  (cacheGet now (c.endpoints partnerId eventType)).isSome

/-- `enqueue_outbound_for_event` in a process with cache `c` at monotonic time `now`. -/
def Db.enqueueOutboundForEvent (validates : PayloadSchema → Payload → Bool) (orm : LoadedRows)
    (db : Db) (c : AcceptPathCache) (now : Time) (req : EnqueueRequest) :
    Db × Except HubError EnqueueResponse :=
  db.enqueueSeen validates orm
    ⟨seenPartner db.tables c now req.partnerId, partnerCached c now req.partnerId⟩
    (seenSchema db.tables c now req.eventType)
    (fun partnerId => ⟨seenEndpoints db.tables c now partnerId req.eventType,
      endpointsCached c now partnerId req.eventType⟩) req

/-- The look-ups a call gets to, as they leave the cache. -/
def AcceptPathCache.afterEnqueue (validates : PayloadSchema → Payload → Bool)
    (c : AcceptPathCache) (t : Tables) (now : Time) (req : EnqueueRequest) : AcceptPathCache :=
  let c₁ := c.withPartner t now req.partnerId
  match seenPartner t c now req.partnerId with
  | none => c₁
  | some p =>
    if p.status ≠ .active then c₁
    else
      let c₂ := c₁.withSchema t now req.eventType
      if validatePayload validates req.eventType req.payload (seenSchema t c now req.eventType) =
        false then c₂
      else c₂.withEndpoints t now p.id req.eventType

/-- `invalidate_partner_endpoints`. -/
def AcceptPathCache.invalidatePartnerEndpoints (c : AcceptPathCache) (partnerId : Nat) :
    AcceptPathCache :=
  { c with endpoints := Function.update c.endpoints partnerId fun _ => none }

/-- `invalidate_partner`: the endpoints go too when the partner is cached, expired or not. -/
def AcceptPathCache.invalidatePartner (c : AcceptPathCache) (publicId : Uuid) : AcceptPathCache :=
  let dropped := { c with partners := Function.update c.partners publicId none }
  match c.partners publicId with
  | none => dropped
  | some (_, p) => dropped.invalidatePartnerEndpoints p.id

def AcceptPathCache.invalidateSchema (c : AcceptPathCache) (eventType : String) :
    AcceptPathCache :=
  { c with schemas := Function.update c.schemas eventType none }

/-- The body of `update_partner`. -/
structure PartnerUpdate where
  status : Option PartnerStatus
  slaSeconds : Option Nat
  rateLimitRps : Option Int
  autoReplayEnabled : Option Bool

def PartnerUpdate.apply (u : PartnerUpdate) (p : Partner) : Partner :=
  { p with
    status := u.status.getD p.status
    slaSeconds := u.slaSeconds.getD p.slaSeconds
    rateLimitRps := u.rateLimitRps.getD p.rateLimitRps
    autoReplayEnabled := u.autoReplayEnabled.getD p.autoReplayEnabled }

/-- The body of `update_endpoint`. -/
structure EndpointUpdate where
  status : Option EndpointStatus
  url : Option String
  eventTypes : Option (List String)
  slaSeconds : Option Nat

def EndpointUpdate.apply (u : EndpointUpdate) (e : PartnerEndpoint) : PartnerEndpoint :=
  { e with
    status := u.status.getD e.status
    url := u.url.getD e.url
    eventTypes := u.eventTypes.getD e.eventTypes
    slaSeconds := u.slaSeconds.or e.slaSeconds }

/-- The administrative writes that concern the accept path, with the ids the database
and `generate_uuidv7` assign. -/
inductive AdminWrite where
  | createPartner (p : Partner)
  | updatePartner (publicId : Uuid) (body : PartnerUpdate)
  | createEndpoint (partner : Uuid) (e : PartnerEndpoint)
  | updateEndpoint (id : Uuid) (body : EndpointUpdate)
  | createPayloadSchema (s : PayloadSchema)

/-- The tables after an administrative write; one that is refused changes nothing. -/
def Tables.admin (t : Tables) : AdminWrite → Tables
  | .createPartner p =>
    if ∃ q ∈ t.partners, q.id = p.id ∨ q.publicId = p.publicId ∨ q.slug = p.slug then t
    else { t with partners := t.partners ++ [p] }
  | .updatePartner i body =>
    { t with partners := Table.modify (·.publicId) i body.apply t.partners }
  | .createEndpoint i e =>
    match t.fetchPartnerByPublicId i with
    | none => t
    | some p =>
      if ∃ f ∈ t.endpoints, f.id = e.id then t
      else { t with
        endpoints := t.endpoints ++
          [{ e with partnerId := p.id, status := .active, retryOnStatusCodes := [] }] }
  | .updateEndpoint i body =>
    { t with endpoints := Table.modify (·.id) i body.apply t.endpoints }
  | .createPayloadSchema s =>
    if ∃ r ∈ t.schemas, r.eventType = s.eventType ∧ r.version = s.version then t
    else { t with schemas := t.schemas ++ [{ s with status := .active }] }

/-- The cache of the process that served the write. -/
def AcceptPathCache.afterAdmin (c : AcceptPathCache) (t : Tables) : AdminWrite → AcceptPathCache
  | .createPartner p => c.invalidatePartner p.publicId
  | .updatePartner i _ => c.invalidatePartner i
  | .createEndpoint i _ =>
    match t.fetchPartnerByPublicId i with
    | none => c
    | some p => c.invalidatePartnerEndpoints p.id
  | .updateEndpoint i _ =>
    match t.endpoints.find? fun e => e.id = i with
    | none => c
    | some e => c.invalidatePartnerEndpoints e.partnerId
  | .createPayloadSchema s => c.invalidateSchema s.eventType

/-- What an administrative write keeps: every partner and every endpoint stays, with its
identity. -/
structure Administers (t t' : Tables) : Prop where
  partners : ∀ p ∈ t.partners, ∃ q ∈ t'.partners, q.id = p.id ∧ q.publicId = p.publicId
  partner_ids : (t.partners.map (·.id)).Nodup → (t'.partners.map (·.id)).Nodup
  partner_publicIds : (t.partners.map (·.publicId)).Nodup → (t'.partners.map (·.publicId)).Nodup
  endpoints : ∀ e ∈ t.endpoints, ∃ f ∈ t'.endpoints, f.id = e.id
  endpoint_ids : (t.endpoints.map (·.id)).Nodup → (t'.endpoints.map (·.id)).Nodup
  frame : t' = { t with
    partners := t'.partners, endpoints := t'.endpoints, schemas := t'.schemas }

theorem Administers.refl (t : Tables) : Administers t t :=
  ⟨fun p hp => ⟨p, hp, rfl, rfl⟩, id, id, fun e he => ⟨e, he, rfl⟩, id, rfl⟩

theorem nodup_map_snoc {ρ κ : Type*} {g : ρ → κ} {l : List ρ} {r : ρ} (hl : (l.map g).Nodup)
    (hr : ∀ x ∈ l, g x ≠ g r) : ((l ++ [r]).map g).Nodup := by
  rw [List.map_append, List.nodup_append]
  refine ⟨hl, List.nodup_singleton _, ?_⟩
  intro a ha b hb
  obtain ⟨x, hx, rfl⟩ := List.mem_map.mp ha
  rw [List.map_singleton, List.mem_singleton] at hb
  rw [hb]
  exact hr x hx

theorem admin_administers (t : Tables) (w : AdminWrite) : Administers t (t.admin w) := by
  cases w with
  | createPartner p =>
    simp only [Tables.admin]
    split
    · exact .refl t
    · rename_i hnew
      push Not at hnew
      exact ⟨fun q hq => ⟨q, List.mem_append_left _ hq, rfl, rfl⟩,
        fun hn => nodup_map_snoc hn fun q hq => (hnew q hq).1,
        fun hn => nodup_map_snoc hn fun q hq => (hnew q hq).2.1,
        fun e he => ⟨e, he, rfl⟩, id, rfl⟩
  | updatePartner i body =>
    have hid := Table.map_modify (·.publicId) i body.apply (·.id) t.partners fun _ => rfl
    have hpub := Table.map_modify (·.publicId) i body.apply (·.publicId) t.partners fun _ => rfl
    refine ⟨?_, fun hn => hid ▸ hn, fun hn => hpub ▸ hn, fun e he => ⟨e, he, rfl⟩, id, rfl⟩
    intro p hp
    by_cases he : p.publicId = i
    · exact ⟨_, Table.mem_modify_of_eq hp he, rfl, rfl⟩
    · exact ⟨_, Table.mem_modify_of_ne hp he, rfl, rfl⟩
  | createEndpoint i e =>
    simp only [Tables.admin]
    split
    · exact .refl t
    · split
      · exact .refl t
      · rename_i hnew
        push Not at hnew
        exact ⟨fun q hq => ⟨q, hq, rfl, rfl⟩, id, id,
          fun f hf => ⟨f, List.mem_append_left _ hf, rfl⟩, fun hn => nodup_map_snoc hn hnew, rfl⟩
  | updateEndpoint i body =>
    have hid := Table.map_modify (·.id) i body.apply (·.id) t.endpoints fun _ => rfl
    refine ⟨fun q hq => ⟨q, hq, rfl, rfl⟩, id, id, ?_, fun hn => hid ▸ hn, rfl⟩
    intro e he
    by_cases hi : e.id = i
    · exact ⟨_, Table.mem_modify_of_eq he hi, rfl⟩
    · exact ⟨_, Table.mem_modify_of_ne he hi, rfl⟩
  | createPayloadSchema s =>
    simp only [Tables.admin]
    split
    · exact .refl t
    · exact ⟨fun q hq => ⟨q, hq, rfl, rfl⟩, id, id, fun e he => ⟨e, he, rfl⟩, id, rfl⟩

theorem Tables.Consistent.admin {t t' : Tables} (h : t.Consistent) (ha : Administers t t') :
    t'.Consistent := by
  rw [ha.frame]
  exact
    { h with
      delivery_partner := by
        intro d hd
        obtain ⟨p, hp, hid⟩ := h.delivery_partner d hd
        obtain ⟨q, hq, hqid, -⟩ := ha.partners p hp
        exact ⟨q, hq, hqid.trans hid⟩
      delivery_endpoint := by
        intro d hd
        obtain ⟨e, he, hid⟩ := h.delivery_endpoint d hd
        obtain ⟨f, hf, hfid⟩ := ha.endpoints e he
        exact ⟨f, hf, hfid.trans hid⟩ }

def Db.admin (db : Db) (w : AdminWrite) : Db :=
  ⟨db.tables.admin w, db.consistent.admin (admin_administers db.tables w)⟩

end PartnerHub.Outbound
