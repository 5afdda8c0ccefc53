import PartnerHub.Lib.ExpiringCache
import PartnerHub.Outbound.StrictDuplicate

/-!
# The accept path with its dictionaries

`_cache` of `accept_path_cache.py` is one dictionary whose string keys fall into three
families and whose values are hand-written copies of rows; `_VALIDATORS` of
`schema_registry.py` keeps validators by the id and version of their row. Here
`enqueue_outbound_for_event` runs on these dictionaries, with a reading of the monotonic
clock for every access.
-/
namespace PartnerHub.Outbound

open PartnerHub.Domain PartnerHub.Lib

/-- The values of `_cache`; `schemaAbsent` is the `_SCHEMA_ABSENT` object. -/
inductive Cached where
  | partner (p : Partner)
  | endpoints (es : List PartnerEndpoint)
  | schema (row : PayloadSchema)
  | schemaAbsent

/-- `_cache`. -/
abbrev CacheDict := ExpiringCache String Time Cached

def partnerCacheKey (publicId : Uuid) : String := "partner:" ++ Uuid.text publicId

def endpointsCacheKey (partnerId : Nat) (eventType : String) : String :=
  "endpoints:" ++ (Nat.repr partnerId ++ ":" ++ eventType)

def schemaCacheKey (eventType : String) : String := "schema:" ++ eventType

/-- The copies leave out the signing secret and the time stamps of a row, which the accept
path does not read. -/
def copyPartner (partner : Partner) : Partner where
  id := partner.id
  publicId := partner.publicId
  slug := partner.slug
  status := partner.status
  slaSeconds := partner.slaSeconds
  rateLimitRps := partner.rateLimitRps
  autoReplayEnabled := partner.autoReplayEnabled

def copyEndpoint (endpoint : PartnerEndpoint) : PartnerEndpoint where
  id := endpoint.id
  partnerId := endpoint.partnerId
  direction := endpoint.direction
  url := endpoint.url
  eventTypes := endpoint.eventTypes
  status := endpoint.status
  slaSeconds := endpoint.slaSeconds
  maxAttempts := endpoint.maxAttempts
  retryOnStatusCodes := endpoint.retryOnStatusCodes

def copySchema (row : PayloadSchema) : PayloadSchema where
  id := row.id
  eventType := row.eventType
  version := row.version
  jsonSchema := row.jsonSchema
  status := row.status

def cacheSchemaValue : Option PayloadSchema → Cached
  | none => .schemaAbsent
  | some row => .schema (copySchema row)

def schemaFromCache : Cached → Option PayloadSchema
  | .schema row => some row
  | _ => none

/-- The readings of `time.monotonic` during one call. -/
structure Clock where
  partnerGet : Time
  partnerSet : Time
  schemaGet : Time
  schemaSet : Time
  endpointsGet : Time
  endpointsSet : Time

/-- The partner look-up. The value under the key is cast, not checked: on a value of
another kind the call would fail at its first attribute, and there is no result. -/
def lookupPartner (t : Tables) (c : CacheDict) (clock : Clock) (publicId : Uuid) :
    Option (Seen (Option Partner) × CacheDict) :=
  let key := partnerCacheKey publicId
  let c' := c.touch clock.partnerGet key
  match c.value clock.partnerGet key with
  | some (.partner p) => some (⟨some p, true⟩, c')
  | some _ => none
  | none =>
    match t.fetchPartnerByPublicId publicId with
    | none => some (⟨none, false⟩, c')
    | some p =>
      some (⟨some p, false⟩,
        c'.set key (clock.partnerSet + defaultTtlSeconds) (.partner (copyPartner p)))

def lookupSchema (t : Tables) (c : CacheDict) (clock : Clock) (eventType : String) :
    Option PayloadSchema × CacheDict :=
  let key := schemaCacheKey eventType
  let c' := c.touch clock.schemaGet key
  match c.value clock.schemaGet key with
  | some cached => (schemaFromCache cached, c')
  | none =>
    let row := t.fetchLatestActiveSchema eventType
    (row, c'.set key (clock.schemaSet + defaultTtlSeconds) (cacheSchemaValue row))

def lookupEndpoints (t : Tables) (c : CacheDict) (clock : Clock) (partnerId : Nat)
    (eventType : String) : Option (Seen (List PartnerEndpoint) × CacheDict) :=
  let key := endpointsCacheKey partnerId eventType
  let c' := c.touch clock.endpointsGet key
  match c.value clock.endpointsGet key with
  | some (.endpoints es) => some (⟨es, true⟩, c')
  | some _ => none
  | none =>
    let es := t.fetchActiveOutboundEndpoints partnerId eventType
    some (⟨es, false⟩,
      c'.set key (clock.endpointsSet + defaultTtlSeconds) (.endpoints (es.map copyEndpoint)))

/-- `_VALIDATORS`: the schema each kept validator was built from. -/
abbrev Validators := Uuid × Nat → Option String

/-- `_validator_for`. -/
def validatorFor (vs : Validators) (row : PayloadSchema) : String × Validators :=
  match vs (row.id, row.version) with
  | some jsonSchema => (jsonSchema, vs)
  | none =>
    (row.jsonSchema, Function.update vs (row.id, row.version) (some row.jsonSchema))

/-- `validate_payload` with the kept validators; `accepts` is the JSON-Schema check. -/
def validatePayloadIn (accepts : String → Payload → Bool) (vs : Validators) (eventType : String)
    (payload : Payload) : Option PayloadSchema → Bool × Validators
  | none => (true, vs)
  | some row =>
    if row.status ≠ .active then (true, vs)
    else if row.eventType ≠ eventType then (true, vs)
    else (accepts (validatorFor vs row).1 payload, (validatorFor vs row).2)

/-- What one API process keeps between calls. -/
structure ApiProcess where
  cache : CacheDict
  validators : Validators

def ApiProcess.fresh : ApiProcess := ⟨ExpiringCache.empty, fun _ => none⟩

/-- `enqueue_outbound_for_event` in one process. -/
def ApiProcess.enqueueOutboundForEvent (accepts : String → Payload → Bool) (orm : LoadedRows)
    (s : ApiProcess) (db : Db) (clock : Clock) (req : EnqueueRequest) :
    Option (ApiProcess × Db × Except HubError EnqueueResponse) :=
  (lookupPartner db.tables s.cache clock req.partnerId).bind fun partner =>
    match partner.1.value with
    | none => some (⟨partner.2, s.validators⟩, db, .error .partnerNotFound)
    | some p =>
      if p.status ≠ .active then some (⟨partner.2, s.validators⟩, db, .error .partnerInactive)
      else
        let schema := lookupSchema db.tables partner.2 clock req.eventType
        let valid := validatePayloadIn accepts s.validators req.eventType req.payload schema.1
        if valid.1 = false then
          some (⟨schema.2, valid.2⟩, db, .error .schemaValidationFailed)
        else
          (lookupEndpoints db.tables schema.2 clock p.id req.eventType).bind fun endpoints =>
            if endpoints.1.value = [] then
              some (⟨endpoints.2, valid.2⟩, db, .error (.noActiveEndpoint req.eventType))
            else
              some (⟨endpoints.2, valid.2⟩,
                db.persistAndAnswer (orm.readable partner.1.cached)
                  (orm.readable endpoints.1.cached) p endpoints.1.value req)

theorem map_copyEndpoint (es : List PartnerEndpoint) : es.map copyEndpoint = es :=
  List.map_id es

theorem schemaFromCache_cacheSchemaValue (row : Option PayloadSchema) :
    schemaFromCache (cacheSchemaValue row) = row := by
  cases row <;> rfl

section Keys

variable {i j : Uuid} {m n : Nat} {a b : String}

theorem partnerCacheKey_injective (h : partnerCacheKey i = partnerCacheKey j) : i = j :=
  (append_text_injective h).2

theorem schemaCacheKey_injective (h : schemaCacheKey a = schemaCacheKey b) : a = b :=
  (String.append_right_inj "schema:").mp h

theorem endpointsCacheKey_injective (h : endpointsCacheKey m a = endpointsCacheKey n b) :
    m = n ∧ a = b :=
  decimal_colon_injective ((String.append_right_inj "endpoints:").mp h)

/-- The first character tells the families apart. -/
theorem partnerCacheKey_ne_schemaCacheKey : partnerCacheKey i ≠ schemaCacheKey a := by
  intro h
  have hl := congrArg (fun s : String => s.toList.head?) h
  simp [partnerCacheKey, schemaCacheKey] at hl

theorem partnerCacheKey_ne_endpointsCacheKey : partnerCacheKey i ≠ endpointsCacheKey n a := by
  intro h
  have hl := congrArg (fun s : String => s.toList.head?) h
  simp [partnerCacheKey, endpointsCacheKey] at hl

theorem schemaCacheKey_ne_endpointsCacheKey : schemaCacheKey a ≠ endpointsCacheKey n b := by
  intro h
  have hl := congrArg (fun s : String => s.toList.head?) h
  simp [schemaCacheKey, endpointsCacheKey] at hl

end Keys

/-- A cached value that is what the tables hold under its key. -/
inductive Current (t : Tables) : String → Cached → Prop
  | partner {i : Uuid} {p : Partner} (h : t.fetchPartnerByPublicId i = some p) :
      Current t (partnerCacheKey i) (.partner p)
  | schema (eventType : String) :
      Current t (schemaCacheKey eventType)
        (cacheSchemaValue (t.fetchLatestActiveSchema eventType))
  | endpoints (n : Nat) (eventType : String) :
      Current t (endpointsCacheKey n eventType)
        (.endpoints (t.fetchActiveOutboundEndpoints n eventType))

/-- The kept validators belong to the stored schemas. -/
def ValidatorsFit (t : Tables) (vs : Validators) : Prop :=
  ∀ row ∈ t.schemas, ∀ jsonSchema, vs (row.id, row.version) = some jsonSchema →
    jsonSchema = row.jsonSchema

/-- Everything a process keeps agrees with the tables. -/
structure Coherent (t : Tables) (s : ApiProcess) : Prop where
  cache : ExpiringCache.Holds (Current t) s.cache
  validators : ValidatorsFit t s.validators

theorem coherent_fresh (t : Tables) : Coherent t ApiProcess.fresh := by
  refine ⟨ExpiringCache.holds_empty, ?_⟩
  intro row _ jsonSchema h
  cases h

section Lookup

variable {t : Tables} {c : CacheDict} {clock : Clock}

theorem current_partner {i : Uuid} {v : Cached} (h : Current t (partnerCacheKey i) v) :
    ∃ p, v = .partner p ∧ t.fetchPartnerByPublicId i = some p := by
  generalize hk : partnerCacheKey i = key at h
  cases h with
  | partner hp =>
    obtain rfl := partnerCacheKey_injective hk
    exact ⟨_, rfl, hp⟩
  | schema eventType => exact absurd hk partnerCacheKey_ne_schemaCacheKey
  | endpoints n eventType => exact absurd hk partnerCacheKey_ne_endpointsCacheKey

theorem current_schema {eventType : String} {v : Cached}
    (h : Current t (schemaCacheKey eventType) v) :
    v = cacheSchemaValue (t.fetchLatestActiveSchema eventType) := by
  generalize hk : schemaCacheKey eventType = key at h
  cases h with
  | partner hp => exact absurd hk.symm partnerCacheKey_ne_schemaCacheKey
  | schema eventType' => rw [schemaCacheKey_injective hk]
  | endpoints n eventType' => exact absurd hk schemaCacheKey_ne_endpointsCacheKey

theorem current_endpoints {n : Nat} {eventType : String} {v : Cached}
    (h : Current t (endpointsCacheKey n eventType) v) :
    v = .endpoints (t.fetchActiveOutboundEndpoints n eventType) := by
  generalize hk : endpointsCacheKey n eventType = key at h
  cases h with
  | partner hp => exact absurd hk.symm partnerCacheKey_ne_endpointsCacheKey
  | schema eventType' => exact absurd hk.symm schemaCacheKey_ne_endpointsCacheKey
  | endpoints n' eventType' =>
    obtain ⟨rfl, rfl⟩ := endpointsCacheKey_injective hk
    rfl

/-- On a dictionary that agrees with the tables the look-up finds the stored partner. -/
theorem lookupPartner_current (h : ExpiringCache.Holds (Current t) c) (clock : Clock) (i : Uuid) :
    ∃ c', lookupPartner t c clock i = some (⟨t.fetchPartnerByPublicId i,
        (c.value clock.partnerGet (partnerCacheKey i)).isSome⟩, c') ∧
      ExpiringCache.Holds (Current t) c' ∧
      ∀ key, key ≠ partnerCacheKey i → c' key = c key := by
  have htouch := h.touch clock.partnerGet (partnerCacheKey i)
  simp only [lookupPartner]
  cases hv : c.value clock.partnerGet (partnerCacheKey i) with
  | some v =>
    obtain ⟨p, rfl, hp⟩ := current_partner (h.value hv)
    exact ⟨_, by rw [hp]; rfl, htouch, fun key hk => ExpiringCache.touch_of_ne _ hk⟩
  | none =>
    cases hp : t.fetchPartnerByPublicId i with
    | none => exact ⟨_, rfl, htouch, fun key hk => ExpiringCache.touch_of_ne _ hk⟩
    | some p =>
      refine ⟨_, rfl, htouch.set _ (.partner hp), ?_⟩
      intro key hk
      rw [ExpiringCache.set_of_ne _ _ hk, ExpiringCache.touch_of_ne _ hk]

theorem lookupSchema_current (h : ExpiringCache.Holds (Current t) c) (clock : Clock)
    (eventType : String) :
    (lookupSchema t c clock eventType).1 = t.fetchLatestActiveSchema eventType ∧
      ExpiringCache.Holds (Current t) (lookupSchema t c clock eventType).2 ∧
      ∀ key, key ≠ schemaCacheKey eventType → (lookupSchema t c clock eventType).2 key = c key := by
  have htouch := h.touch clock.schemaGet (schemaCacheKey eventType)
  simp only [lookupSchema]
  cases hv : c.value clock.schemaGet (schemaCacheKey eventType) with
  | some v =>
    obtain rfl := current_schema (h.value hv)
    exact ⟨schemaFromCache_cacheSchemaValue _, htouch, fun key hk => ExpiringCache.touch_of_ne _ hk⟩
  | none =>
    refine ⟨rfl, htouch.set _ (.schema eventType), ?_⟩
    intro key hk
    show ExpiringCache.set _ _ _ _ key = c key
    rw [ExpiringCache.set_of_ne _ _ hk, ExpiringCache.touch_of_ne _ hk]

theorem lookupEndpoints_current (h : ExpiringCache.Holds (Current t) c) (clock : Clock) (n : Nat)
    (eventType : String) :
    ∃ c', lookupEndpoints t c clock n eventType = some
        (⟨t.fetchActiveOutboundEndpoints n eventType,
          (c.value clock.endpointsGet (endpointsCacheKey n eventType)).isSome⟩, c') ∧
      ExpiringCache.Holds (Current t) c' := by
  have htouch := h.touch clock.endpointsGet (endpointsCacheKey n eventType)
  simp only [lookupEndpoints]
  cases hv : c.value clock.endpointsGet (endpointsCacheKey n eventType) with
  | some v =>
    obtain rfl := current_endpoints (h.value hv)
    exact ⟨_, rfl, htouch⟩
  | none =>
    refine ⟨_, rfl, htouch.set _ ?_⟩
    rw [map_copyEndpoint]
    exact .endpoints n eventType

/-- The validator of a stored row, kept or built, is one for that row. -/
theorem validatorFor_fits {vs : Validators} (hids : (t.schemas.map (·.id)).Nodup)
    (h : ValidatorsFit t vs) {row : PayloadSchema} (hrow : row ∈ t.schemas) :
    (validatorFor vs row).1 = row.jsonSchema ∧ ValidatorsFit t (validatorFor vs row).2 := by
  unfold validatorFor
  cases hv : vs (row.id, row.version) with
  | some jsonSchema => exact ⟨h row hrow jsonSchema hv, h⟩
  | none =>
    refine ⟨rfl, ?_⟩
    intro row' hrow' jsonSchema hj
    by_cases hk : (row'.id, row'.version) = (row.id, row.version)
    · obtain rfl := Table.eq_of_unique hids hrow' hrow (Prod.mk.inj hk).1
      simp only [Function.update_self] at hj
      exact (Option.some.inj hj).symm
    · simp only [Function.update_of_ne hk] at hj
      exact h row' hrow' jsonSchema hj

theorem validatePayloadIn_fits {vs : Validators} (hids : (t.schemas.map (·.id)).Nodup)
    (h : ValidatorsFit t vs) (accepts : String → Payload → Bool) (eventType : String)
    (payload : Payload) (schema : Option PayloadSchema) (hs : ∀ row ∈ schema, row ∈ t.schemas) :
    (validatePayloadIn accepts vs eventType payload schema).1 =
        validatePayload (fun row => accepts row.jsonSchema) eventType payload schema ∧
      ValidatorsFit t (validatePayloadIn accepts vs eventType payload schema).2 := by
  cases schema with
  | none => exact ⟨rfl, h⟩
  | some row =>
    obtain ⟨htext, hfits⟩ := validatorFor_fits hids h (hs row rfl)
    simp only [validatePayloadIn, validatePayload]
    split
    · exact ⟨rfl, h⟩
    split
    · exact ⟨rfl, h⟩
    · exact ⟨by rw [htext], hfits⟩

end Lookup

theorem mem_of_fetchLatestActiveSchema {t : Tables} {eventType : String} {row : PayloadSchema}
    (h : row ∈ t.fetchLatestActiveSchema eventType) : row ∈ t.schemas := by
  have hsort := List.mem_of_mem_head? h
  rw [List.mem_insertionSort] at hsort
  exact (List.mem_filter.mp hsort).1

/-- A call in a process that agrees with the tables decides on the stored rows; the
dictionaries only show in whether the partner and the endpoints were found there. -/
theorem enqueue_of_coherent {db : Db} {s : ApiProcess} (h : Coherent db.tables s)
    (hids : (db.tables.schemas.map (·.id)).Nodup) (accepts : String → Payload → Bool)
    (orm : LoadedRows) (clock : Clock) (req : EnqueueRequest) :
    ∃ s', s.enqueueOutboundForEvent accepts orm db clock req =
        some (s', db.enqueueSeen (fun row => accepts row.jsonSchema) orm
          ⟨db.tables.fetchPartnerByPublicId req.partnerId,
            (s.cache.value clock.partnerGet (partnerCacheKey req.partnerId)).isSome⟩
          (db.tables.fetchLatestActiveSchema req.eventType)
          (fun n => ⟨db.tables.fetchActiveOutboundEndpoints n req.eventType,
            (s.cache.value clock.endpointsGet (endpointsCacheKey n req.eventType)).isSome⟩) req) ∧
      Coherent db.tables s' := by
  obtain ⟨c₁, hp, hc₁, hframe₁⟩ := lookupPartner_current h.cache clock req.partnerId
  obtain ⟨hs, hc₂, hframe₂⟩ := lookupSchema_current hc₁ clock req.eventType
  obtain ⟨hv, hvs⟩ := validatePayloadIn_fits hids h.validators accepts req.eventType req.payload
    (db.tables.fetchLatestActiveSchema req.eventType) fun row hrow =>
      mem_of_fetchLatestActiveSchema hrow
  rw [ApiProcess.enqueueOutboundForEvent, hp, Option.bind_some]
  simp only [Db.enqueueSeen]
  cases db.tables.fetchPartnerByPublicId req.partnerId with
  | none => exact ⟨_, rfl, hc₁, h.validators⟩
  | some p =>
    obtain ⟨c₃, he, hc₃⟩ := lookupEndpoints_current hc₂ clock p.id req.eventType
    have hsame : (lookupSchema db.tables c₁ clock req.eventType).2
        (endpointsCacheKey p.id req.eventType) =
          s.cache (endpointsCacheKey p.id req.eventType) := by
      rw [hframe₂ _ schemaCacheKey_ne_endpointsCacheKey.symm,
        hframe₁ _ partnerCacheKey_ne_endpointsCacheKey.symm]
    rw [ExpiringCache.value_congr hsame] at he
    simp only [hs, hv, he, Option.bind_some]
    split
    · exact ⟨_, rfl, hc₁, h.validators⟩
    split
    · exact ⟨_, rfl, hc₂, hvs⟩
    split
    · exact ⟨_, rfl, hc₃, hvs⟩
    · exact ⟨_, rfl, hc₃, hvs⟩

end PartnerHub.Outbound
