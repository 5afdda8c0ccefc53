import PartnerHub.Outbound.AcceptPathDict

/-!
# Warm calls and cold calls

A process answers a sequence of calls while partners, endpoints and schemas stay as they
are. Every look-up then gives what the tables hold, so a warm call decides as a cold one
does, with one exception: after a violated constraint the session has rolled back, and a
cold call reads columns of rows the session had loaded, which a warm call has as copies.
-/
namespace PartnerHub.Outbound

open PartnerHub.Domain PartnerHub.Lib PartnerHub.Lib.System

/-- The database and one API process. -/
structure Serving where
  db : Db
  process : ApiProcess

def Serving.fresh (db : Db) : Serving := ⟨db, .fresh⟩

/-- A call of this process, or a commit elsewhere that is no administrative write. -/
inductive ServingAction where
  | enqueue (clock : Clock) (req : EnqueueRequest)
  | commit (db : Db)

/-- The ids the call generates are new. -/
def NewIds (db : Db) (req : EnqueueRequest) : Prop :=
  FreshIds db.tables (callEndpoints db.tables .empty 0 req).length req

instance (db : Db) (req : EnqueueRequest) : Decidable (NewIds db req) :=
  inferInstanceAs (Decidable (FreshIds _ _ _))

/-- Both databases have the same partners, endpoints and schemas. -/
def SameAccounts (t t' : Tables) : Prop :=
  t'.partners = t.partners ∧ t'.endpoints = t.endpoints ∧ t'.schemas = t.schemas

instance (t t' : Tables) : Decidable (SameAccounts t t') :=
  inferInstanceAs (Decidable (_ ∧ _ ∧ _))

def Serving.step (accepts : String → Payload → Bool) (orm : LoadedRows) (s : Serving) :
    ServingAction → Option Serving
  | .enqueue clock req =>
    if NewIds s.db req then
      (s.process.enqueueOutboundForEvent accepts orm s.db clock req).map fun r => ⟨r.2.1, r.1⟩
    else none
  | .commit db => if SameAccounts s.db.tables db.tables then some ⟨db, s.process⟩ else none

/-- The call leaves the database and gives the answer that it would with empty
dictionaries. -/
def Transparent (accepts : String → Payload → Bool) (orm : LoadedRows) (s : Serving) :
    ServingAction → Prop
  | .enqueue clock req => NewIds s.db req →
    ∃ out, (s.process.enqueueOutboundForEvent accepts orm s.db clock req).map (·.2) = some out ∧
      (ApiProcess.fresh.enqueueOutboundForEvent accepts orm s.db clock req).map (·.2) = some out
  | .commit _ => True

/-- A call for partner `p` that passes its checks, with rows PostgreSQL can store, finds one of
its keys taken. -/
structure Conflicts (accepts : String → Payload → Bool) (t : Tables) (req : EnqueueRequest)
    (p : Partner) : Prop where
  stored : t.fetchPartnerByPublicId req.partnerId = some p
  active : p.status = .active
  valid : validatePayload (fun row => accepts row.jsonSchema) req.eventType req.payload
    (t.fetchLatestActiveSchema req.eventType) = true
  storable : RowsStorable p (t.fetchActiveOutboundEndpoints p.id req.eventType) req
  taken : KeyTaken t p (t.fetchActiveOutboundEndpoints p.id req.eventType) req.idempotencyKey

/-- Such a call has its partner from the dictionary, and reads an endpoint after the
rollback only if it has that from the dictionary too. -/
def WarmConflict (accepts : String → Payload → Bool) (s : Serving) (clock : Clock)
    (req : EnqueueRequest) : Prop :=
  (s.process.cache.value clock.partnerGet (partnerCacheKey req.partnerId)).isSome = true ∧
    ∃ p, Conflicts accepts s.db.tables req p ∧
      (s.db.tables.fetchDeliveriesBySourceEventId p.id req.idempotencyKey ≠ [] ∨
        (s.process.cache.value clock.endpointsGet
          (endpointsCacheKey p.id req.eventType)).isSome = true)

/-- The condition: loaded rows outlive a rollback, or the call is no warm conflict. -/
def ReadsAsCold (accepts : String → Payload → Bool) (orm : LoadedRows) (s : Serving) :
    ServingAction → Prop
  | .enqueue clock req => NewIds s.db req → orm = .stay ∨ ¬ WarmConflict accepts s clock req
  | .commit _ => True

instance (accepts : String → Payload → Bool) (t : Tables) (req : EnqueueRequest) (p : Partner) :
    Decidable (Conflicts accepts t req p) :=
  decidable_of_iff (t.fetchPartnerByPublicId req.partnerId = some p ∧ p.status = .active ∧
    validatePayload (fun row => accepts row.jsonSchema) req.eventType req.payload
      (t.fetchLatestActiveSchema req.eventType) = true ∧
    RowsStorable p (t.fetchActiveOutboundEndpoints p.id req.eventType) req ∧
    KeyTaken t p (t.fetchActiveOutboundEndpoints p.id req.eventType) req.idempotencyKey)
    ⟨fun ⟨h₁, h₂, h₃, h₄, h₅⟩ => ⟨h₁, h₂, h₃, h₄, h₅⟩,
      fun h => ⟨h.stored, h.active, h.valid, h.storable, h.taken⟩⟩

instance (accepts : String → Payload → Bool) (s : Serving) (clock : Clock) (req : EnqueueRequest) :
    Decidable (WarmConflict accepts s clock req) :=
  decidable_of_iff
    ((s.process.cache.value clock.partnerGet (partnerCacheKey req.partnerId)).isSome = true ∧
      ∃ p ∈ s.db.tables.partners, Conflicts accepts s.db.tables req p ∧
        (s.db.tables.fetchDeliveriesBySourceEventId p.id req.idempotencyKey ≠ [] ∨
          (s.process.cache.value clock.endpointsGet
            (endpointsCacheKey p.id req.eventType)).isSome = true))
    ⟨fun ⟨h, p, _, hc⟩ => ⟨h, p, hc⟩,
      fun ⟨h, p, hc⟩ => ⟨h, p, List.mem_of_find?_eq_some hc.1.stored, hc⟩⟩

instance (accepts : String → Payload → Bool) (orm : LoadedRows) (s : Serving)
    (a : ServingAction) : Decidable (ReadsAsCold accepts orm s a) :=
  match a with
  | .enqueue clock req =>
    inferInstanceAs (Decidable (NewIds s.db req → orm = .stay ∨ ¬ WarmConflict accepts s clock req))
  | .commit _ => .isTrue trivial

theorem answerConflict_missing_iff {partnerReadable endpointsReadable : Bool} {t : Tables}
    {p : Partner} {es : List PartnerEndpoint} {key : String} :
    answerConflict partnerReadable endpointsReadable t p es key = .error .missingGreenlet ↔
      partnerReadable = false ∨
        (t.fetchDeliveriesBySourceEventId p.id key = [] ∧ endpointsReadable = false) := by
  unfold answerConflict
  cases partnerReadable <;> cases endpointsReadable <;>
    cases t.fetchDeliveriesBySourceEventId p.id key <;> grind

section Call

variable {db : Db} {req : EnqueueRequest} {p : Partner}

/-- For the stored partner and endpoints the insert of storable rows fails exactly on a taken
key. -/
theorem acceptEvent_stored (hends : (db.tables.endpoints.map (·.id)).Nodup)
    (hnew : NewIds db req) (hp : db.tables.fetchPartnerByPublicId req.partnerId = some p)
    (hne : db.tables.fetchActiveOutboundEndpoints p.id req.eventType ≠ [])
    (hst : RowsStorable p (db.tables.fetchActiveOutboundEndpoints p.id req.eventType) req) :
    (∃ k, db.acceptEvent p (db.tables.fetchActiveOutboundEndpoints p.id req.eventType) req =
        .error (.integrity k) ∧ KeyTaken db.tables p
          (db.tables.fetchActiveOutboundEndpoints p.id req.eventType) req.idempotencyKey) ∨
      (∃ db', db.acceptEvent p (db.tables.fetchActiveOutboundEndpoints p.id req.eventType) req =
        .ok db') ∧ ¬ KeyTaken db.tables p
          (db.tables.fetchActiveOutboundEndpoints p.id req.eventType) req.idempotencyKey := by
  by_cases ht : KeyTaken db.tables p
      (db.tables.fetchActiveOutboundEndpoints p.id req.eventType) req.idempotencyKey
  · obtain ⟨k, hk⟩ := acceptEvent_of_taken hst ht
    exact .inl ⟨k, hk, ht⟩
  · have hseen : seenPartner db.tables .empty 0 req.partnerId = some p := hp
    have hfresh : FreshIds db.tables
        (db.tables.fetchActiveOutboundEndpoints p.id req.eventType).length req := by
      have h := hnew
      rw [NewIds, callEndpoints_eq hseen] at h
      exact h
    have hstored : ∀ e ∈ db.tables.fetchActiveOutboundEndpoints p.id req.eventType,
        ∃ f ∈ db.tables.endpoints, f.id = e.id := by
      intro e he
      exact ⟨e, (List.mem_filter.mp he).1, rfl⟩
    exact .inr ⟨acceptEvent_of_free hne hst ⟨p, List.mem_of_find?_eq_some hp, rfl⟩ hstored
      (hends.sublist (List.filter_sublist.map _)) hfresh ht, ht⟩

/-- The insert and its answer, for a partner and endpoints that may come from the
dictionary, and for loaded ones. -/
theorem persistAndAnswer_cold_iff (hends : (db.tables.endpoints.map (·.id)).Nodup)
    (hnew : NewIds db req) (hp : db.tables.fetchPartnerByPublicId req.partnerId = some p)
    (hne : db.tables.fetchActiveOutboundEndpoints p.id req.eventType ≠ []) (orm : LoadedRows)
    (partnerHit endpointsHit : Bool) :
    db.persistAndAnswer (orm.readable partnerHit) (orm.readable endpointsHit) p
        (db.tables.fetchActiveOutboundEndpoints p.id req.eventType) req =
      db.persistAndAnswer (orm.readable false) (orm.readable false) p
        (db.tables.fetchActiveOutboundEndpoints p.id req.eventType) req ↔
    orm = .stay ∨ ¬ (partnerHit = true ∧
      RowsStorable p (db.tables.fetchActiveOutboundEndpoints p.id req.eventType) req ∧
      KeyTaken db.tables p (db.tables.fetchActiveOutboundEndpoints p.id req.eventType)
        req.idempotencyKey ∧
      (db.tables.fetchDeliveriesBySourceEventId p.id req.idempotencyKey ≠ [] ∨
        endpointsHit = true)) := by
  cases orm with
  | stay => simp [LoadedRows.readable]
  | expire =>
    by_cases hst : RowsStorable p
        (db.tables.fetchActiveOutboundEndpoints p.id req.eventType) req
    swap
    · simp only [Db.persistAndAnswer, acceptEvent_refused db hne hst, hst, false_and, and_false,
        not_false_eq_true, or_true]
    rcases acceptEvent_stored hends hnew hp hne hst with ⟨k, hk, ht⟩ | ⟨⟨db', hok⟩, ht⟩
    · have hcold : answerConflict false false db.tables p
          (db.tables.fetchActiveOutboundEndpoints p.id req.eventType) req.idempotencyKey =
            .error .missingGreenlet := rfl
      simp only [Db.persistAndAnswer, hk, LoadedRows.readable, reduceCtorEq, decide_false,
        Bool.or_false, hcold, Prod.mk.injEq, true_and, false_or, answerConflict_missing_iff, hst, ht]
      grind
    · simp only [Db.persistAndAnswer, hok, ht, false_and, and_false, not_false_eq_true, or_true]

/-- The decisions of a call, with what its look-ups found and whether the dictionary had
it, and of a cold call. -/
theorem enqueueSeen_cold_iff (accepts : String → Payload → Bool)
    (hends : (db.tables.endpoints.map (·.id)).Nodup) (hnew : NewIds db req) (orm : LoadedRows)
    (partnerHit : Bool) (endpointsHit : Nat → Bool) :
    db.enqueueSeen (fun row => accepts row.jsonSchema) orm
        ⟨db.tables.fetchPartnerByPublicId req.partnerId, partnerHit⟩
        (db.tables.fetchLatestActiveSchema req.eventType)
        (fun n => ⟨db.tables.fetchActiveOutboundEndpoints n req.eventType, endpointsHit n⟩) req =
      db.enqueueSeen (fun row => accepts row.jsonSchema) orm
        ⟨db.tables.fetchPartnerByPublicId req.partnerId, false⟩
        (db.tables.fetchLatestActiveSchema req.eventType)
        (fun n => ⟨db.tables.fetchActiveOutboundEndpoints n req.eventType, false⟩) req ↔
    orm = .stay ∨ ¬ (partnerHit = true ∧ ∃ p, Conflicts accepts db.tables req p ∧
      (db.tables.fetchDeliveriesBySourceEventId p.id req.idempotencyKey ≠ [] ∨
        endpointsHit p.id = true)) := by
  -- unless the call passes its checks there is no conflict, and both answers are one error
  have hnone : (∀ p, ¬ Conflicts accepts db.tables req p) → (orm = .stay ∨
      ¬ (partnerHit = true ∧ ∃ p, Conflicts accepts db.tables req p ∧
        (db.tables.fetchDeliveriesBySourceEventId p.id req.idempotencyKey ≠ [] ∨
          endpointsHit p.id = true))) := by
    rintro h
    exact .inr fun ⟨_, p, hc, _⟩ => h p hc
  simp only [Db.enqueueSeen]
  cases hp : db.tables.fetchPartnerByPublicId req.partnerId with
  | none =>
    refine iff_of_true rfl (hnone ?_)
    intro p hc
    exact absurd (hp.symm.trans hc.stored) (by simp)
  | some p =>
    have honly : ∀ q, Conflicts accepts db.tables req q → q = p := by
      intro q hc
      exact (Option.some.inj (hp.symm.trans hc.stored)).symm
    simp only
    split
    · rename_i hinactive
      refine iff_of_true rfl (hnone ?_)
      intro q hc
      exact hinactive (honly q hc ▸ hc.active)
    split
    · rename_i hinvalid
      refine iff_of_true rfl (hnone ?_)
      intro q hc
      rw [hc.valid] at hinvalid
      cases hinvalid
    split
    · rename_i hnil
      refine iff_of_true rfl (hnone ?_)
      intro q hc
      obtain ⟨e, he, -⟩ := honly q hc ▸ hc.taken
      rw [hnil] at he
      cases he
    · rename_i hactive hvalid hne
      rw [persistAndAnswer_cold_iff hends hnew hp hne]
      have hconflict : Conflicts accepts db.tables req p ↔
          RowsStorable p (db.tables.fetchActiveOutboundEndpoints p.id req.eventType) req ∧
            KeyTaken db.tables p (db.tables.fetchActiveOutboundEndpoints p.id req.eventType)
              req.idempotencyKey :=
        ⟨fun hc => ⟨hc.storable, hc.taken⟩,
          fun ht => ⟨hp, not_not.mp hactive, by simpa using hvalid, ht.1, ht.2⟩⟩
      grind

/-- A call inserts deliveries and outbox rows at most. -/
theorem sameAccounts_enqueueSeen (db : Db) (req : EnqueueRequest)
    (validates : PayloadSchema → Payload → Bool) (orm : LoadedRows)
    (partner : Seen (Option Partner)) (schema : Option PayloadSchema)
    (endpoints : Nat → Seen (List PartnerEndpoint)) :
    SameAccounts db.tables
      (db.enqueueSeen validates orm partner schema endpoints req).1.tables := by
  have hself : SameAccounts db.tables db.tables := ⟨rfl, rfl, rfl⟩
  unfold Db.enqueueSeen
  split
  · exact hself
  split
  · exact hself
  split
  · exact hself
  split
  · exact hself
  unfold Db.persistAndAnswer
  split
  · exact hself
  · exact hself
  · exact hself
  · rename_i db' hok
    obtain ⟨rows, events, -, htab⟩ := accept_ok hok
    have hsame : SameAccounts db.tables db'.tables := by
      rw [htab]
      exact ⟨rfl, rfl, rfl⟩
    split <;> exact hsame

end Call

/-- PRIMARY KEY of `partner_endpoints` and of `payload_schemas`. -/
structure PrimaryKeys (t : Tables) : Prop where
  endpoints : (t.endpoints.map (·.id)).Nodup
  schemas : (t.schemas.map (·.id)).Nodup

/-- The process agrees with the database it serves. -/
structure Serves (s : Serving) : Prop where
  keys : PrimaryKeys s.db.tables
  coherent : Coherent s.db.tables s.process

section Same

variable {t t' : Tables}

theorem SameAccounts.keys (h : SameAccounts t t') (hk : PrimaryKeys t) : PrimaryKeys t' := by
  obtain ⟨-, he, hs⟩ := h
  exact ⟨he ▸ hk.endpoints, hs ▸ hk.schemas⟩

theorem SameAccounts.current (h : SameAccounts t t') {key : String} {v : Cached}
    (hv : Current t key v) : Current t' key v := by
  obtain ⟨hp, he, hs⟩ := h
  cases hv with
  | partner hfound =>
    refine .partner ?_
    rw [Tables.fetchPartnerByPublicId, hp]
    exact hfound
  | schema eventType =>
    have hrow : t'.fetchLatestActiveSchema eventType = t.fetchLatestActiveSchema eventType := by
      rw [Tables.fetchLatestActiveSchema, Tables.fetchLatestActiveSchema, hs]
    exact hrow ▸ .schema eventType
  | endpoints n eventType =>
    have hrows : t'.fetchActiveOutboundEndpoints n eventType =
        t.fetchActiveOutboundEndpoints n eventType := by
      rw [Tables.fetchActiveOutboundEndpoints, Tables.fetchActiveOutboundEndpoints, he]
    exact hrows ▸ .endpoints n eventType

/-- What a process keeps depends on the accounts alone. -/
theorem SameAccounts.coherent (h : SameAccounts t t') {s : ApiProcess} (hc : Coherent t s) :
    Coherent t' s := by
  refine ⟨fun key expiresAt v hv => h.current (hc.cache key expiresAt v hv), ?_⟩
  intro row hrow
  exact hc.validators row (h.2.2 ▸ hrow)

end Same

variable {accepts : String → Payload → Bool} {orm : LoadedRows}

theorem serves_step {s s' : Serving} {a : ServingAction} (h : Serves s)
    (hs : s.step accepts orm a = some s') : Serves s' := by
  cases a with
  | enqueue clock req =>
    simp only [Serving.step] at hs
    split at hs
    · obtain ⟨process, hcall, hcoherent⟩ :=
        enqueue_of_coherent h.coherent h.keys.schemas accepts orm clock req
      rw [hcall, Option.map_some] at hs
      obtain rfl := Option.some.inj hs
      have hsame := sameAccounts_enqueueSeen s.db req (fun row => accepts row.jsonSchema) orm
      exact ⟨(hsame _ _ _).keys h.keys, (hsame _ _ _).coherent hcoherent⟩
    · cases hs
  | commit db =>
    simp only [Serving.step] at hs
    split at hs
    · rename_i hsame
      obtain rfl := Option.some.inj hs
      exact ⟨hsame.keys h.keys, hsame.coherent h.coherent⟩
    · cases hs

theorem transparent_iff {s : Serving} (h : Serves s) (a : ServingAction) :
    Transparent accepts orm s a ↔ ReadsAsCold accepts orm s a := by
  cases a with
  | commit db => exact Iff.rfl
  | enqueue clock req =>
    refine forall_congr' fun hnew => ?_
    obtain ⟨process, hwarm, -⟩ :=
      enqueue_of_coherent h.coherent h.keys.schemas accepts orm clock req
    obtain ⟨process', hcold, -⟩ :=
      enqueue_of_coherent (coherent_fresh s.db.tables) h.keys.schemas accepts orm clock req
    have hiff := enqueueSeen_cold_iff accepts h.keys.endpoints hnew orm
      (s.process.cache.value clock.partnerGet (partnerCacheKey req.partnerId)).isSome
      fun n => (s.process.cache.value clock.endpointsGet
        (endpointsCacheKey n req.eventType)).isSome
    rw [hwarm, hcold, WarmConflict, ← hiff]
    simp only [Option.map_some, Option.some.injEq]
    constructor
    · rintro ⟨out, hw, hc⟩
      exact hw.trans hc.symm
    · intro hsame
      exact ⟨_, hsame, rfl⟩

/-- While partners, endpoints and schemas stay as they are, every call of a process gives,
whatever its dictionaries hold and whatever has expired, the answer and the rows it would
give with empty ones, exactly as long as no call is a warm conflict; with sessions that
keep loaded rows through a rollback it always does. -/
theorem cache_transparent_iff (accepts : String → Payload → Bool) (orm : LoadedRows) (db : Db)
    (hkeys : PrimaryKeys db.tables) (as : List ServingAction) :
    Along (Serving.step accepts orm) (Transparent accepts orm) (.fresh db) as ↔
      Along (Serving.step accepts orm) (ReadsAsCold accepts orm) (.fresh db) as :=
  along_iff_along Serves (fun _ _ _ h _ hs => serves_step h hs) (fun _ a h => transparent_iff h a)
    ⟨hkeys, coherent_fresh db.tables⟩

/-- One partner with one endpoint. -/
def acmeDb : Db := (Db.empty.admin (.createPartner acme)).admin (.createEndpoint 1 acmeEndpoint)

/-- All readings of the clock at one time. -/
def Clock.at (now : Time) : Clock := ⟨now, now, now, now, now, now⟩

/-- Three calls with different keys: a cold one, a warm one and one after the expiry. -/
def differentKeys : List ServingAction :=
  [.enqueue (.at 0) (acmeRequest "k"),
    .enqueue (.at 10) { acmeRequest "l" with publicIds := fun i => BitVec.ofNat 128 (20 + i) },
    .enqueue (.at 60) { acmeRequest "m" with publicIds := fun i => BitVec.ofNat 128 (30 + i) }]

theorem cache_transparent_iff_different_keys :
    PrimaryKeys acmeDb.tables ∧
      Along (Serving.step (fun _ _ => true) .expire) (Transparent (fun _ _ => true) .expire)
        (.fresh acmeDb) differentKeys :=
  ⟨⟨by decide, by decide⟩, (cache_transparent_iff _ _ acmeDb ⟨by decide, by decide⟩ _).mpr
    (by decide +kernel)⟩

/-- The same call again, ten seconds later. -/
def repeatedCall : EnqueueRequest :=
  { acmeRequest "k" with publicIds := fun i => BitVec.ofNat 128 (20 + i) }

/-- The warm call answers `duplicate`, a cold one fails on the partner it had loaded. -/
theorem warm_duplicate_cold_error :
    ¬ Along (Serving.step (fun _ _ => true) .expire) (Transparent (fun _ _ => true) .expire)
      (.fresh acmeDb) [.enqueue (.at 0) (acmeRequest "k"), .enqueue (.at 10) repeatedCall] := by
  intro h
  obtain ⟨s, hs, hnew, hwarm, hcold⟩ :
      ∃ s, Serving.step (fun _ _ => true) .expire (.fresh acmeDb)
          (.enqueue (.at 0) (acmeRequest "k")) = some s ∧ NewIds s.db repeatedCall ∧
        ((s.process.enqueueOutboundForEvent (fun _ _ => true) .expire s.db (.at 10)
          repeatedCall).map fun r => r.2.2.toOption.isSome) = some true ∧
        ((ApiProcess.fresh.enqueueOutboundForEvent (fun _ _ => true) .expire s.db (.at 10)
          repeatedCall).map fun r => r.2.2.toOption.isSome) = some false :=
    ⟨_, rfl, by decide +kernel, by decide +kernel, by decide +kernel⟩
  obtain ⟨out, hw, hc⟩ := (h.2 s hs).1 hnew
  have hsame : out.2.toOption.isSome = true ∧ out.2.toOption.isSome = false := by
    obtain ⟨r, hr, rfl⟩ := Option.map_eq_some_iff.mp hw
    obtain ⟨r', hr', he⟩ := Option.map_eq_some_iff.mp hc
    rw [hr, Option.map_some] at hwarm
    rw [hr', Option.map_some, he] at hcold
    exact ⟨Option.some.inj hwarm, Option.some.inj hcold⟩
  rw [hsame.1] at hsame
  cases hsame.2

end PartnerHub.Outbound
