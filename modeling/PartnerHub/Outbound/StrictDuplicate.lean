import PartnerHub.Lib.Slots
import PartnerHub.Outbound.Enqueue

/-!
# Repeated calls with one idempotency key

A repeated call is recognised only by a clash of derived keys, one per endpoint the call
sees. The runs of calls and administrative writes are traced with the accepted calls, and
the strict reading of a repeated key is compared with what the code does.
-/
namespace PartnerHub.Outbound

open PartnerHub.Domain PartnerHub.Lib PartnerHub.Lib.System

theorem derivedIdempotencyKey_injective {k k' : String} {e e' : Uuid}
    (h : derivedIdempotencyKey k e = derivedIdempotencyKey k' e') : k = k' ∧ e = e' := by
  obtain ⟨hk, he⟩ := append_text_injective h
  have hl := congrArg String.toList hk
  rw [String.toList_append, String.toList_append] at hl
  exact ⟨String.toList_inj.mp (List.append_cancel_right hl), he⟩

/-- Some endpoint of the call already has a delivery under its derived key. -/
def KeyTaken (t : Tables) (partner : Partner) (endpoints : List PartnerEndpoint) (key : String) :
    Prop :=
  ∃ e ∈ endpoints, ∃ d ∈ t.deliveries,
    d.partnerId = partner.id ∧ d.idempotencyKey = derivedIdempotencyKey key e.id

instance (t : Tables) (partner : Partner) (endpoints : List PartnerEndpoint) (key : String) :
    Decidable (KeyTaken t partner endpoints key) :=
  inferInstanceAs (Decidable (∃ _ ∈ _, _))

/-- The ids `generate_uuidv7` hands out for `n` deliveries are new. -/
def FreshIds (t : Tables) (n : Nat) (req : EnqueueRequest) : Prop :=
  (∀ i < n, ∀ j < n, req.publicIds i = req.publicIds j → i = j) ∧
    ∀ i < n, ∀ d ∈ t.deliveries, d.publicId ≠ req.publicIds i

instance (t : Tables) (n : Nat) (req : EnqueueRequest) : Decidable (FreshIds t n req) :=
  inferInstanceAs (Decidable (_ ∧ _))

/-- PostgreSQL can store every row of the call. -/
def RowsStorable (partner : Partner) (endpoints : List PartnerEndpoint) (req : EnqueueRequest) :
    Prop :=
  ∀ d ∈ createdDeliveries partner endpoints req, req.storable d = true

instance (partner : Partner) (endpoints : List PartnerEndpoint) (req : EnqueueRequest) :
    Decidable (RowsStorable partner endpoints req) :=
  List.decidableBAll _ _

section Insert

variable {db : Db} {partner : Partner} {endpoints : List PartnerEndpoint} {req : EnqueueRequest}

theorem createdDeliveries_keys (partner : Partner) (endpoints : List PartnerEndpoint)
    (req : EnqueueRequest) :
    (createdDeliveries partner endpoints req).map (fun d => (d.partnerId, d.idempotencyKey)) =
      endpoints.map fun e => (partner.id, derivedIdempotencyKey req.idempotencyKey e.id) := by
  apply List.ext_getElem
  · simp [createdDeliveries]
  · intro i h₁ h₂
    simp [createdDeliveries, buildPendingDelivery]

theorem createdDeliveries_publicIds (partner : Partner) (endpoints : List PartnerEndpoint)
    (req : EnqueueRequest) :
    (createdDeliveries partner endpoints req).map (·.publicId) =
      (List.range endpoints.length).map req.publicIds := by
  apply List.ext_getElem
  · simp [createdDeliveries]
  · intro i h₁ h₂
    simp [createdDeliveries, buildPendingDelivery]

/-- A row that PostgreSQL refuses makes the insert fail before any constraint does. -/
theorem acceptEvent_refused (db : Db) (hne : endpoints ≠ [])
    (h : ¬ RowsStorable partner endpoints req) :
    db.acceptEvent partner endpoints req = .error .dataError := by
  have hlen : (createdDeliveries partner endpoints req).length = endpoints.length := by
    simp [createdDeliveries]
  have hall : (createdDeliveries partner endpoints req).all req.storable = false := by
    rw [← Bool.not_eq_true, List.all_eq_true]
    exact h
  have hnil : createdDeliveries partner endpoints req ≠ [] := by
    intro hnil
    rw [hnil, List.length_nil] at hlen
    exact hne (List.eq_nil_of_length_eq_zero hlen.symm)
  simp only [Db.acceptEvent, Db.persistDeliveriesAndOutbox, List.length_zipWith, hlen, min_self,
    ne_eq, not_true_eq_false, if_false, hnil, hall, if_true]

/-- The insert of storable rows for at least one endpoint fails on one of three constraints,
or succeeds. -/
theorem acceptEvent_cases (db : Db) (hne : endpoints ≠ [])
    (hstored : RowsStorable partner endpoints req) :
    let rows := numberDeliveries db.tables.deliverySeq (createdDeliveries partner endpoints req)
    (∃ c, db.acceptEvent partner endpoints req = .error (.integrity c) ∧
      (¬ db.tables.Owns rows ∨ ¬ ((db.tables.deliveries ++ rows).map (·.publicId)).Nodup ∨
        ¬ ((db.tables.deliveries ++ rows).map fun d => (d.partnerId, d.idempotencyKey)).Nodup)) ∨
    ((∃ db', db.acceptEvent partner endpoints req = .ok db') ∧
      ((db.tables.deliveries ++ rows).map fun d => (d.partnerId, d.idempotencyKey)).Nodup) := by
  have hlen : (createdDeliveries partner endpoints req).length = endpoints.length := by
    simp [createdDeliveries]
  intro rows
  unfold Db.acceptEvent Db.persistDeliveriesAndOutbox
  have hall : (createdDeliveries partner endpoints req).all req.storable = true :=
    List.all_eq_true.mpr hstored
  simp only [List.length_zipWith, hlen, min_self, ne_eq, not_true_eq_false, if_false, hall,
    Bool.true_eq_false]
  split_ifs with hnil ho hp hk
  · rw [hnil, List.length_nil] at hlen
    exact absurd (List.eq_nil_of_length_eq_zero hlen.symm) hne
  · exact .inr ⟨⟨_, rfl⟩, hk⟩
  · exact .inl ⟨_, rfl, .inr (.inr hk)⟩
  · exact .inl ⟨_, rfl, .inr (.inl hp)⟩
  · exact .inl ⟨_, rfl, .inl ho⟩

/-- A taken key makes the insert fail. -/
theorem acceptEvent_of_taken (hstored : RowsStorable partner endpoints req)
    (h : KeyTaken db.tables partner endpoints req.idempotencyKey) :
    ∃ c, db.acceptEvent partner endpoints req = .error (.integrity c) := by
  obtain ⟨e, he, d, hd, hp, hk⟩ := h
  rcases acceptEvent_cases db (List.ne_nil_of_mem he) hstored with ⟨c, hc, -⟩ | ⟨-, hn⟩
  · exact ⟨c, hc⟩
  · rw [List.map_append, map_numberDeliveries _ (fun _ _ => rfl), createdDeliveries_keys] at hn
    have hdis := (List.nodup_append.mp hn).2.2
    refine absurd rfl (hdis _ (List.mem_map.mpr ⟨d, hd, rfl⟩) _ (List.mem_map.mpr ⟨e, he, ?_⟩))
    rw [hp, hk]

/-- With known parties, new ids and free keys the insert succeeds. -/
theorem acceptEvent_of_free (hne : endpoints ≠ [])
    (hstored : RowsStorable partner endpoints req)
    (hpartner : ∃ p ∈ db.tables.partners, p.id = partner.id)
    (hends : ∀ e ∈ endpoints, ∃ f ∈ db.tables.endpoints, f.id = e.id)
    (hnd : (endpoints.map (·.id)).Nodup) (hfresh : FreshIds db.tables endpoints.length req)
    (hfree : ¬ KeyTaken db.tables partner endpoints req.idempotencyKey) :
    ∃ db', db.acceptEvent partner endpoints req = .ok db' := by
  rcases acceptEvent_cases db hne hstored with ⟨c, -, ho | hp | hk⟩ | ⟨hok, -⟩
  · refine absurd ?_ ho
    intro d hd
    obtain ⟨i, d₀, hd₀, rfl⟩ := mem_numberDeliveries hd
    obtain ⟨j, hj, rfl⟩ := List.mem_mapIdx.mp hd₀
    exact ⟨hpartner, hends _ (List.getElem_mem hj)⟩
  · refine absurd ?_ hp
    rw [List.map_append, map_numberDeliveries _ (fun _ _ => rfl), createdDeliveries_publicIds,
      List.nodup_append]
    refine ⟨db.consistent.delivery_publicId, ?_, ?_⟩
    · refine List.Nodup.map_on ?_ List.nodup_range
      intro i hi j hj he
      exact hfresh.1 i (List.mem_range.mp hi) j (List.mem_range.mp hj) he
    · intro a ha b hb
      obtain ⟨d, hd, rfl⟩ := List.mem_map.mp ha
      obtain ⟨i, hi, rfl⟩ := List.mem_map.mp hb
      exact hfresh.2 i (List.mem_range.mp hi) d hd
  · refine absurd ?_ hk
    rw [List.map_append, map_numberDeliveries _ (fun _ _ => rfl), createdDeliveries_keys,
      List.nodup_append]
    refine ⟨db.consistent.delivery_key, ?_, ?_⟩
    · refine List.Nodup.map_on ?_ (List.Nodup.of_map _ hnd)
      intro e he f hf hef
      have hid := (derivedIdempotencyKey_injective (Prod.mk.inj hef).2).2
      exact List.inj_on_of_nodup_map hnd he hf hid
    · intro a ha b hb hab
      obtain ⟨d, hd, rfl⟩ := List.mem_map.mp ha
      obtain ⟨e, he, rfl⟩ := List.mem_map.mp hb
      exact hfree ⟨e, he, d, hd, (Prod.mk.inj hab).1, (Prod.mk.inj hab).2⟩
  · exact hok

end Insert

/-- A call that was accepted, with the deliveries it created. -/
structure AcceptedCall where
  partnerId : Uuid
  idempotencyKey : String
  deliveryIds : List Uuid

/-- The database, the caches of the API processes and the accepted calls so far. -/
structure Api where
  db : Db
  caches : Nat → AcceptPathCache
  accepted : List AcceptedCall

def Api.init : Api := ⟨Db.empty, fun _ => .empty, []⟩

inductive ApiAction where
  | enqueue (process : Nat) (now : Time) (req : EnqueueRequest)
  | admin (process : Nat) (w : AdminWrite)

/-- The endpoints a call fans out to. -/
def callEndpoints (t : Tables) (c : AcceptPathCache) (now : Time) (req : EnqueueRequest) :
    List PartnerEndpoint :=
  match seenPartner t c now req.partnerId with
  | none => []
  | some p => seenEndpoints t c now p.id req.eventType

/-- The calls to add to the accepted ones. -/
def acceptedCalls (req : EnqueueRequest) : Except HubError EnqueueResponse → List AcceptedCall
  | .ok r => if r.status = .accepted then [⟨req.partnerId, req.idempotencyKey, r.deliveryIds⟩] else []
  | .error _ => []

variable {validates : PayloadSchema → Payload → Bool} {orm : LoadedRows}

/-- The state after a call with this outcome. -/
def Api.answered (validates : PayloadSchema → Payload → Bool) (s : Api) (process : Nat)
    (now : Time) (req : EnqueueRequest) (out : Db × Except HubError EnqueueResponse) : Api where
  db := out.1
  caches := Function.update s.caches process
    ((s.caches process).afterEnqueue validates s.db.tables now req)
  accepted := s.accepted ++ acceptedCalls req out.2

def Api.step (validates : PayloadSchema → Payload → Bool) (orm : LoadedRows) (s : Api) :
    ApiAction → Option Api
  | .enqueue process now req =>
    if FreshIds s.db.tables (callEndpoints s.db.tables (s.caches process) now req).length req then
      some (s.answered validates process now req
        (s.db.enqueueOutboundForEvent validates orm (s.caches process) now req))
    else none
  | .admin process w => some
      { s with
        db := s.db.admin w
        caches := Function.update s.caches process ((s.caches process).afterAdmin s.db.tables w) }

/-- The strict reading of a repeated key: nothing is inserted, and the answer is
`duplicate` with exactly the deliveries of the accepted call. -/
def StrictDuplicate (validates : PayloadSchema → Payload → Bool) (orm : LoadedRows) (s : Api) :
    ApiAction → Prop
  | .enqueue process now req =>
    FreshIds s.db.tables (callEndpoints s.db.tables (s.caches process) now req).length req →
    ∀ call ∈ s.accepted, call.partnerId = req.partnerId →
      call.idempotencyKey = req.idempotencyKey →
      (s.db.enqueueOutboundForEvent validates orm (s.caches process) now req).1 = s.db ∧
      ∃ r, (s.db.enqueueOutboundForEvent validates orm (s.caches process) now req).2 = .ok r ∧
        r.status = .duplicate ∧ ∀ i, i ∈ r.deliveryIds ↔ i ∈ call.deliveryIds
  | .admin _ _ => True

/-- No two accepted calls share partner and key. -/
def AcceptedOnce (s : Api) : Prop :=
  (s.accepted.map fun c => (c.partnerId, c.idempotencyKey)).Nodup

/-- The condition on a repeated call: it passes the checks, PostgreSQL can store its rows, its
partner can be read after a rollback, and one of the endpoints it sees already has a delivery
under the key. -/
def SharesEndpoint (validates : PayloadSchema → Payload → Bool) (orm : LoadedRows) (s : Api) :
    ApiAction → Prop
  | .enqueue process now req =>
    FreshIds s.db.tables (callEndpoints s.db.tables (s.caches process) now req).length req →
    ∀ call ∈ s.accepted, call.partnerId = req.partnerId →
      call.idempotencyKey = req.idempotencyKey →
      ∃ p, seenPartner s.db.tables (s.caches process) now req.partnerId = some p ∧
        p.status = .active ∧
        validatePayload validates req.eventType req.payload
          (seenSchema s.db.tables (s.caches process) now req.eventType) = true ∧
        RowsStorable p (seenEndpoints s.db.tables (s.caches process) now p.id req.eventType) req ∧
        orm.readable (partnerCached (s.caches process) now req.partnerId) = true ∧
        ∃ e ∈ seenEndpoints s.db.tables (s.caches process) now p.id req.eventType,
          ∃ d ∈ s.db.tables.deliveries, d.partnerId = p.id ∧
            d.sourceEventId = some req.idempotencyKey ∧ d.endpointId = e.id
  | .admin _ _ => True

/-- What a cache holds agrees with the tables on identities. -/
structure CacheFits (t : Tables) (c : AcceptPathCache) : Prop where
  partner : ∀ i expiresAt p, c.partners i = some (expiresAt, p) →
    ∃ q ∈ t.partners, q.id = p.id ∧ q.publicId = i
  endpoints : ∀ n eventType expiresAt es, c.endpoints n eventType = some (expiresAt, es) →
    (es.map (·.id)).Nodup ∧ ∀ e ∈ es, ∃ f ∈ t.endpoints, f.id = e.id

/-- An accepted call owns exactly the deliveries of its partner under its key. -/
structure CallFits (t : Tables) (call : AcceptedCall) : Prop where
  partner : ∃ p ∈ t.partners, p.publicId = call.partnerId ∧
    (∀ d ∈ t.deliveries, d.partnerId = p.id → d.sourceEventId = some call.idempotencyKey →
      d.publicId ∈ call.deliveryIds) ∧
    ∀ i ∈ call.deliveryIds, ∃ d ∈ t.deliveries, d.publicId = i ∧ d.partnerId = p.id ∧
      d.sourceEventId = some call.idempotencyKey

structure ApiFits (s : Api) : Prop where
  partner_ids : (s.db.tables.partners.map (·.id)).Nodup
  partner_publicIds : (s.db.tables.partners.map (·.publicId)).Nodup
  endpoint_ids : (s.db.tables.endpoints.map (·.id)).Nodup
  cache : ∀ process, CacheFits s.db.tables (s.caches process)
  keys : ∀ d ∈ s.db.tables.deliveries, ∃ k, d.sourceEventId = some k ∧
    d.idempotencyKey = derivedIdempotencyKey k d.endpointId
  call : ∀ call ∈ s.accepted, CallFits s.db.tables call
  owner : ∀ d ∈ s.db.tables.deliveries, ∃ call ∈ s.accepted, ∃ p ∈ s.db.tables.partners,
    p.id = d.partnerId ∧ p.publicId = call.partnerId ∧
      d.sourceEventId = some call.idempotencyKey
  once : AcceptedOnce s

theorem apiFits_init : ApiFits Api.init := by
  have hcache : CacheFits {} AcceptPathCache.empty := by
    constructor <;> simp [AcceptPathCache.empty]
  constructor <;> simp [Api.init, Db.empty, AcceptedOnce, hcache]

theorem cacheGet_some {β : Type} {now : Time} {entry : CacheEntry β} {v : β}
    (h : cacheGet now entry = some v) : ∃ expiresAt, entry = some (expiresAt, v) := by
  unfold cacheGet at h
  split at h
  · cases h
  · split at h
    · cases h
    · obtain rfl := Option.some.inj h
      exact ⟨_, rfl⟩

/-- The partner a call sees is a stored one, as far as identity goes. -/
theorem seenPartner_stored {t : Tables} {c : AcceptPathCache} (hc : CacheFits t c) {now : Time}
    {i : Uuid} {p : Partner} (h : seenPartner t c now i = some p) :
    ∃ q ∈ t.partners, q.id = p.id ∧ q.publicId = i := by
  rcases Option.or_eq_some_iff.mp h with hg | ⟨-, hf⟩
  · obtain ⟨expiresAt, he⟩ := cacheGet_some hg
    exact hc.partner i expiresAt p he
  · exact ⟨p, List.mem_of_find?_eq_some hf, rfl, by simpa using List.find?_some hf⟩

theorem seenEndpoints_stored {t : Tables} {c : AcceptPathCache} (hc : CacheFits t c)
    (hn : (t.endpoints.map (·.id)).Nodup) (now : Time) (n : Nat) (eventType : String) :
    ((seenEndpoints t c now n eventType).map (·.id)).Nodup ∧
      ∀ e ∈ seenEndpoints t c now n eventType, ∃ f ∈ t.endpoints, f.id = e.id := by
  unfold seenEndpoints
  cases hg : cacheGet now (c.endpoints n eventType) with
  | some es =>
    obtain ⟨expiresAt, he⟩ := cacheGet_some hg
    exact hc.endpoints n eventType expiresAt es he
  | none =>
    refine ⟨hn.sublist (List.filter_sublist.map _), ?_⟩
    intro e he
    exact ⟨e, (List.mem_filter.mp he).1, rfl⟩

/-- The call gets past all its checks and works for partner `p`. -/
structure Passes (validates : PayloadSchema → Payload → Bool) (t : Tables) (c : AcceptPathCache)
    (now : Time) (req : EnqueueRequest) (p : Partner) : Prop where
  seen : seenPartner t c now req.partnerId = some p
  active : p.status = .active
  valid : validatePayload validates req.eventType req.payload
    (seenSchema t c now req.eventType) = true
  some_endpoint : seenEndpoints t c now p.id req.eventType ≠ []

section Call

variable {db : Db} {c : AcceptPathCache} {now : Time} {req : EnqueueRequest} {p : Partner}

theorem enqueue_of_passes (h : Passes validates db.tables c now req p) :
    db.enqueueOutboundForEvent validates orm c now req =
      db.persistAndAnswer (orm.readable (partnerCached c now req.partnerId))
        (orm.readable (endpointsCached c now p.id req.eventType)) p
        (seenEndpoints db.tables c now p.id req.eventType) req := by
  simp [Db.enqueueOutboundForEvent, Db.enqueueSeen, h.seen, h.active, h.valid, h.some_endpoint]

theorem enqueue_of_not_passes (h : ∀ p, ¬ Passes validates db.tables c now req p) :
    ∃ e, db.enqueueOutboundForEvent validates orm c now req = (db, .error e) := by
  unfold Db.enqueueOutboundForEvent Db.enqueueSeen
  split
  · exact ⟨_, rfl⟩
  · rename_i p hp
    split_ifs with hactive hvalid hnil
    · exact ⟨_, rfl⟩
    · exact ⟨_, rfl⟩
    · exact ⟨_, rfl⟩
    · exact absurd ⟨hp, not_not.mp hactive, by simpa using hvalid, hnil⟩ (h p)

theorem callEndpoints_eq (h : seenPartner db.tables c now req.partnerId = some p) :
    callEndpoints db.tables c now req = seenEndpoints db.tables c now p.id req.eventType := by
  simp [callEndpoints, h]

/-- A call with a row PostgreSQL refuses ends in an error. -/
theorem enqueue_refused (h : Passes validates db.tables c now req p)
    (hst : ¬ RowsStorable p (seenEndpoints db.tables c now p.id req.eventType) req) :
    db.enqueueOutboundForEvent validates orm c now req = (db, .error .dataError) := by
  rw [enqueue_of_passes h, Db.persistAndAnswer, acceptEvent_refused db h.some_endpoint hst]

/-- A call that sees a taken key inserts nothing and answers the conflict. -/
theorem enqueue_taken (h : Passes validates db.tables c now req p)
    (hst : RowsStorable p (seenEndpoints db.tables c now p.id req.eventType) req)
    (ht : KeyTaken db.tables p (seenEndpoints db.tables c now p.id req.eventType)
      req.idempotencyKey) :
    db.enqueueOutboundForEvent validates orm c now req =
      (db, answerConflict (orm.readable (partnerCached c now req.partnerId))
        (orm.readable (endpointsCached c now p.id req.eventType)) db.tables p
        (seenEndpoints db.tables c now p.id req.eventType) req.idempotencyKey) := by
  obtain ⟨k, hk⟩ := acceptEvent_of_taken hst ht
  rw [enqueue_of_passes h, Db.persistAndAnswer, hk]

/-- A call that sees no taken key is accepted. -/
theorem enqueue_free (h : Passes validates db.tables c now req p) (hc : CacheFits db.tables c)
    (hn : (db.tables.endpoints.map (·.id)).Nodup)
    (hst : RowsStorable p (seenEndpoints db.tables c now p.id req.eventType) req)
    (hfresh : FreshIds db.tables (callEndpoints db.tables c now req).length req)
    (ht : ¬ KeyTaken db.tables p (seenEndpoints db.tables c now p.id req.eventType)
      req.idempotencyKey) :
    ∃ db' r, db.enqueueOutboundForEvent validates orm c now req = (db', .ok r) ∧
      r.status = .accepted ∧
      db.acceptEvent p (seenEndpoints db.tables c now p.id req.eventType) req = .ok db' ∧
      r.deliveryIds = (createdDeliveries p (seenEndpoints db.tables c now p.id req.eventType)
        req).map (·.publicId) := by
  rw [callEndpoints_eq h.seen] at hfresh
  obtain ⟨q, hq, hqid, -⟩ := seenPartner_stored hc h.seen
  obtain ⟨hnd, hends⟩ := seenEndpoints_stored hc hn now p.id req.eventType
  obtain ⟨db', hok⟩ := acceptEvent_of_free h.some_endpoint hst ⟨q, hq, hqid⟩ hends hnd hfresh ht
  have hne : createdDeliveries p (seenEndpoints db.tables c now p.id req.eventType) req ≠ [] := by
    intro hnil
    have hlen := congrArg List.length hnil
    simp [createdDeliveries] at hlen
    exact h.some_endpoint hlen
  obtain ⟨first, rest, hcons⟩ := List.exists_cons_of_ne_nil hne
  refine ⟨db', responseFor .accepted first rest, ?_, rfl, hok, ?_⟩
  · rw [enqueue_of_passes h, Db.persistAndAnswer, hok]
    simp only [hcons]
  · rw [hcons]
    rfl

end Call

/-- A derived key is taken exactly when the endpoint has a delivery under the key. -/
theorem keyTaken_iff {s : Api} (h : ApiFits s) {p : Partner} {es : List PartnerEndpoint}
    {key : String} :
    KeyTaken s.db.tables p es key ↔ ∃ e ∈ es, ∃ d ∈ s.db.tables.deliveries,
      d.partnerId = p.id ∧ d.sourceEventId = some key ∧ d.endpointId = e.id := by
  constructor
  · rintro ⟨e, he, d, hd, hp, hk⟩
    obtain ⟨k, hsrc, hkey⟩ := h.keys d hd
    obtain ⟨rfl, hend⟩ := derivedIdempotencyKey_injective (hkey.symm.trans hk)
    exact ⟨e, he, d, hd, hp, hsrc, hend⟩
  · rintro ⟨e, he, d, hd, hp, hsrc, hend⟩
    obtain ⟨k, hsrc', hkey⟩ := h.keys d hd
    obtain rfl := Option.some.inj (hsrc.symm.trans hsrc')
    exact ⟨e, he, d, hd, hp, by rw [hkey, hend]⟩

/-- The deliveries found under the key of an accepted call are its own. -/
theorem raced_eq {s : Api} (h : ApiFits s) {call : AcceptedCall} (hcall : call ∈ s.accepted)
    {p : Partner} {es : List PartnerEndpoint}
    (hp : ∃ q ∈ s.db.tables.partners, q.id = p.id ∧ q.publicId = call.partnerId)
    (ht : KeyTaken s.db.tables p es call.idempotencyKey) (endpointsReadable : Bool) :
    ∃ r, answerConflict true endpointsReadable s.db.tables p es call.idempotencyKey = .ok r ∧
      r.status = .duplicate ∧ ∀ i, i ∈ r.deliveryIds ↔ i ∈ call.deliveryIds := by
  obtain ⟨q, hq, hqid, hqpub⟩ := hp
  obtain ⟨p₀, hp₀, hpub₀, hall, hown⟩ := (h.call call hcall).partner
  obtain rfl := Table.eq_of_unique h.partner_publicIds hq hp₀ (hqpub.trans hpub₀.symm)
  have hfilter : ∀ d, d ∈ s.db.tables.fetchDeliveriesBySourceEventId p.id call.idempotencyKey ↔
      d ∈ s.db.tables.deliveries ∧ d.partnerId = p.id ∧
        d.sourceEventId = some call.idempotencyKey := by
    intro d
    simp [Tables.fetchDeliveriesBySourceEventId]
  have hids : ∀ i, i ∈ (s.db.tables.fetchDeliveriesBySourceEventId p.id
      call.idempotencyKey).map (·.publicId) ↔ i ∈ call.deliveryIds := by
    intro i
    rw [List.mem_map]
    constructor
    · rintro ⟨d, hd, rfl⟩
      obtain ⟨hmem, hpid, hsrc⟩ := (hfilter d).mp hd
      exact hall d hmem (hpid.trans hqid.symm) hsrc
    · intro hi
      obtain ⟨d, hd, hpub, hpid, hsrc⟩ := hown i hi
      exact ⟨d, (hfilter d).mpr ⟨hd, hpid.trans hqid, hsrc⟩, hpub⟩
  obtain ⟨e, -, d, hd, hpid, hsrc, -⟩ := (keyTaken_iff h).mp ht
  have hmem := (hfilter d).mpr ⟨hd, hpid, hsrc⟩
  obtain ⟨first, rest, hcons⟩ := List.exists_cons_of_ne_nil (List.ne_nil_of_mem hmem)
  refine ⟨responseFor .duplicate first rest, ?_, rfl, ?_⟩
  · simp [answerConflict, hcons]
  · intro i
    rw [← hids i, hcons]
    rfl

/-- On a consistent state the strict reading of a repeated call and the condition agree. -/
theorem strictDuplicate_iff {s : Api} (h : ApiFits s) (a : ApiAction) :
    StrictDuplicate validates orm s a ↔ SharesEndpoint validates orm s a := by
  cases a with
  | admin process w => exact Iff.rfl
  | enqueue process now req =>
    refine forall_congr' fun hfresh => forall₄_congr fun call hcall hpart hkey => ?_
    have hc := h.cache process
    constructor
    · rintro ⟨-, r, hr, hdup, -⟩
      by_cases hpass : ∃ p, Passes validates s.db.tables (s.caches process) now req p
      · obtain ⟨p, hp⟩ := hpass
        have hst : RowsStorable p
            (seenEndpoints s.db.tables (s.caches process) now p.id req.eventType) req := by
          by_contra hst
          rw [enqueue_refused hp hst] at hr
          cases hr
        by_cases ht : KeyTaken s.db.tables p
            (seenEndpoints s.db.tables (s.caches process) now p.id req.eventType)
            req.idempotencyKey
        · refine ⟨p, hp.seen, hp.active, hp.valid, hst, ?_, (keyTaken_iff h).mp ht⟩
          by_contra hread
          rw [enqueue_taken hp hst ht, Bool.eq_false_iff.mpr hread] at hr
          cases hr
        · obtain ⟨db', r', he, hacc, -⟩ := enqueue_free hp hc h.endpoint_ids hst hfresh ht
          rw [he] at hr
          obtain rfl := Except.ok.inj hr
          rw [hacc] at hdup
          cases hdup
      · obtain ⟨e, he⟩ := enqueue_of_not_passes (not_exists.mp hpass)
        rw [he] at hr
        cases hr
    · rintro ⟨p, hseen, hactive, hvalid, hst, hread, hshare⟩
      have ht := (keyTaken_iff h).mpr hshare
      obtain ⟨e, he, -⟩ := hshare
      have hpass : Passes validates s.db.tables (s.caches process) now req p :=
        ⟨hseen, hactive, hvalid, List.ne_nil_of_mem he⟩
      obtain ⟨q, hq, hqid, hqpub⟩ := seenPartner_stored hc hseen
      rw [enqueue_taken hpass hst ht, hread]
      refine ⟨rfl, ?_⟩
      rw [← hkey] at ht ⊢
      exact raced_eq h hcall ⟨q, hq, hqid, hqpub.trans hpart.symm⟩ ht _

theorem CacheFits.mono {t t' : Tables} {c : AcceptPathCache} (h : CacheFits t c)
    (ha : Administers t t') : CacheFits t' c := by
  refine ⟨?_, ?_⟩
  · intro i expiresAt p hp
    obtain ⟨q, hq, hid, hpub⟩ := h.partner i expiresAt p hp
    obtain ⟨q', hq', hid', hpub'⟩ := ha.partners q hq
    exact ⟨q', hq', hid'.trans hid, hpub'.trans hpub⟩
  · intro n eventType expiresAt es hes
    obtain ⟨hnd, hall⟩ := h.endpoints n eventType expiresAt es hes
    refine ⟨hnd, ?_⟩
    intro e he
    obtain ⟨f, hf, hid⟩ := hall e he
    obtain ⟨f', hf', hid'⟩ := ha.endpoints f hf
    exact ⟨f', hf', hid'.trans hid⟩

/-- A cache with fewer entries fits as well. -/
theorem CacheFits.sub {t : Tables} {c c' : AcceptPathCache} (h : CacheFits t c)
    (hp : ∀ i x, c'.partners i = some x → c.partners i = some x)
    (he : ∀ n eventType x, c'.endpoints n eventType = some x → c.endpoints n eventType = some x) :
    CacheFits t c' :=
  ⟨fun i expiresAt p hx => h.partner i expiresAt p (hp i _ hx),
    fun n eventType expiresAt es hx => h.endpoints n eventType expiresAt es (he n eventType _ hx)⟩

theorem CacheFits.invalidatePartnerEndpoints {t : Tables} {c : AcceptPathCache}
    (h : CacheFits t c) (n : Nat) : CacheFits t (c.invalidatePartnerEndpoints n) := by
  refine h.sub (fun _ _ hx => hx) ?_
  intro m eventType x hx
  by_cases he : m = n
  · subst he
    simp [AcceptPathCache.invalidatePartnerEndpoints] at hx
  · simpa [AcceptPathCache.invalidatePartnerEndpoints, he] using hx

theorem CacheFits.invalidatePartner {t : Tables} {c : AcceptPathCache} (h : CacheFits t c)
    (i : Uuid) : CacheFits t (c.invalidatePartner i) := by
  have hdrop : CacheFits t { c with partners := Function.update c.partners i none } :=
    h.sub (fun _ _ hx => (Slots.update_none_some hx).1) fun _ _ _ hx => hx
  unfold AcceptPathCache.invalidatePartner
  simp only
  split
  · exact hdrop
  · exact hdrop.invalidatePartnerEndpoints _

theorem CacheFits.afterAdmin {t t' : Tables} {c : AcceptPathCache} (h : CacheFits t c)
    (ha : Administers t t') (w : AdminWrite) : CacheFits t' (c.afterAdmin t w) := by
  have h' := h.mono ha
  cases w with
  | createPartner p => exact h'.invalidatePartner _
  | updatePartner i body => exact h'.invalidatePartner _
  | createEndpoint i e =>
    simp only [AcceptPathCache.afterAdmin]
    split
    · exact h'
    · exact h'.invalidatePartnerEndpoints _
  | updateEndpoint i body =>
    simp only [AcceptPathCache.afterAdmin]
    split
    · exact h'
    · exact h'.invalidatePartnerEndpoints _
  | createPayloadSchema s => exact h'.sub (fun _ _ hx => hx) fun _ _ _ hx => hx

theorem CacheFits.withPartner {t : Tables} {c : AcceptPathCache} (h : CacheFits t c) (now : Time)
    (i : Uuid) : CacheFits t (c.withPartner t now i) := by
  unfold AcceptPathCache.withPartner
  split
  · rename_i p _ hf
    refine ⟨?_, h.endpoints⟩
    intro j expiresAt p' hx
    by_cases he : j = i
    · subst he
      simp only [Function.update_self, cacheSet, Option.some.injEq, Prod.mk.injEq] at hx
      obtain ⟨-, rfl⟩ := hx
      exact ⟨p, List.mem_of_find?_eq_some hf, rfl, by simpa using List.find?_some hf⟩
    · simp only [Function.update_of_ne he] at hx
      exact h.partner j expiresAt p' hx
  · exact h

theorem CacheFits.withSchema {t : Tables} {c : AcceptPathCache} (h : CacheFits t c) (now : Time)
    (eventType : String) : CacheFits t (c.withSchema t now eventType) := by
  unfold AcceptPathCache.withSchema
  split
  · exact h.sub (fun _ _ hx => hx) fun _ _ _ hx => hx
  · exact h

theorem CacheFits.withEndpoints {t : Tables} {c : AcceptPathCache} (h : CacheFits t c)
    (hn : (t.endpoints.map (·.id)).Nodup) (now : Time) (n : Nat) (eventType : String) :
    CacheFits t (c.withEndpoints t now n eventType) := by
  unfold AcceptPathCache.withEndpoints
  split
  · refine ⟨h.partner, ?_⟩
    intro m et expiresAt es hx
    by_cases hm : m = n
    · subst hm
      simp only [Function.update_self] at hx
      by_cases het : et = eventType
      · subst het
        simp only [Function.update_self, cacheSet, Option.some.injEq, Prod.mk.injEq] at hx
        obtain ⟨-, rfl⟩ := hx
        exact ⟨hn.sublist (List.filter_sublist.map _),
          fun e he => ⟨e, (List.mem_filter.mp he).1, rfl⟩⟩
      · rw [Function.update_of_ne het] at hx
        exact h.endpoints m et expiresAt es hx
    · simp only [Function.update_of_ne hm] at hx
      exact h.endpoints m et expiresAt es hx
  · exact h

theorem CacheFits.afterEnqueue {t : Tables} {c : AcceptPathCache} (h : CacheFits t c)
    (hn : (t.endpoints.map (·.id)).Nodup) (now : Time) (req : EnqueueRequest) :
    CacheFits t (c.afterEnqueue validates t now req) := by
  have h₁ := h.withPartner now req.partnerId
  have h₂ := h₁.withSchema now req.eventType
  unfold AcceptPathCache.afterEnqueue
  simp only
  split
  · exact h₁
  · split_ifs
    · exact h₁
    · exact h₂
    · exact h₂.withEndpoints hn now _ _

/-- Administrative writes keep the accepted calls what they are. -/
theorem apiFits_admin {s : Api} (h : ApiFits s) (process : Nat) (w : AdminWrite) :
    ApiFits
      { s with
        db := s.db.admin w
        caches := Function.update s.caches process
          ((s.caches process).afterAdmin s.db.tables w) } := by
  have ha := admin_administers s.db.tables w
  have hd : (s.db.admin w).tables.deliveries = s.db.tables.deliveries := by
    change (s.db.tables.admin w).deliveries = _
    rw [ha.frame]
  refine ⟨ha.partner_ids h.partner_ids, ha.partner_publicIds h.partner_publicIds,
    ha.endpoint_ids h.endpoint_ids, ?_, hd ▸ h.keys, ?_, ?_, h.once⟩
  · intro process'
    by_cases he : process' = process
    · subst he
      simp only [Function.update_self]
      exact (h.cache process').afterAdmin ha w
    · simp only [Function.update_of_ne he]
      exact (h.cache process').mono ha
  · intro call hcall
    obtain ⟨p, hp, hpub, hall, hown⟩ := (h.call call hcall).partner
    obtain ⟨q, hq, hqid, hqpub⟩ := ha.partners p hp
    refine ⟨q, hq, hqpub.trans hpub, ?_, ?_⟩
    · intro d hmem hpid
      exact hall d (hd ▸ hmem) (hpid.trans hqid)
    · intro i hi
      obtain ⟨d, hmem, hdp, hpid, hsrc⟩ := hown i hi
      exact ⟨d, hd ▸ hmem, hdp, hpid.trans hqid.symm, hsrc⟩
  · intro d hmem
    obtain ⟨call, hcall, p, hp, hpid, hpub, hsrc⟩ := h.owner d (hd ▸ hmem)
    obtain ⟨q, hq, hqid, hqpub⟩ := ha.partners p hp
    exact ⟨call, hcall, q, hq, hqid.trans hpid, hqpub.trans hpub, hsrc⟩

theorem cache_answered {s : Api} (h : ApiFits s) (process : Nat) (now : Time)
    (req : EnqueueRequest) (process' : Nat) :
    CacheFits s.db.tables (Function.update s.caches process
      ((s.caches process).afterEnqueue validates s.db.tables now req) process') := by
  by_cases he : process' = process
  · subst he
    rw [Function.update_self]
    exact (h.cache process').afterEnqueue h.endpoint_ids now req
  · rw [Function.update_of_ne he]
    exact h.cache process'

/-- A call that is answered without an insert keeps everything. -/
theorem apiFits_unchanged {s : Api} (h : ApiFits s) (process : Nat) (now : Time)
    (req : EnqueueRequest) {r : Except HubError EnqueueResponse}
    (hr : acceptedCalls req r = []) : ApiFits (s.answered validates process now req (s.db, r)) := by
  have ha : (s.answered validates process now req (s.db, r)).accepted = s.accepted := by
    simp [Api.answered, hr]
  exact
    { h with
      cache := cache_answered h process now req
      call := ha ▸ h.call
      owner := ha ▸ h.owner
      once := by
        rw [AcceptedOnce, ha]
        exact h.once }

theorem answerConflict_not_accepted (partnerReadable endpointsReadable : Bool) (t : Tables)
    (p : Partner) (es : List PartnerEndpoint) (req : EnqueueRequest) :
    acceptedCalls req
      (answerConflict partnerReadable endpointsReadable t p es req.idempotencyKey) = [] := by
  cases h : answerConflict partnerReadable endpointsReadable t p es req.idempotencyKey with
  | error e => rfl
  | ok r =>
    have hdup := answerConflict_duplicate h
    simp [acceptedCalls, hdup]

/-- A first call for its partner and key adds its deliveries and itself. -/
theorem apiFits_accepted {s : Api} (h : ApiFits s) (process : Nat) (now : Time)
    {req : EnqueueRequest} {p : Partner} {es : List PartnerEndpoint} {db' : Db}
    (hseen : ∃ q ∈ s.db.tables.partners, q.id = p.id ∧ q.publicId = req.partnerId)
    (hok : s.db.acceptEvent p es req = .ok db')
    {r : EnqueueResponse} (hr : r.status = .accepted)
    (hids : r.deliveryIds = (createdDeliveries p es req).map (·.publicId))
    (hfirst : ∀ call ∈ s.accepted, call.partnerId = req.partnerId →
      call.idempotencyKey ≠ req.idempotencyKey) :
    ApiFits (s.answered validates process now req (db', .ok r)) := by
  have hadd : (s.answered validates process now req (db', .ok r)).accepted =
      s.accepted ++ [⟨req.partnerId, req.idempotencyKey, r.deliveryIds⟩] := by
    simp [Api.answered, acceptedCalls, hr]
  obtain ⟨rows, events, hacc, htab⟩ := accept_ok hok
  obtain ⟨q, hq, hqid, hqpub⟩ := hseen
  have hrow : ∀ d ∈ rows, d.partnerId = p.id ∧ d.sourceEventId = some req.idempotencyKey ∧
      d.idempotencyKey = derivedIdempotencyKey req.idempotencyKey d.endpointId := by
    intro d hd
    obtain ⟨e, -, publicId, hb⟩ := hacc.built d hd
    rw [hb]
    exact ⟨rfl, rfl, rfl⟩
  have hnone : ∀ d ∈ s.db.tables.deliveries, d.partnerId = p.id →
      d.sourceEventId ≠ some req.idempotencyKey := by
    intro d hd hpid hsrc
    obtain ⟨call, hcall, p', hp', hpid', hpub', hsrc'⟩ := h.owner d hd
    obtain rfl := Table.eq_of_unique h.partner_ids hp' hq (hpid'.trans (hpid.trans hqid.symm))
    exact hfirst call hcall (hpub'.symm.trans hqpub) (Option.some.inj (hsrc'.symm.trans hsrc))
  have hdel : ∀ d, d ∈ db'.tables.deliveries ↔ d ∈ s.db.tables.deliveries ∨ d ∈ rows := by
    intro d
    rw [htab]
    exact List.mem_append
  have hpart : db'.tables.partners = s.db.tables.partners := by rw [htab]; rfl
  have hends : db'.tables.endpoints = s.db.tables.endpoints := by rw [htab]; rfl
  refine ⟨hpart ▸ h.partner_ids, hpart ▸ h.partner_publicIds, hends ▸ h.endpoint_ids, ?_, ?_, ?_, ?_,
    ?_⟩
  · intro process'
    obtain ⟨hcp, hce⟩ := cache_answered h process now req process'
    exact ⟨hpart ▸ hcp, hends ▸ hce⟩
  · intro d hd
    rcases (hdel d).mp hd with hold | hnew
    · exact h.keys d hold
    · exact ⟨_, (hrow d hnew).2⟩
  · intro call hcall
    rw [hadd] at hcall
    rcases List.mem_append.mp hcall with hold | hnew
    · obtain ⟨p', hp', hpub', hall, hown⟩ := (h.call call hold).partner
      refine ⟨p', hpart ▸ hp', hpub', ?_, ?_⟩
      · intro d hd hpid hsrc
        rcases (hdel d).mp hd with hin | hin
        · exact hall d hin hpid hsrc
        · obtain ⟨hdp, hds, -⟩ := hrow d hin
          have hpq : p'.id = q.id := hpid.symm.trans (hdp.trans hqid.symm)
          obtain rfl := Table.eq_of_unique h.partner_ids hp' hq hpq
          exact absurd (Option.some.inj (hsrc.symm.trans hds))
            (hfirst call hold (hpub'.symm.trans hqpub))
      · intro i hi
        obtain ⟨d, hd, hrest⟩ := hown i hi
        exact ⟨d, (hdel d).mpr (.inl hd), hrest⟩
    · rw [List.mem_singleton.mp hnew]
      refine ⟨q, hpart ▸ hq, hqpub, ?_, ?_⟩
      · intro d hd hpid hsrc
        rcases (hdel d).mp hd with hin | hin
        · exact absurd hsrc (hnone d hin (hpid.trans hqid))
        · rw [hids, ← hacc.publicIds]
          exact List.mem_map_of_mem hin
      · intro i hi
        rw [hids, ← hacc.publicIds] at hi
        obtain ⟨d, hd, rfl⟩ := List.mem_map.mp hi
        exact ⟨d, (hdel d).mpr (.inr hd), rfl, (hrow d hd).1.trans hqid.symm, (hrow d hd).2.1⟩
  · intro d hd
    rw [hadd]
    rcases (hdel d).mp hd with hold | hnew
    · obtain ⟨call, hcall, p', hp', hrest⟩ := h.owner d hold
      exact ⟨call, List.mem_append_left _ hcall, p', hpart ▸ hp', hrest⟩
    · exact ⟨_, List.mem_append_right _ (List.mem_singleton.mpr rfl), q, hpart ▸ hq,
        hqid.trans (hrow d hnew).1.symm, hqpub, (hrow d hnew).2.1⟩
  · rw [AcceptedOnce, hadd]
    refine nodup_map_snoc h.once ?_
    intro call hcall he
    exact hfirst call hcall (Prod.mk.inj he).1 (Prod.mk.inj he).2

theorem apiFits_step {s s' : Api} {a : ApiAction} (h : ApiFits s)
    (hq : StrictDuplicate validates orm s a) (hs : s.step validates orm a = some s') : ApiFits s' := by
  cases a with
  | admin process w =>
    cases hs
    exact apiFits_admin h process w
  | enqueue process now req =>
    simp only [Api.step] at hs
    split at hs
    · rename_i hfresh
      cases hs
      by_cases hpass : ∃ p, Passes validates s.db.tables (s.caches process) now req p
      · obtain ⟨p, hp⟩ := hpass
        have hseen := seenPartner_stored (h.cache process) hp.seen
        by_cases hst : RowsStorable p
            (seenEndpoints s.db.tables (s.caches process) now p.id req.eventType) req
        swap
        · rw [enqueue_refused hp hst]
          exact apiFits_unchanged h process now req rfl
        by_cases ht : KeyTaken s.db.tables p
            (seenEndpoints s.db.tables (s.caches process) now p.id req.eventType)
            req.idempotencyKey
        · rw [enqueue_taken hp hst ht]
          exact apiFits_unchanged h process now req (answerConflict_not_accepted _ _ _ _ _ _)
        · obtain ⟨db', r, he, hacc, hok, hids⟩ :=
            enqueue_free hp (h.cache process) h.endpoint_ids hst hfresh ht
          rw [he]
          refine apiFits_accepted h process now hseen hok hacc hids ?_
          intro call hcall hpart hkey
          obtain ⟨-, r', hr', hdup, -⟩ := hq hfresh call hcall hpart hkey
          rw [he] at hr'
          obtain rfl := Except.ok.inj hr'
          rw [hacc] at hdup
          cases hdup
      · obtain ⟨e, he⟩ := enqueue_of_not_passes (not_exists.mp hpass)
        rw [he]
        exact apiFits_unchanged h process now req rfl
    · cases hs

/-- Over every run of calls and administrative writes, repeated keys get the strict
treatment, and each partner and key is accepted once, exactly when every repeated call
passes its checks, has rows that PostgreSQL stores, can read its partner after a rollback and
shares an endpoint with the deliveries under its key. -/
theorem strict_duplicate_iff (validates : PayloadSchema → Payload → Bool) (orm : LoadedRows)
    (as : List ApiAction) :
    (Along (Api.step validates orm) (StrictDuplicate validates orm) Api.init as ∧
      Throughout (Api.step validates orm) AcceptedOnce Api.init as) ↔
    Along (Api.step validates orm) (SharesEndpoint validates orm) Api.init as := by
  have hiff : Along (Api.step validates orm) (StrictDuplicate validates orm) Api.init as ↔
      Along (Api.step validates orm) (SharesEndpoint validates orm) Api.init as :=
    along_iff_along ApiFits (fun _ _ _ h hq hs => apiFits_step h hq hs)
      (fun _ a h => strictDuplicate_iff h a) apiFits_init
  constructor
  · exact fun h => hiff.mp h.1
  · intro h
    have hstrict := hiff.mpr h
    exact ⟨hstrict, throughout_of_invariant ApiFits (fun _ _ _ h hq hs => apiFits_step h hq hs)
      (fun _ h => h.once) apiFits_init hstrict⟩

/-- The endpoint of the first call is paused and another one is created. -/
def movedEndpointRun : List ApiAction :=
  [.admin 0 (.createPartner acme), .admin 0 (.createEndpoint 1 acmeEndpoint),
    .enqueue 0 0 (acmeRequest "k"), .admin 0 (.updateEndpoint 2 ⟨some .paused, none, none, none⟩),
    .admin 0 (.createEndpoint 1 { acmeEndpoint with id := 3 })]

/-- The repeated call, a minute later. -/
def repeatedRequest : EnqueueRequest :=
  { acmeRequest "k" with publicIds := fun i => BitVec.ofNat 128 (20 + i) }

theorem moved_endpoint_accepts_again :
    ¬ Along (Api.step (fun _ _ => true) .expire) (StrictDuplicate (fun _ _ => true) .expire) Api.init
      (movedEndpointRun ++ [.enqueue 0 60 repeatedRequest]) := by
  intro h
  obtain ⟨s, hrun, hfresh, call, hcall, hpart, hkey, hacc⟩ :
      ∃ s, exec (Api.step (fun _ _ => true) .expire) Api.init movedEndpointRun = some s ∧
        FreshIds s.db.tables
          (callEndpoints s.db.tables (s.caches 0) 60 repeatedRequest).length repeatedRequest ∧
        ∃ call ∈ s.accepted, call.partnerId = repeatedRequest.partnerId ∧
          call.idempotencyKey = repeatedRequest.idempotencyKey ∧
          (s.db.enqueueOutboundForEvent (fun _ _ => true) .expire (s.caches 0) 60
            repeatedRequest).2.toOption.map (·.status) = some .accepted :=
    ⟨_, rfl, by decide +kernel, _, List.mem_singleton.mpr rfl, rfl, rfl, by decide +kernel⟩
  obtain ⟨-, r, hr, hdup, -⟩ := ((along_append h).2 s hrun).1 hfresh call hcall hpart hkey
  rw [hr] at hacc
  have hstatus : r.status = .accepted := Option.some.inj hacc
  rw [hstatus] at hdup
  cases hdup

end PartnerHub.Outbound
