import PartnerHub.Outbound.Replay

/-!
# Accepting an outbound event

The part of `enqueue_outbound_for_event` that follows the look-ups: one delivery and
one envelope per endpoint (`delivery_service.py`), persisted with their outbox rows by
the single statement of `outbox.py`. The statement inserts everything or, on a
violated constraint, nothing.
-/
namespace PartnerHub.Outbound

open PartnerHub.Domain PartnerHub.Lib

/-- `derived_idempotency_key`: the caller's key, `::` and the endpoint's public id. -/
def derivedIdempotencyKey (clientKey : String) (endpointPublicId : Uuid) : String :=
  clientKey ++ "::" ++ endpointPublicId.text

/-- The arguments of one `enqueue_outbound_for_event` call, with the ids
`generate_uuidv7` hands out during it, the database's time, and the rows PostgreSQL can
store: it refuses U+0000 and lone surrogates, in JSONB too, and a text longer than its
column. -/
structure EnqueueRequest where
  partnerId : Uuid
  eventType : String
  payload : Payload
  idempotencyKey : String
  correlationId : String
  now : Time
  publicIds : Nat → Uuid
  createdAt : Time
  storable : Delivery → Bool := fun _ => true

/-- `build_pending_delivery`; the primary key is assigned on insertion. -/
def buildPendingDelivery (partner : Partner) (endpoint : PartnerEndpoint) (req : EnqueueRequest)
    (publicId : Uuid) : Delivery where
  id := 0
  publicId := publicId
  partnerId := partner.id
  endpointId := endpoint.id
  eventType := req.eventType
  idempotencyKey := derivedIdempotencyKey req.idempotencyKey endpoint.id
  payload := req.payload
  status := .pending
  attemptCount := 0
  maxAttempts := endpoint.maxAttempts
  nextRetryAt := none
  firstSuccessAt := none
  slaDeadlineAt := computeSlaDeadline req.now partner endpoint
  slaBreached := false
  lastErrorCode := none
  lastErrorMessage := none
  correlationId := req.correlationId
  sourceEventId := some req.idempotencyKey
  createdAt := req.createdAt

/-- The loop over the endpoints. -/
def createdDeliveries (partner : Partner) (endpoints : List PartnerEndpoint)
    (req : EnqueueRequest) : List Delivery :=
  endpoints.mapIdx fun i e => buildPendingDelivery partner e req (req.publicIds i)

/-- `build_outbound_pending_envelope` as the accept path calls it. -/
def pendingEnvelope (partner : Partner) (req : EnqueueRequest) (delivery : Delivery)
    (endpoint : PartnerEndpoint) : OutboundEnvelope where
  deliveryId := delivery.publicId
  partnerId := partner.publicId
  endpointId := endpoint.id
  eventType := req.eventType
  attempt := 1
  payload := req.payload
  idempotencyKey := req.idempotencyKey
  correlationId := req.correlationId
  scheduledAt := req.now
  slaDeadlineAt := delivery.slaDeadlineAt

/-- Identity columns: consecutive numbers above the sequence. -/
def numberDeliveries (seq : Nat) (rows : List Delivery) : List Delivery :=
  rows.mapIdx fun i d => { d with id := seq + 1 + i }

def numberOutbox (seq : Nat) (rows : List OutboxEvent) : List OutboxEvent :=
  rows.mapIdx fun i o => { o with id := seq + 1 + i }

/-- The SELECT of the statement: inserted deliveries joined with the envelopes on
the public id. -/
def joinEnvelopes (inserted : List Delivery) (envelopes : List (Uuid × OutboundEnvelope))
    (messageKey : Uuid) (topic : Topic) (createdAt : Time) : List OutboxEvent :=
  inserted.flatMap fun d => (envelopes.filter fun e => e.1 = d.publicId).map fun e =>
    { id := 0, aggregateType := .delivery, aggregateId := d.id, topic := topic
      messageKey := messageKey, payload := .outbound e.2, createdAt := createdAt
      publishedAt := none, publishAttempts := 0 }

def Tables.inserted (t : Tables) (rows : List Delivery) (events : List OutboxEvent) : Tables :=
  { t with
    deliveries := t.deliveries ++ rows
    deliverySeq := t.deliverySeq + rows.length
    outbox := t.outbox ++ events
    outboxSeq := t.outboxSeq + events.length }

/-- The foreign keys of new delivery rows. -/
def Tables.Owns (t : Tables) (rows : List Delivery) : Prop :=
  ∀ d ∈ rows, (∃ p ∈ t.partners, p.id = d.partnerId) ∧ ∃ e ∈ t.endpoints, e.id = d.endpointId

instance (t : Tables) (rows : List Delivery) : Decidable (t.Owns rows) :=
  inferInstanceAs (Decidable (∀ d ∈ rows, _))

theorem numberDeliveries_ids (seq : Nat) (rows : List Delivery) :
    (numberDeliveries seq rows).map (·.id) =
      List.range' (seq + 1) (numberDeliveries seq rows).length := by
  apply List.ext_getElem
  · simp [numberDeliveries]
  · intro i h₁ h₂
    simp [numberDeliveries]

theorem numberOutbox_ids (seq : Nat) (rows : List OutboxEvent) :
    (numberOutbox seq rows).map (·.id) =
      List.range' (seq + 1) (numberOutbox seq rows).length := by
  apply List.ext_getElem
  · simp [numberOutbox]
  · intro i h₁ h₂
    simp [numberOutbox]

/-- Appending consecutive numbers above all old ones keeps a column unique. -/
theorem nodup_append_range {l : List Nat} {seq n : Nat} (hl : l.Nodup) (hle : ∀ i ∈ l, i ≤ seq) :
    (l ++ List.range' (seq + 1) n).Nodup := by
  refine List.nodup_append.mpr ⟨hl, List.nodup_range', ?_⟩
  intro a ha b hb
  have h1 := hle a ha
  have h2 := (List.mem_range'_1.mp hb).1
  omega

theorem mem_range_le {seq n i : Nat} (h : i ∈ List.range' (seq + 1) n) : i ≤ seq + n := by
  have := (List.mem_range'_1.mp h).2
  omega

theorem Tables.Consistent.inserted {t : Tables} (h : t.Consistent) {rows : List Delivery}
    {events : List OutboxEvent} (ho : t.Owns rows)
    (hid : rows.map (·.id) = List.range' (t.deliverySeq + 1) rows.length)
    (hpub : ((t.deliveries ++ rows).map (·.publicId)).Nodup)
    (hkey : ((t.deliveries ++ rows).map fun d => (d.partnerId, d.idempotencyKey)).Nodup)
    (hev : events.map (·.id) = List.range' (t.outboxSeq + 1) events.length) :
    (t.inserted rows events).Consistent where
  delivery_id := by
    simp only [Tables.inserted, List.map_append, hid]
    refine nodup_append_range h.delivery_id ?_
    intro i hi
    obtain ⟨d, hd, rfl⟩ := List.mem_map.mp hi
    exact h.delivery_seq d hd
  delivery_publicId := hpub
  delivery_key := hkey
  delivery_seq := by
    intro d hd
    rcases List.mem_append.mp hd with hold | hnew
    · exact (h.delivery_seq d hold).trans (Nat.le_add_right _ _)
    · exact mem_range_le (hid ▸ List.mem_map_of_mem hnew)
  delivery_partner := by
    intro d hd
    rcases List.mem_append.mp hd with hold | hnew
    · exact h.delivery_partner d hold
    · exact (ho d hnew).1
  delivery_endpoint := by
    intro d hd
    rcases List.mem_append.mp hd with hold | hnew
    · exact h.delivery_endpoint d hold
    · exact (ho d hnew).2
  attempt_number := h.attempt_number
  attempt_delivery := by
    intro a ha
    obtain ⟨d, hd, he⟩ := h.attempt_delivery a ha
    exact ⟨d, List.mem_append_left _ hd, he⟩
  deadLetter_unique := h.deadLetter_unique
  deadLetter_delivery := by
    intro l hl
    obtain ⟨d, hd, he⟩ := h.deadLetter_delivery l hl
    exact ⟨d, List.mem_append_left _ hd, he⟩
  outbox_id := by
    simp only [Tables.inserted, List.map_append, hev]
    refine nodup_append_range h.outbox_id ?_
    intro i hi
    obtain ⟨o, ho, rfl⟩ := List.mem_map.mp hi
    exact h.outbox_seq o ho
  outbox_seq := by
    intro o ho
    rcases List.mem_append.mp ho with hold | hnew
    · exact (h.outbox_seq o hold).trans (Nat.le_add_right _ _)
    · exact mem_range_le (hev ▸ List.mem_map_of_mem hnew)

inductive PersistError where
  | valueError (message : String)
  | dataError
  | integrity (constraint : Constraint)
  deriving DecidableEq

/-- `persist_deliveries_and_outbox`, committed. A value that PostgreSQL refuses is refused
before any constraint is looked at. -/
def Db.persistDeliveriesAndOutbox (db : Db) (storable : Delivery → Bool)
    (deliveries : List Delivery) (envelopes : List OutboundEnvelope) (messageKey : Uuid) (topic : Topic) (createdAt : Time) :
    Except PersistError Db :=
  let t := db.tables
  if deliveries.length ≠ envelopes.length then
    .error (.valueError "envelopes count must match deliveries")
  else if deliveries = [] then .error (.valueError "deliveries must not be empty")
  else if deliveries.all storable = false then .error .dataError
  else
    let rows := numberDeliveries t.deliverySeq deliveries
    let envelopeRows := (deliveries.map (·.publicId)).zip envelopes
    let events := numberOutbox t.outboxSeq
      (joinEnvelopes rows envelopeRows messageKey topic createdAt)
    if ho : t.Owns rows then
      if hp : ((t.deliveries ++ rows).map (·.publicId)).Nodup then
        if hk : ((t.deliveries ++ rows).map fun d => (d.partnerId, d.idempotencyKey)).Nodup then
          .ok ⟨t.inserted rows events, db.consistent.inserted ho (numberDeliveries_ids _ _) hp hk
            (numberOutbox_ids _ _)⟩
        else .error (.integrity .deliveriesPartnerKey)
      else .error (.integrity .deliveriesPublicId)
    else .error (.integrity .foreignKey)

/-- The insert of an accepted event for one partner and its endpoints. -/
def Db.acceptEvent (db : Db) (partner : Partner) (endpoints : List PartnerEndpoint)
    (req : EnqueueRequest) : Except PersistError Db :=
  let deliveries := createdDeliveries partner endpoints req
  db.persistDeliveriesAndOutbox req.storable deliveries
    (List.zipWith (pendingEnvelope partner req) deliveries endpoints)
    partner.publicId .outboundPending req.createdAt

/-- What an accepted event adds: fresh PENDING deliveries for the partner and, for
each of them, an unpublished outbox row that names it on the pending topic. -/
structure Accepts (t : Tables) (partner : Partner) (endpoints : List PartnerEndpoint)
    (req : EnqueueRequest) (rows : List Delivery) (events : List OutboxEvent) : Prop where
  fresh : ∀ d ∈ rows, t.deliverySeq < d.id
  built : ∀ d ∈ rows, ∃ e ∈ endpoints, ∃ publicId,
    d = { buildPendingDelivery partner e req publicId with id := d.id }
  publicIds : rows.map (·.publicId) = (createdDeliveries partner endpoints req).map (·.publicId)
  fresh_events : ∀ o ∈ events, t.outboxSeq < o.id
  carried : ∀ d ∈ rows, ∃ o ∈ events, o.publishedAt = none ∧ o.topic = .outboundPending ∧
    o.payload.deliveryId = some d.publicId

theorem map_numberDeliveries {β : Type*} (g : Delivery → β) (hg : ∀ d n, g { d with id := n } = g d)
    (seq : Nat) (rows : List Delivery) : (numberDeliveries seq rows).map g = rows.map g := by
  apply List.ext_getElem
  · simp [numberDeliveries]
  · intro i h₁ h₂
    simp [numberDeliveries, hg]

theorem mem_numberDeliveries {seq : Nat} {rows : List Delivery} {d : Delivery}
    (h : d ∈ numberDeliveries seq rows) :
    ∃ i, ∃ d₀ ∈ rows, d = { d₀ with id := seq + 1 + i } := by
  obtain ⟨i, hi, rfl⟩ := List.mem_mapIdx.mp h
  exact ⟨i, rows[i], List.getElem_mem hi, rfl⟩

theorem mem_numberOutbox (seq : Nat) {rows : List OutboxEvent} {o : OutboxEvent}
    (h : o ∈ rows) : ∃ i, { o with id := seq + 1 + i } ∈ numberOutbox seq rows := by
  obtain ⟨i, hi, rfl⟩ := List.mem_iff_getElem.mp h
  exact ⟨i, List.mem_mapIdx.mpr ⟨i, hi, rfl⟩⟩

theorem mem_joinEnvelopes {inserted : List Delivery} {envelopes : List (Uuid × OutboundEnvelope)}
    {d : Delivery} {e : OutboundEnvelope} (key : Uuid) (topic : Topic) (createdAt : Time)
    (hd : d ∈ inserted) (he : (d.publicId, e) ∈ envelopes) :
    ∃ o ∈ joinEnvelopes inserted envelopes key topic createdAt,
      o.payload = .outbound e ∧ o.topic = topic ∧ o.publishedAt = none := by
  refine ⟨_, List.mem_flatMap.mpr ⟨d, hd, List.mem_map.mpr ⟨_, List.mem_filter.mpr ⟨he, ?_⟩, rfl⟩⟩,
    rfl, rfl, rfl⟩
  simp

/-- Every created delivery has the envelope for its endpoint among those of the statement. -/
theorem envelope_of_created {partner : Partner} {endpoints : List PartnerEndpoint}
    {req : EnqueueRequest} {d : Delivery} (h : d ∈ createdDeliveries partner endpoints req) :
    ∃ endpoint ∈ endpoints, d.endpointId = endpoint.id ∧
      (d.publicId, pendingEnvelope partner req d endpoint) ∈
        ((createdDeliveries partner endpoints req).map (·.publicId)).zip
          (List.zipWith (pendingEnvelope partner req) (createdDeliveries partner endpoints req)
            endpoints) := by
  obtain ⟨i, hi, rfl⟩ := List.mem_iff_getElem.mp h
  have hlen : i < endpoints.length := by simpa [createdDeliveries] using hi
  refine ⟨endpoints[i], List.getElem_mem hlen, ?_, ?_⟩
  · simp [createdDeliveries, buildPendingDelivery]
  · exact List.mem_iff_getElem.mpr ⟨i, by simp [hi, hlen], by simp⟩

/-- A successful insert adds the numbered rows, joined with the envelopes for their
endpoints; their public ids are pairwise distinct. -/
theorem acceptEvent_inserts {db db' : Db} {partner : Partner} {endpoints : List PartnerEndpoint}
    {req : EnqueueRequest} (h : db.acceptEvent partner endpoints req = .ok db') :
    ((createdDeliveries partner endpoints req).map (·.publicId)).Nodup ∧
      db'.tables = db.tables.inserted
        (numberDeliveries db.tables.deliverySeq (createdDeliveries partner endpoints req))
        (numberOutbox db.tables.outboxSeq
          (joinEnvelopes
            (numberDeliveries db.tables.deliverySeq (createdDeliveries partner endpoints req))
            (((createdDeliveries partner endpoints req).map (·.publicId)).zip
              (List.zipWith (pendingEnvelope partner req) (createdDeliveries partner endpoints req)
                endpoints))
            partner.publicId .outboundPending req.createdAt)) := by
  unfold Db.acceptEvent Db.persistDeliveriesAndOutbox at h
  simp only at h
  split_ifs at h with hlen hnil hstored ho hp hk
  cases h
  refine ⟨?_, rfl⟩
  rw [List.map_append] at hp
  have hrows := (List.nodup_append.mp hp).2.1
  rwa [map_numberDeliveries _ (fun _ _ => rfl)] at hrows

theorem accept_ok {db db' : Db} {partner : Partner} {endpoints : List PartnerEndpoint}
    {req : EnqueueRequest} (h : db.acceptEvent partner endpoints req = .ok db') :
    ∃ rows events, Accepts db.tables partner endpoints req rows events ∧
      db'.tables = db.tables.inserted rows events := by
  obtain ⟨-, htables⟩ := acceptEvent_inserts h
  refine ⟨_, _, ?_, htables⟩
  refine ⟨?_, ?_, map_numberDeliveries _ (fun _ _ => rfl) _ _, ?_, ?_⟩
  · intro d hd
    obtain ⟨i, d₀, -, rfl⟩ := mem_numberDeliveries hd
    simp only
    omega
  · intro d hd
    obtain ⟨i, d₀, hd₀, rfl⟩ := mem_numberDeliveries hd
    obtain ⟨j, hj, rfl⟩ := List.mem_mapIdx.mp hd₀
    exact ⟨endpoints[j], List.getElem_mem hj, req.publicIds j, rfl⟩
  · intro o ho
    obtain ⟨i, -, rfl⟩ := List.mem_mapIdx.mp ho
    simp only
    omega
  · intro d hd
    obtain ⟨i, d₀, hd₀, rfl⟩ := mem_numberDeliveries hd
    obtain ⟨e, -, -, he⟩ := envelope_of_created hd₀
    obtain ⟨o, ho, hpay, htop, hnone⟩ :=
      mem_joinEnvelopes partner.publicId .outboundPending req.createdAt hd he
    obtain ⟨j, hj⟩ := mem_numberOutbox db.tables.outboxSeq ho
    refine ⟨_, hj, hnone, htop, ?_⟩
    simp only [hpay, Envelope.deliveryId, pendingEnvelope]

/-- The envelope of a created delivery is the only one with its key. -/
theorem filter_envelopes {partner : Partner} {endpoints : List PartnerEndpoint}
    {req : EnqueueRequest} {d : Delivery} (h : d ∈ createdDeliveries partner endpoints req)
    (hn : ((createdDeliveries partner endpoints req).map (·.publicId)).Nodup) :
    ∃ endpoint ∈ endpoints, d.endpointId = endpoint.id ∧
      (((createdDeliveries partner endpoints req).map (·.publicId)).zip
        (List.zipWith (pendingEnvelope partner req) (createdDeliveries partner endpoints req)
          endpoints)).filter (fun e => e.1 = d.publicId) =
        [(d.publicId, pendingEnvelope partner req d endpoint)] := by
  obtain ⟨endpoint, hmem, hid, he⟩ := envelope_of_created h
  have hkeys : ((((createdDeliveries partner endpoints req).map (·.publicId)).zip
      (List.zipWith (pendingEnvelope partner req) (createdDeliveries partner endpoints req)
        endpoints)).map Prod.fst).Nodup := by
    rw [List.map_fst_zip (by simp [createdDeliveries])]
    exact hn
  refine ⟨endpoint, hmem, hid, Table.filter_eq_singleton hkeys.of_map he (by simp) ?_⟩
  intro x hx hk
  exact Table.eq_of_unique hkeys hx he (by simpa using hk)

/-- Rows with one envelope each are joined to one outbox row each. -/
theorem joinEnvelopes_names {inserted : List Delivery} {envelopes : List (Uuid × OutboundEnvelope)}
    (key : Uuid) (topic : Topic) (createdAt : Time)
    (h : ∀ d ∈ inserted, ∃ e : OutboundEnvelope, e.deliveryId = d.publicId ∧
      envelopes.filter (fun e => e.1 = d.publicId) = [(d.publicId, e)]) :
    (joinEnvelopes inserted envelopes key topic createdAt).map (·.payload.deliveryId) =
      inserted.map fun d => some d.publicId := by
  induction inserted with
  | nil => rfl
  | cons d rest ih =>
    obtain ⟨e, hname, hfilter⟩ := h d List.mem_cons_self
    have hrest := ih fun d' hd' => h d' (List.mem_cons_of_mem _ hd')
    rw [joinEnvelopes] at hrest ⊢
    rw [List.flatMap_cons, List.map_append, hrest, hfilter]
    simp [Envelope.deliveryId, hname]

theorem map_numberOutbox {β : Type*} (g : OutboxEvent → β) (hg : ∀ o n, g { o with id := n } = g o)
    (seq : Nat) (rows : List OutboxEvent) : (numberOutbox seq rows).map g = rows.map g := by
  apply List.ext_getElem
  · simp [numberOutbox]
  · intro i h₁ h₂
    simp [numberOutbox, hg]

/-- The outbox rows of an accepted event name its deliveries, one row each. -/
theorem accept_named {db db' : Db} {partner : Partner} {endpoints : List PartnerEndpoint}
    {req : EnqueueRequest} (h : db.acceptEvent partner endpoints req = .ok db') :
    ∃ rows events, db'.tables = db.tables.inserted rows events ∧
      events.map (·.payload.deliveryId) = rows.map (fun d => some d.publicId) ∧
      ∀ o ∈ events, o.topic = .outboundPending := by
  obtain ⟨hn, htables⟩ := acceptEvent_inserts h
  refine ⟨_, _, htables, ?_, ?_⟩
  · rw [map_numberOutbox _ fun _ _ => rfl]
    apply joinEnvelopes_names
    intro d hd
    obtain ⟨i, d₀, hd₀, rfl⟩ := mem_numberDeliveries hd
    obtain ⟨endpoint, -, -, hone⟩ := filter_envelopes hd₀ hn
    exact ⟨_, rfl, hone⟩
  · intro o ho
    obtain ⟨i, hi, rfl⟩ := List.mem_mapIdx.mp ho
    obtain ⟨d, -, hd⟩ := List.mem_flatMap.mp (List.getElem_mem hi)
    obtain ⟨e, -, he⟩ := List.mem_map.mp hd
    simp only [← he]

section Accepted

variable {db : Db} {partner : Partner} {endpoints : List PartnerEndpoint} {req : EnqueueRequest}
  {rows : List Delivery} {events : List OutboxEvent} {d : Delivery}

theorem Accepts.pending (ha : Accepts db.tables partner endpoints req rows events)
    (hd : d ∈ rows) : d.status = .pending := by
  obtain ⟨e, -, publicId, hb⟩ := ha.built d hd
  rw [hb]
  rfl

/-- No stored delivery has the key of a new one. -/
theorem Accepts.id_ne (ha : Accepts db.tables partner endpoints req rows events) (hd : d ∈ rows)
    {d₀ : Delivery} (hd₀ : d₀ ∈ db.tables.deliveries) : d₀.id ≠ d.id := by
  have hlt := ha.fresh d hd
  have hle := db.consistent.delivery_seq d₀ hd₀
  omega

theorem Accepts.no_attempt (ha : Accepts db.tables partner endpoints req rows events)
    (hd : d ∈ rows) {a : DeliveryAttempt} (hat : a ∈ db.tables.attempts) :
    a.deliveryId ≠ d.id := by
  obtain ⟨d₀, hd₀, hi⟩ := db.consistent.attempt_delivery a hat
  exact hi ▸ ha.id_ne hd hd₀

theorem Accepts.no_deadLetter (ha : Accepts db.tables partner endpoints req rows events)
    (hd : d ∈ rows) : ¬ db.tables.HasDeadLetter d.id := by
  rintro ⟨l, hl, hid⟩
  obtain ⟨d₀, hd₀, hi⟩ := db.consistent.deadLetter_delivery l hl
  exact ha.id_ne hd hd₀ (hi.trans hid)

/-- The new public ids are unused when the insert succeeds. -/
theorem Accepts.publicId_ne (ha : Accepts db.tables partner endpoints req rows events) {db' : Db}
    (he : db'.tables = db.tables.inserted rows events) (hd : d ∈ rows) {d₀ : Delivery}
    (hd₀ : d₀ ∈ db.tables.deliveries) : d₀.publicId ≠ d.publicId := by
  intro hi
  have hn := db'.consistent.delivery_publicId
  rw [he] at hn
  have heq := Table.eq_of_unique hn (List.mem_append_left _ hd₀) (List.mem_append_right _ hd) hi
  exact ha.id_ne hd hd₀ (by rw [heq])

end Accepted

end PartnerHub.Outbound
