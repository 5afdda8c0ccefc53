import PartnerHub.Outbound.Enqueue

/-!
# The fan-out of an accepted event

PostgreSQL promises no order for the rows of the statement of `outbox.py`: the VALUES may
be numbered, returned and joined in any order, and the join on the public id has to bring
each envelope to its delivery. Here the statement is run in an arbitrary order, and every
database call of `enqueue_outbound_for_event` may fail.
-/
namespace PartnerHub.Outbound

open PartnerHub.Domain PartnerHub.Lib

/-- An order in which PostgreSQL inserts, returns and joins the rows of the statement. -/
structure StatementOrder where
  inserts : List Delivery → List Delivery
  returns : List Delivery → List Delivery
  joins : List OutboxEvent → List OutboxEvent
  inserts_perm : ∀ rows, (inserts rows).Perm rows
  returns_perm : ∀ rows, (returns rows).Perm rows
  joins_perm : ∀ rows, (joins rows).Perm rows

def StatementOrder.asGiven : StatementOrder :=
  ⟨id, id, id, fun _ => .refl _, fun _ => .refl _, fun _ => .refl _⟩

def StatementOrder.backwards : StatementOrder :=
  ⟨List.reverse, List.reverse, List.reverse, List.reverse_perm, List.reverse_perm,
    List.reverse_perm⟩

/-- `persist_deliveries_and_outbox`, committed, with the rows in the order `σ`. -/
def Db.persistInOrder (σ : StatementOrder) (db : Db) (storable : Delivery → Bool)
    (deliveries : List Delivery) (envelopes : List OutboundEnvelope) (messageKey : Uuid) (topic : Topic) (createdAt : Time) :
    Except PersistError Db :=
  let t := db.tables
  if deliveries.length ≠ envelopes.length then
    .error (.valueError "envelopes count must match deliveries")
  else if deliveries = [] then .error (.valueError "deliveries must not be empty")
  else if deliveries.all storable = false then .error .dataError
  else
    let rows := numberDeliveries t.deliverySeq (σ.inserts deliveries)
    let envelopeRows := (deliveries.map (·.publicId)).zip envelopes
    let events := numberOutbox t.outboxSeq
      (σ.joins (joinEnvelopes (σ.returns rows) envelopeRows messageKey topic createdAt))
    if ho : t.Owns rows then
      if hp : ((t.deliveries ++ rows).map (·.publicId)).Nodup then
        if hk : ((t.deliveries ++ rows).map fun d => (d.partnerId, d.idempotencyKey)).Nodup then
          .ok ⟨t.inserted rows events, db.consistent.inserted ho (numberDeliveries_ids _ _) hp hk
            (numberOutbox_ids _ _)⟩
        else .error (.integrity .deliveriesPartnerKey)
      else .error (.integrity .deliveriesPublicId)
    else .error (.integrity .foreignKey)

def Db.acceptInOrder (σ : StatementOrder) (db : Db) (partner : Partner)
    (endpoints : List PartnerEndpoint) (req : EnqueueRequest) : Except PersistError Db :=
  let deliveries := createdDeliveries partner endpoints req
  db.persistInOrder σ req.storable deliveries
    (List.zipWith (pendingEnvelope partner req) deliveries endpoints)
    partner.publicId .outboundPending req.createdAt

/-- The calls of `enqueue_outbound_for_event` to the database. -/
inductive DatabaseCall where
  | fetchPartner | fetchSchema | fetchEndpoints | persist | rollback | fetchRaced
  | fetchConflicting | commit
  deriving DecidableEq, Repr

inductive EnqueueOutcome where
  | returned (response : EnqueueResponse)
  | raised (error : HubError)
  | databaseError (call : DatabaseCall)

def EnqueueOutcome.ofExcept : Except HubError EnqueueResponse → EnqueueOutcome
  | .ok response => .returned response
  | .error error => .raised error

/-- The `except IntegrityError` branch. -/
def conflictOutcome (fails : DatabaseCall → Bool) (partnerReadable endpointsReadable : Bool)
    (t : Tables) (partner : Partner) (endpoints : List PartnerEndpoint) (clientKey : String) :
    EnqueueOutcome :=
  if fails .rollback then .databaseError .rollback
  else if partnerReadable ∧ fails .fetchRaced then .databaseError .fetchRaced
  else if partnerReadable ∧ t.fetchDeliveriesBySourceEventId partner.id clientKey = [] ∧
      endpointsReadable ∧ fails .fetchConflicting then
    .databaseError .fetchConflicting
  else
    .ofExcept (answerConflict partnerReadable endpointsReadable t partner endpoints clientKey)

/-- The end of `enqueue_outbound_for_event`: the statement, then `commit`. A transaction
that does not reach its commit leaves nothing. -/
def Db.persistAndAnswerInOrder (σ : StatementOrder) (fails : DatabaseCall → Bool) (db : Db)
    (partnerReadable endpointsReadable : Bool) (partner : Partner)
    (endpoints : List PartnerEndpoint) (req : EnqueueRequest) : Db × EnqueueOutcome :=
  match db.acceptInOrder σ partner endpoints req with
  | .error (.valueError message) => (db, .raised (.valueError message))
  | .error .dataError =>
    if fails .persist then (db, .databaseError .persist) else (db, .raised .dataError)
  | .error (.integrity _) =>
    if fails .persist then (db, .databaseError .persist)
    else
      (db, conflictOutcome fails partnerReadable endpointsReadable db.tables partner endpoints
        req.idempotencyKey)
  | .ok db' =>
    if fails .persist then (db, .databaseError .persist)
    else if fails .commit then (db, .databaseError .commit)
    else
      match createdDeliveries partner endpoints req with
      | [] => (db', .raised (.valueError "deliveries must not be empty"))
      | first :: rest => (db', .returned (responseFor .accepted first rest))

/-- `enqueue_outbound_for_event` with the statement run in the order `σ` and the database
calls that `fails` names failing. A look-up asks the database only on a cache miss. -/
def Db.enqueueInOrder (validates : PayloadSchema → Payload → Bool) (orm : LoadedRows)
    (σ : StatementOrder) (fails : DatabaseCall → Bool) (db : Db) (c : AcceptPathCache) (now : Time)
    (req : EnqueueRequest) : Db × EnqueueOutcome :=
  if partnerCached c now req.partnerId = false ∧ fails .fetchPartner then
    (db, .databaseError .fetchPartner)
  else
    match seenPartner db.tables c now req.partnerId with
    | none => (db, .raised .partnerNotFound)
    | some p =>
      if p.status ≠ .active then (db, .raised .partnerInactive)
      else if (cacheGet now (c.schemas req.eventType)).isNone ∧ fails .fetchSchema then
        (db, .databaseError .fetchSchema)
      else if validatePayload validates req.eventType req.payload
          (seenSchema db.tables c now req.eventType) = false then
        (db, .raised .schemaValidationFailed)
      else if endpointsCached c now p.id req.eventType = false ∧ fails .fetchEndpoints then
        (db, .databaseError .fetchEndpoints)
      else if seenEndpoints db.tables c now p.id req.eventType = [] then
        (db, .raised (.noActiveEndpoint req.eventType))
      else
        db.persistAndAnswerInOrder σ fails (orm.readable (partnerCached c now req.partnerId))
          (orm.readable (endpointsCached c now p.id req.eventType)) p
          (seenEndpoints db.tables c now p.id req.eventType) req

/-- The rows as given and no failure: the accept path of the other modules. -/
theorem enqueueInOrder_asGiven (validates : PayloadSchema → Payload → Bool) (orm : LoadedRows)
    (db : Db) (c : AcceptPathCache) (now : Time) (req : EnqueueRequest) :
    db.enqueueInOrder validates orm .asGiven (fun _ => false) c now req =
      ((db.enqueueOutboundForEvent validates orm c now req).1,
        .ofExcept (db.enqueueOutboundForEvent validates orm c now req).2) := by
  have haccept : ∀ (p : Partner) (endpoints : List PartnerEndpoint),
      db.acceptInOrder .asGiven p endpoints req = db.acceptEvent p endpoints req :=
    fun _ _ => rfl
  simp only [Db.enqueueInOrder, Db.enqueueOutboundForEvent, Db.enqueueSeen,
    Db.persistAndAnswerInOrder, Db.persistAndAnswer, conflictOutcome, haccept]
  grind [EnqueueOutcome.ofExcept]

/-- The envelope sent for a new delivery. -/
structure Announces (e : OutboundEnvelope) (d : Delivery) : Prop where
  delivery : e.deliveryId = d.publicId
  endpoint : e.endpointId = d.endpointId
  deadline : e.slaDeadlineAt = d.slaDeadlineAt
  first_attempt : e.attempt = 1

/-- What an accepted event adds to the tables and answers, for the endpoints it is fanned
out to. -/
structure FanOut (t : Tables) (endpoints : List PartnerEndpoint) (rows : List Delivery)
    (events : List OutboxEvent) (response : EnqueueResponse) : Prop where
  pending : ∀ d ∈ rows, d.status = .pending
  per_endpoint : (rows.map (·.endpointId)).Perm (endpoints.map (·.id))
  new : ∀ d ∈ rows, ∀ old ∈ t.deliveries, old.id ≠ d.id ∧ old.publicId ≠ d.publicId
  ids : (rows.map (·.id)).Nodup
  publicIds : (rows.map (·.publicId)).Nodup
  keys : (rows.map (·.idempotencyKey)).Nodup
  one_event_each : events.length = endpoints.length
  carried : ∀ d ∈ rows, ∃ o e, events.filter (fun o => o.aggregateId = d.id) = [o] ∧
    o.aggregateType = .delivery ∧ o.payload = .outbound e ∧ Announces e d
  listed : response.deliveryIds.Perm (rows.map (·.publicId))

/-- A row of the join, for the delivery `d` and its envelope. -/
def joinedRow (d : Delivery) (e : OutboundEnvelope) (messageKey : Uuid) (topic : Topic)
    (createdAt : Time) : OutboxEvent where
  id := 0
  aggregateType := .delivery
  aggregateId := d.id
  topic := topic
  messageKey := messageKey
  payload := .outbound e
  createdAt := createdAt
  publishedAt := none
  publishAttempts := 0

section Join

variable {inserted : List Delivery} {envelopes : List (Uuid × OutboundEnvelope)}
  {messageKey : Uuid} {topic : Topic} {createdAt : Time}

theorem aggregateId_of_mem_joinEnvelopes {o : OutboxEvent}
    (h : o ∈ joinEnvelopes inserted envelopes messageKey topic createdAt) :
    ∃ d ∈ inserted, o.aggregateId = d.id := by
  obtain ⟨d, hd, ho⟩ := List.mem_flatMap.mp h
  obtain ⟨e, -, rfl⟩ := List.mem_map.mp ho
  exact ⟨d, hd, rfl⟩

/-- The join brings one envelope to a delivery whose public id one envelope has. -/
theorem joinEnvelopes_filter {d : Delivery} {e : OutboundEnvelope} (messageKey : Uuid)
    (topic : Topic) (createdAt : Time) (hids : (inserted.map (·.id)).Nodup) (hd : d ∈ inserted)
    (he : envelopes.filter (fun x => x.1 = d.publicId) = [(d.publicId, e)]) :
    (joinEnvelopes inserted envelopes messageKey topic createdAt).filter
      (fun o => o.aggregateId = d.id) = [joinedRow d e messageKey topic createdAt] := by
  induction inserted with
  | nil => cases hd
  | cons first rest ih =>
    have hunfold : joinEnvelopes (first :: rest) envelopes messageKey topic createdAt =
        joinEnvelopes [first] envelopes messageKey topic createdAt ++
          joinEnvelopes rest envelopes messageKey topic createdAt := by
      simp [joinEnvelopes]
    obtain ⟨hfirst, hrest⟩ := List.nodup_cons.mp hids
    rw [hunfold, List.filter_append]
    rcases List.mem_cons.mp hd with rfl | hd
    · have htail : (joinEnvelopes rest envelopes messageKey topic createdAt).filter
          (fun o => o.aggregateId = d.id) = [] := by
        rw [List.filter_eq_nil_iff]
        intro o ho hid
        obtain ⟨x, hx, hxo⟩ := aggregateId_of_mem_joinEnvelopes ho
        have hsame : x.id = d.id := hxo.symm.trans (by simpa using hid)
        exact hfirst (List.mem_map.mpr ⟨x, hx, hsame⟩)
      rw [htail, List.append_nil]
      simp [joinEnvelopes, he, joinedRow]
    · have hhead : (joinEnvelopes [first] envelopes messageKey topic createdAt).filter
          (fun o => o.aggregateId = d.id) = [] := by
        rw [List.filter_eq_nil_iff]
        intro o ho hid
        obtain ⟨x, hx, hxo⟩ := aggregateId_of_mem_joinEnvelopes ho
        rw [List.mem_singleton.mp hx] at hxo
        have hsame : d.id = first.id := (by simpa using hid : o.aggregateId = d.id).symm.trans hxo
        exact hfirst (List.mem_map.mpr ⟨d, hd, hsame⟩)
      rw [hhead, List.nil_append]
      exact ih hrest hd

end Join

/-- Numbering the rows changes none of the columns a SELECT looks at. -/
theorem filter_numberOutbox {seq i : Nat} {rows : List OutboxEvent} {o : OutboxEvent}
    (h : rows.filter (fun o => o.aggregateId = i) = [o]) :
    ∃ n, (numberOutbox seq rows).filter (fun o => o.aggregateId = i) = [{ o with id := n }] := by
  have hcommute : ∀ l : List OutboxEvent,
      (l.filter (fun o => o.aggregateId = i)).map (fun o => { o with id := 0 }) =
        (l.map fun o => { o with id := 0 }).filter (fun o => o.aggregateId = i) := by
    intro l
    rw [List.filter_map]
    rfl
  have hmap : ((numberOutbox seq rows).filter (fun o => o.aggregateId = i)).map
      (fun o => { o with id := 0 }) = [{ o with id := 0 }] := by
    rw [hcommute, map_numberOutbox _ fun _ _ => rfl, ← hcommute, h]
    rfl
  obtain ⟨x, hx, hsame⟩ := List.map_eq_singleton_iff.mp hmap
  have hfields : x = { o with id := x.id } :=
    congrArg (fun y : OutboxEvent => { y with id := x.id }) hsame
  exact ⟨x.id, hfields ▸ hx⟩

section Created

variable {partner : Partner} {endpoints : List PartnerEndpoint} {req : EnqueueRequest}
  {d : Delivery}

theorem created_endpointIds (partner : Partner) (endpoints : List PartnerEndpoint)
    (req : EnqueueRequest) :
    (createdDeliveries partner endpoints req).map (·.endpointId) = endpoints.map (·.id) := by
  apply List.ext_getElem
  · simp [createdDeliveries]
  · intro i h₁ h₂
    simp [createdDeliveries, buildPendingDelivery]

theorem created_pending (h : d ∈ createdDeliveries partner endpoints req) :
    d.status = .pending ∧ d.partnerId = partner.id := by
  obtain ⟨i, hi, rfl⟩ := List.mem_mapIdx.mp h
  exact ⟨rfl, rfl⟩

/-- Among the envelopes of the statement one has the public id of a created delivery, and
it announces that delivery. -/
theorem announced_of_created (h : d ∈ createdDeliveries partner endpoints req)
    (hn : ((createdDeliveries partner endpoints req).map (·.publicId)).Nodup) :
    ∃ e, Announces e d ∧ (((createdDeliveries partner endpoints req).map (·.publicId)).zip
      (List.zipWith (pendingEnvelope partner req) (createdDeliveries partner endpoints req)
        endpoints)).filter (fun e => e.1 = d.publicId) = [(d.publicId, e)] := by
  obtain ⟨endpoint, -, hid, he⟩ := filter_envelopes h hn
  exact ⟨pendingEnvelope partner req d endpoint, ⟨rfl, hid.symm, rfl, rfl⟩, he⟩

end Created

/-- The statement in any order of its rows: one delivery and one outbox row per endpoint. -/
theorem acceptInOrder_fanOut {σ : StatementOrder} {db db' : Db} {partner : Partner}
    {endpoints : List PartnerEndpoint} {req : EnqueueRequest} {first : Delivery}
    {rest : List Delivery} (h : db.acceptInOrder σ partner endpoints req = .ok db')
    (hc : createdDeliveries partner endpoints req = first :: rest) :
    ∃ rows events,
      FanOut db.tables endpoints rows events (responseFor .accepted first rest) ∧
        db'.tables = db.tables.inserted rows events := by
  unfold Db.acceptInOrder Db.persistInOrder at h
  simp only at h
  split_ifs at h with hlen hnil hstored ho hp hk
  cases h
  set deliveries := createdDeliveries partner endpoints req with hdeliveries
  set rows := numberDeliveries db.tables.deliverySeq (σ.inserts deliveries) with hrows
  have hinserts := σ.inserts_perm deliveries
  -- the rows are the created deliveries in another order, up to their primary keys
  have hsame : ∀ {β : Type} (g : Delivery → β), (∀ d n, g { d with id := n } = g d) →
      (rows.map g).Perm (deliveries.map g) := by
    intro β g hg
    rw [hrows, map_numberDeliveries g hg]
    exact hinserts.map g
  have hbuilt : ∀ d ∈ rows, ∃ n, { d with id := n } ∈ deliveries := by
    intro d hd
    obtain ⟨i, d₀, hd₀, rfl⟩ := mem_numberDeliveries hd
    exact ⟨d₀.id, hinserts.mem_iff.mp hd₀⟩
  rw [List.map_append] at hp hk
  have hids : (rows.map (·.id)).Nodup := by
    rw [hrows, numberDeliveries_ids]
    exact List.nodup_range'
  have hpublic : (rows.map (·.publicId)).Nodup := (List.nodup_append.mp hp).2.1
  have hcreated : (deliveries.map (·.publicId)).Nodup :=
    (hsame (·.publicId) fun _ _ => rfl).nodup_iff.mp hpublic
  have hper : (rows.map (·.endpointId)).Perm (endpoints.map (·.id)) := by
    rw [← created_endpointIds partner endpoints req]
    exact hsame (·.endpointId) fun _ _ => rfl
  have hreturns := σ.returns_perm rows
  have hone : ∀ d ∈ rows, ∃ e, Announces e d ∧ ((deliveries.map (·.publicId)).zip
      (List.zipWith (pendingEnvelope partner req) deliveries endpoints)).filter
        (fun e => e.1 = d.publicId) = [(d.publicId, e)] := by
    intro d hd
    obtain ⟨n, hn⟩ := hbuilt d hd
    obtain ⟨e, he, hfilter⟩ := announced_of_created hn hcreated
    exact ⟨e, ⟨he.delivery, he.endpoint, he.deadline, he.first_attempt⟩, hfilter⟩
  refine ⟨rows, _, ?_, rfl⟩
  exact
    { pending := by
        intro d hd
        obtain ⟨n, hn⟩ := hbuilt d hd
        exact (created_pending hn).1
      per_endpoint := hper
      new := by
        intro d hd old hold
        obtain ⟨i, d₀, -, hi⟩ := mem_numberDeliveries hd
        have hle := db.consistent.delivery_seq old hold
        have hid : d.id = db.tables.deliverySeq + 1 + i := by rw [hi]
        refine ⟨by omega, ?_⟩
        exact (List.nodup_append.mp hp).2.2 _ (List.mem_map_of_mem hold) _
          (List.mem_map_of_mem hd)
      ids := hids
      publicIds := hpublic
      keys := by
        have hpairs : rows.map (fun d => (d.partnerId, d.idempotencyKey)) =
            (rows.map (·.idempotencyKey)).map fun key => (partner.id, key) := by
          rw [List.map_map]
          apply List.map_congr_left
          intro d hd
          obtain ⟨n, hn⟩ := hbuilt d hd
          exact congrArg (·, d.idempotencyKey) (created_pending hn).2
        have hn := (List.nodup_append.mp hk).2.1
        rw [hpairs] at hn
        exact hn.of_map
      one_event_each := by
        rw [numberOutbox, List.length_mapIdx, (σ.joins_perm _).length_eq]
        have hnames := congrArg List.length (joinEnvelopes_names partner.publicId .outboundPending
          req.createdAt fun d hd => by
            obtain ⟨e, he, hfilter⟩ := hone d (hreturns.mem_iff.mp hd)
            exact ⟨e, he.delivery, hfilter⟩)
        rw [List.length_map, List.length_map, hreturns.length_eq] at hnames
        rw [hnames]
        simpa using hper.length_eq
      carried := by
        intro d hd
        obtain ⟨e, he, hfilter⟩ := hone d hd
        have hjoin := joinEnvelopes_filter partner.publicId .outboundPending req.createdAt
          ((hreturns.map (·.id)).nodup_iff.mpr hids) (hreturns.mem_iff.mpr hd) hfilter
        obtain ⟨n, hn⟩ := filter_numberOutbox (Table.filter_perm_singleton (σ.joins_perm _) hjoin)
        exact ⟨_, e, hn, rfl, rfl, he⟩
      listed := by
        show ((first :: rest).map (·.publicId)).Perm _
        rw [← hc]
        exact (hsame (·.publicId) fun _ _ => rfl).symm }

/-- The outcomes of a call and what each leaves: the fan-out of an accepted event, or the
database it found. -/
inductive AllOrNothing (db : Db) (partner : Option Partner)
    (endpoints : Nat → List PartnerEndpoint) : Db × EnqueueOutcome → Prop
  | accepted {p : Partner} {db' : Db} {rows : List Delivery} {events : List OutboxEvent}
      {response : EnqueueResponse} (hp : partner = some p) (hs : response.status = .accepted)
      (hf : FanOut db.tables (endpoints p.id) rows events response)
      (ht : db'.tables = db.tables.inserted rows events) :
      AllOrNothing db partner endpoints (db', .returned response)
  | duplicate {response : EnqueueResponse} (hs : response.status = .duplicate) :
      AllOrNothing db partner endpoints (db, .returned response)
  | raised (error : HubError) : AllOrNothing db partner endpoints (db, .raised error)
  | databaseError (call : DatabaseCall) :
      AllOrNothing db partner endpoints (db, .databaseError call)

theorem allOrNothing_conflict {db : Db} {seen : Option Partner}
    {endpoints : Nat → List PartnerEndpoint} (fails : DatabaseCall → Bool)
    (partnerReadable endpointsReadable : Bool) (partner : Partner)
    (matching : List PartnerEndpoint) (key : String) :
    AllOrNothing db seen endpoints (db, conflictOutcome fails partnerReadable endpointsReadable
      db.tables partner matching key) := by
  unfold conflictOutcome
  split
  · exact .databaseError _
  split
  · exact .databaseError _
  split
  · exact .databaseError _
  · cases ha : answerConflict partnerReadable endpointsReadable db.tables partner matching key with
    | error e => exact .raised e
    | ok response => exact .duplicate (answerConflict_duplicate ha)

theorem allOrNothing_persist {db : Db} {seen : Option Partner}
    {endpoints : Nat → List PartnerEndpoint} {partner : Partner} (hp : seen = some partner)
    (σ : StatementOrder) (fails : DatabaseCall → Bool) (partnerReadable endpointsReadable : Bool)
    (req : EnqueueRequest) :
    AllOrNothing db seen endpoints (db.persistAndAnswerInOrder σ fails partnerReadable
      endpointsReadable partner (endpoints partner.id) req) := by
  unfold Db.persistAndAnswerInOrder
  cases ha : db.acceptInOrder σ partner (endpoints partner.id) req with
  | error e =>
    cases e with
    | valueError message => exact .raised _
    | dataError =>
      show AllOrNothing db seen endpoints (if fails .persist then _ else _)
      split
      · exact .databaseError _
      · exact .raised _
    | integrity constraint =>
      show AllOrNothing db seen endpoints (if fails .persist then _ else _)
      split
      · exact .databaseError _
      · exact allOrNothing_conflict fails _ _ partner _ _
  | ok db' =>
    show AllOrNothing db seen endpoints (if fails .persist then _ else _)
    split
    · exact .databaseError _
    split
    · exact .databaseError _
    cases hc : createdDeliveries partner (endpoints partner.id) req with
    | nil =>
      -- the statement refuses an empty list
      simp [Db.acceptInOrder, Db.persistInOrder, hc] at ha
    | cons first rest =>
      obtain ⟨rows, events, hf, ht⟩ := acceptInOrder_fanOut ha hc
      exact .accepted hp rfl hf ht

/-- Whatever order the rows are worked through in and wherever a database call fails:
an accepted event leaves one PENDING delivery and one outbox row per endpoint, matched to
each other and listed in the answer, and every other outcome leaves the database alone. -/
theorem fan_out_all_or_nothing (validates : PayloadSchema → Payload → Bool) (orm : LoadedRows)
    (σ : StatementOrder) (fails : DatabaseCall → Bool) (db : Db) (c : AcceptPathCache) (now : Time)
    (req : EnqueueRequest) :
    AllOrNothing db (seenPartner db.tables c now req.partnerId)
      (fun partnerId => seenEndpoints db.tables c now partnerId req.eventType)
      (db.enqueueInOrder validates orm σ fails c now req) := by
  unfold Db.enqueueInOrder
  split
  · exact .databaseError _
  cases hp : seenPartner db.tables c now req.partnerId with
  | none => exact .raised _
  | some p =>
    simp only
    split
    · exact .raised _
    split
    · exact .databaseError _
    split
    · exact .raised _
    split
    · exact .databaseError _
    split
    · exact .raised _
    · exact allOrNothing_persist rfl σ fails _ _ req

/-- Two endpoints, with the rows taken backwards. -/
example :
    (((((Db.empty.admin (.createPartner acme)).admin (.createEndpoint 1 acmeEndpoint)).admin
      (.createEndpoint 1 { acmeEndpoint with id := 3 })).enqueueInOrder (fun _ _ => true) .expire
        .backwards (fun _ => false) .empty 0 (acmeRequest "k")).1.tables.outbox.map fun o =>
          (o.aggregateId, o.payload.deliveryId)) = [(1, some 11), (2, some 10)] := by
  decide +kernel

end PartnerHub.Outbound
