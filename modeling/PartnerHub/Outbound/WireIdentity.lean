import PartnerHub.Outbound.FinishedMessages
import PartnerHub.Outbound.Transactions

/-!
# What a delivery is called on the wire

Envelopes and POST headers are built in four places: the first envelope from the request,
retries, replays and headers from the stored row. The runs are those of overlapping
transactions, with every POST that was sent and every envelope that was produced kept
beside the database.
-/
namespace PartnerHub.Outbound

open PartnerHub.Domain PartnerHub.Lib PartnerHub.Lib.Slots PartnerHub.Lib.System

/-- The columns of a delivery that name it to others; no UPDATE writes them. -/
structure DeliveryIdentity where
  publicId : Uuid
  partnerId : Nat
  endpointId : Uuid
  eventType : String
  idempotencyKey : String
  payload : Payload
  slaDeadlineAt : Time

def identityOf (d : Delivery) : DeliveryIdentity where
  publicId := d.publicId
  partnerId := d.partnerId
  endpointId := d.endpointId
  eventType := d.eventType
  idempotencyKey := d.idempotencyKey
  payload := d.payload
  slaDeadlineAt := d.slaDeadlineAt

def outboundOf : Envelope → Option OutboundEnvelope
  | .outbound e => some e
  | _ => none

/-- A request handed to httpx with headers it can encode: the delivery it is for, its body and
its headers. -/
structure Post where
  delivery : Uuid
  partnerId : Nat
  body : List UInt8
  headers : List (String × String)

def Post.header (p : Post) (name : String) : Option String := p.headers.lookup name

/-- Where an envelope comes from. -/
inductive Origin where
  | accepted | retry | replay
  deriving DecidableEq, Repr

/-- The transactions, the workers whose POST is out with what they learn, and everything
that was sent. -/
structure Wire where
  txns : Txns
  sent : Nat → Option ProcessInput
  posts : List Post
  envelopes : List (Origin × OutboundEnvelope)

def Wire.init : Wire := ⟨Txns.init, fun _ => none, [], []⟩

inductive WireAction where
  | txn (a : TxnAction)
  | post (w : Nat) (input : ProcessInput)

/-- The envelopes of the outbox rows a transaction added. -/
def newEnvelopes (t t' : Tables) : List OutboundEnvelope :=
  (t'.outbox.drop t.outbox.length).filterMap fun o => outboundOf o.payload

/-- The retry envelope a worker sends after its commit. -/
def retryEnvelope (settings : Settings) (db : Db) (ctx : Context) (input : ProcessInput) :
    Option OutboundEnvelope :=
  match processDelivery settings ctx input with
  | .ok (.commit session (some record) _) =>
    match db.commit session with
    | .ok _ => outboundOf record.value
    | .error _ => none
  | _ => none

/-- The envelopes a step of the transactions produces. -/
def Txns.produced (settings : Settings) (s : Txns) : TxnAction → List (Origin × OutboundEnvelope)
  | .operation op => (newEnvelopes s.db.tables (s.db.apply settings op).tables).map (.accepted, ·)
  | .commit w input =>
    match s.workers w with
    | none => []
    | some ctx => (retryEnvelope settings s.db ctx input).toList.map (.retry, ·)
  | .commitReplay r req =>
    match s.replays r with
    | none => []
    | some row => (newEnvelopes s.db.tables (s.db.afterReplay row req).tables).map (.replay, ·)
  | _ => []

/-- What a worker that has read `ctx` POSTs: the row is open, there is a signing secret,
the circuit lets the call through and the headers can be encoded. -/
def postOf (digest : Secret → List UInt8 → List UInt8) (ctx : Context) (input : ProcessInput) :
    Option Post :=
  input.signingSecret.bind fun secret =>
    if ctx.delivery.status ∈ deliveringSources ∧ input.allowOutbound = true ∧
        ∀ h ∈ ctx.headers digest input.now secret, Ascii h.2 then
      some
        { delivery := ctx.delivery.publicId, partnerId := ctx.delivery.partnerId
          body := serializePayload ctx.delivery.payload
          headers := ctx.headers digest input.now secret }
    else none

/-- A step of the transactions, with what it produces. -/
def Wire.advance (settings : Settings) (s : Wire) (a : TxnAction)
    (sent : Nat → Option ProcessInput) : Option Wire :=
  (s.txns.step settings a).map fun t =>
    ⟨t, sent, s.posts, s.envelopes ++ s.txns.produced settings a⟩

/-- A worker POSTs at most once, and commits what it learned from the POST it sent. -/
def Wire.step (digest : Secret → List UInt8 → List UInt8) (settings : Settings) (s : Wire) :
    WireAction → Option Wire
  | .post w input =>
    match s.txns.workers w, s.sent w with
    | some ctx, none => (postOf digest ctx input).map fun p =>
        { s with sent := Function.update s.sent w (some input), posts := s.posts ++ [p] }
    | _, _ => none
  | .txn (.commit w input) =>
    match s.txns.workers w with
    | none => none
    | some ctx =>
      if s.sent w = (postOf digest ctx input).map fun _ => input then
        s.advance settings (.commit w (ctx.learned digest input.signingSecret input))
          (Function.update s.sent w none)
      else none
  | .txn (.abort w) => s.advance settings (.abort w) (Function.update s.sent w none)
  | .txn a => s.advance settings a s.sent

/-- The worker reads an open delivery whose partner has a secret and an open circuit. -/
structure MeetsOpenCircuit (ctx : Context) (input : ProcessInput) : Prop where
  isOpen : ctx.delivery.status ∈ deliveringSources
  secret : input.signingSecret ≠ none
  denied : input.allowOutbound = false

section Rows

/-- An envelope says of the delivery it names what the row with this identity says. -/
structure Names (e : OutboundEnvelope) (i : DeliveryIdentity) : Prop where
  deliveryId : e.deliveryId = i.publicId
  payload : e.payload = i.payload
  eventType : e.eventType = i.eventType
  endpointId : e.endpointId = i.endpointId
  slaDeadlineAt : e.slaDeadlineAt = i.slaDeadlineAt

/-- The key of the row, from that of an envelope. -/
def Origin.rowKey (o : Origin) (e : OutboundEnvelope) : String :=
  if o = .accepted then derivedIdempotencyKey e.idempotencyKey e.endpointId
  else e.idempotencyKey

structure Speaks (x : Origin × OutboundEnvelope) (i : DeliveryIdentity) : Prop where
  names : Names x.2 i
  key : i.idempotencyKey = x.1.rowKey x.2

structure Post.Shows (p : Post) (i : DeliveryIdentity) : Prop where
  delivery : p.delivery = i.publicId
  partnerId : p.partnerId = i.partnerId
  body : p.body = serializePayload i.payload
  deliveryId : p.header "X-Hub-Delivery-Id" = some (Uuid.text i.publicId)
  eventType : p.header "X-Hub-Event-Type" = some i.eventType
  idempotencyKey : p.header "Idempotency-Key" = some i.idempotencyKey

def Tables.identities (t : Tables) : List DeliveryIdentity := t.deliveries.map identityOf

theorem mem_identities {t : Tables} {d : Delivery} (hd : d ∈ t.deliveries) :
    identityOf d ∈ t.identities :=
  List.mem_map_of_mem hd

theorem identities_flush (t : Tables) (loaded mine : Delivery) :
    (t.flush loaded mine).identities = t.identities :=
  Table.map_modify _ _ _ _ _ fun _ => rfl

/-- The public id is the delivery's alone. -/
theorem identity_of_publicId {db : Db} {i j : DeliveryIdentity} (hi : i ∈ db.tables.identities)
    (hj : j ∈ db.tables.identities) (h : i.publicId = j.publicId) : i = j := by
  obtain ⟨d, hd, rfl⟩ := List.mem_map.mp hi
  obtain ⟨d', hd', rfl⟩ := List.mem_map.mp hj
  rw [Table.eq_of_unique db.consistent.delivery_publicId hd hd' h]

/-- So is, within one partner, the key. -/
theorem identity_of_key {db : Db} {i j : DeliveryIdentity} (hi : i ∈ db.tables.identities)
    (hj : j ∈ db.tables.identities) (hp : i.partnerId = j.partnerId)
    (hk : i.idempotencyKey = j.idempotencyKey) : i = j := by
  obtain ⟨d, hd, rfl⟩ := List.mem_map.mp hi
  obtain ⟨d', hd', rfl⟩ := List.mem_map.mp hj
  rw [Table.eq_of_unique db.consistent.delivery_key hd hd' (Prod.ext hp hk)]

/-- A derived key is longer than the key it was derived from. -/
theorem derivedIdempotencyKey_ne (k : String) (e : Uuid) : derivedIdempotencyKey k e ≠ k := by
  intro h
  have hlen : (derivedIdempotencyKey k e).toList.length = k.toList.length := by rw [h]
  rw [derivedIdempotencyKey, String.toList_append, List.length_append, Uuid.text_length] at hlen
  simp only [String.toList_append, List.length_append] at hlen
  omega

end Rows

section Sources

variable {settings : Settings} {digest : Secret → List UInt8 → List UInt8} {ctx : Context}
  {input : ProcessInput}

theorem post_shows {p : Post} (h : postOf digest ctx input = some p) :
    p.Shows (identityOf ctx.delivery) := by
  unfold postOf at h
  obtain ⟨secret, -, h⟩ := Option.bind_eq_some_iff.mp h
  split at h
  · cases h
    exact ⟨rfl, rfl, rfl, rfl, rfl, rfl⟩
  · cases h

/-- The POST of an open row needs a secret, the circuit's consent and three ASCII texts. -/
theorem postOf_of_ascii (digest : Secret → List UInt8 → List UInt8) {key : Secret}
    (ho : ctx.delivery.status ∈ deliveringSources) (hkey : input.signingSecret = some key)
    (hallow : input.allowOutbound = true) (htype : Ascii ctx.delivery.eventType)
    (hidem : Ascii ctx.delivery.idempotencyKey) (hcorr : Ascii ctx.delivery.correlationId) :
    ∃ p, postOf digest ctx input = some p := by
  have hascii : ∀ h ∈ ctx.headers digest input.now key, Ascii h.2 :=
    (headers_ascii_iff digest _ _ _ key _ _ _).mpr ⟨htype, hidem, hcorr⟩
  exact ⟨_, by rw [postOf, hkey, Option.bind_some, if_pos ⟨ho, hallow, hascii⟩]⟩

theorem post_granted {p : Post} (h : postOf digest ctx input = some p) :
    input.allowOutbound = true := by
  unfold postOf at h
  obtain ⟨secret, -, h⟩ := Option.bind_eq_some_iff.mp h
  split at h
  · rename_i hc
    exact hc.2.1
  · cases h

theorem retryEnvelope_some {db : Db} {e : OutboundEnvelope}
    (h : retryEnvelope settings db ctx input = some e) :
    ∃ sess record out, processDelivery settings ctx input = .ok (.commit sess (some record) out) ∧
      outboundOf record.value = some e := by
  unfold retryEnvelope at h
  split at h
  · rename_i sess record out hv
    split at h
    · exact ⟨sess, record, out, hv, h⟩
    · cases h
  · cases h

/-- A retry envelope is built from the row the worker read. -/
theorem retry_speaks {db : Db} {e : OutboundEnvelope}
    (h : retryEnvelope settings db ctx input = some e) :
    Speaks (.retry, e) (identityOf ctx.delivery) := by
  obtain ⟨sess, record, out, hv, hout⟩ := retryEnvelope_some h
  obtain ⟨-, hdec⟩ := process_decided hv
  generalize hpub : some record = pub at hdec
  cases hdec with
  | missingSecret hsecret hd | poison hn hc hd | exhausted hn hc hge hd =>
    cases hpub
    cases hout
  | success hn hc hat hf hd =>
    split at hpub
    · cases hpub
      cases hout
    · cases hpub
  | circuitOpen hd | retry hn hc hlt hd =>
    cases hpub
    cases hout
    rw [hd]
    exact ⟨⟨rfl, rfl, rfl, rfl, rfl⟩, rfl⟩

theorem no_retry_without_secret {db : Db} (ho : ctx.delivery.status.Open)
    (hsec : input.signingSecret = none) : retryEnvelope settings db ctx input = none := by
  rw [retryEnvelope, process_without_secret settings ho hsec]
  cases hv : markFailedDlq ctx input ctx.delivery none .nonRetryableError none
      "missing signing secret" with
  | error m => rfl
  | ok v =>
    obtain ⟨d, l, -, -, -, rfl⟩ := markFailedDlq_eq hv
    simp only
    split <;> rfl

/-- A worker that POSTs nothing and still sends a retry envelope met an open circuit. -/
theorem retry_unposted {db : Db} {e : OutboundEnvelope} (hpost : postOf digest ctx input = none)
    (h : retryEnvelope settings db ctx (ctx.learned digest input.signingSecret input) = some e) :
    MeetsOpenCircuit ctx input := by
  obtain ⟨sess, record, out, hv, -⟩ := retryEnvelope_some h
  have ho : ctx.delivery.status.Open := (process_decided hv).1
  have hsec : input.signingSecret ≠ none := by
    intro hnone
    rw [no_retry_without_secret ho (by exact hnone)] at h
    cases h
  refine ⟨ho, hsec, ?_⟩
  by_contra hallow
  have hallow : input.allowOutbound = true := by simpa using hallow
  obtain ⟨key, hkey⟩ := Option.ne_none_iff_exists'.mp hsec
  have hraise : ¬ ∀ h ∈ ctx.headers digest input.now key, Ascii h.2 := by
    intro hascii
    rw [postOf, hkey, Option.bind_some, if_pos ⟨ho, hallow, hascii⟩] at hpost
    cases hpost
  rw [hkey] at hv
  have hsecret : (ctx.learned digest (some key) input).signingSecret = some key := rfl
  rcases process_posted settings ho hsecret hallow with ⟨m, -, he⟩ | ⟨post, v, hp, -⟩
  · rw [he] at hv
    cases hv
  · have hreply : (ctx.learned digest (some key) input).reply =
        .otherException "UnicodeEncodeError" := by
      simp only [Context.learned, httpxPost, if_neg hraise]
    rw [hreply] at hp
    cases hp

theorem retryEnvelope_of_commit {db db' : Db} {sess : Session} {record : Message}
    {out : ProcessOutcome}
    (hv : processDelivery settings ctx input = .ok (.commit sess (some record) out))
    (hc : db.commit sess = .ok db') :
    retryEnvelope settings db ctx input = outboundOf record.value := by
  simp only [retryEnvelope, hv, hc]

/-- Meeting an open circuit always ends in a retry envelope. -/
theorem open_circuit_retries (digest : Secret → List UInt8 → List UInt8) (settings : Settings)
    (db : Db) (h : MeetsOpenCircuit ctx input) :
    ∃ e, retryEnvelope settings db ctx (ctx.learned digest input.signingSecret input) = some e := by
  obtain ⟨delay, hdelay⟩ := deferDelay_returns settings ctx.delivery.attemptCount
  have hdeny : (ctx.learned digest input.signingSecret input).allowOutbound = false := h.denied
  have hsecret : (ctx.learned digest input.signingSecret input).signingSecret ≠ none := h.secret
  have hv := process_denied settings h.isOpen hsecret hdeny
  rw [deferCircuitOpen, hdelay] at hv
  obtain ⟨db', hc⟩ := db.commit_succeeds
    (s := { loaded := ctx.delivery
            delivery := { ctx.delivery with
              status := .retrying
              nextRetryAt := some
                ((ctx.learned digest input.signingSecret input).now + delay) } })
    ((process_storable_iff hv).mpr fun _ hallow => by simp [hdeny] at hallow)
    (by simp [Session.References]) (by simp [Session.AttemptClash])
    (by simp [Session.DeadLetterClash])
  exact ⟨_, retryEnvelope_of_commit hv hc⟩

theorem mem_newEnvelopes {t t' : Tables} {events : List OutboxEvent} {e : OutboundEnvelope}
    (h : t'.outbox = t.outbox ++ events) :
    e ∈ newEnvelopes t t' ↔ ∃ o ∈ events, o.payload = .outbound e := by
  have hout : ∀ v : Envelope, outboundOf v = some e ↔ v = .outbound e := by
    intro v
    cases v <;> simp [outboundOf]
  simp only [newEnvelopes, h, List.drop_left, List.mem_filterMap, hout]

/-- The envelope of a replay is built from the row the replay read. -/
theorem replay_envelope {row : Delivery × Partner} {req : ReplayRequest} {sess : ReplaySession}
    (h : replayDelivery (some row) req = .ok sess) :
    ∃ e, sess.payload = .outbound e ∧ Speaks (.replay, e) (identityOf row.1) := by
  obtain ⟨loaded, partner⟩ := row
  simp only [replayDelivery] at h
  split at h
  · cases h
  · split at h
    · cases h
    · cases h
      exact ⟨_, rfl, ⟨rfl, rfl, rfl, rfl, rfl⟩, rfl⟩

/-- The envelope of a created delivery carries the caller's key. -/
theorem pending_speaks {partner : Partner} {endpoints : List PartnerEndpoint}
    {req : EnqueueRequest} {endpoint : PartnerEndpoint} {d : Delivery} {n : Nat}
    (hd : d ∈ createdDeliveries partner endpoints req) (he : d.endpointId = endpoint.id) :
    Speaks (.accepted, pendingEnvelope partner req d endpoint)
      (identityOf { d with id := n }) := by
  obtain ⟨i, hi, rfl⟩ := List.mem_mapIdx.mp hd
  refine ⟨⟨rfl, rfl, rfl, he.symm, rfl⟩, ?_⟩
  exact congrArg (derivedIdempotencyKey req.idempotencyKey) he

/-- The rows a transaction added and the envelopes it added belong together. -/
structure AnnouncesRows (t t' : Tables) (rows : List Delivery) : Prop where
  deliveries : t'.deliveries = t.deliveries ++ rows
  named : ∀ e ∈ newEnvelopes t t', ∃ d ∈ rows, Speaks (.accepted, e) (identityOf d)
  announced : ∀ d ∈ rows, ∃ e ∈ newEnvelopes t t', Speaks (.accepted, e) (identityOf d)

theorem accept_announces {db db' : Db} {partner : Partner} {endpoints : List PartnerEndpoint}
    {req : EnqueueRequest} (h : db.acceptEvent partner endpoints req = .ok db') :
    ∃ rows, AnnouncesRows db.tables db'.tables rows := by
  obtain ⟨hn, htables⟩ := acceptEvent_inserts h
  have hevents := congrArg Tables.outbox htables
  refine ⟨_, congrArg Tables.deliveries htables, ?_, ?_⟩
  · intro e he
    obtain ⟨o, ho, hpay⟩ := (mem_newEnvelopes hevents).mp he
    obtain ⟨i, hi, rfl⟩ := List.mem_mapIdx.mp ho
    obtain ⟨d, hd, hin⟩ := List.mem_flatMap.mp (List.getElem_mem hi)
    obtain ⟨j, d₀, hd₀, rfl⟩ := mem_numberDeliveries hd
    obtain ⟨endpoint, -, heq, hone⟩ := filter_envelopes hd₀ hn
    obtain ⟨x, hx, hox⟩ := List.mem_map.mp hin
    rw [hone, List.mem_singleton] at hx
    rw [← hox, hx] at hpay
    cases hpay
    exact ⟨_, hd, pending_speaks hd₀ heq⟩
  · intro d hd
    obtain ⟨i, d₀, hd₀, rfl⟩ := mem_numberDeliveries hd
    obtain ⟨endpoint, -, heq, he⟩ := envelope_of_created hd₀
    obtain ⟨o, ho, hpay, -⟩ :=
      mem_joinEnvelopes partner.publicId .outboundPending req.createdAt hd he
    obtain ⟨j, hj⟩ := mem_numberOutbox db.tables.outboxSeq ho
    exact ⟨_, (mem_newEnvelopes hevents).mpr ⟨_, hj, hpay⟩, pending_speaks hd₀ heq⟩

theorem AnnouncesRows.nothing {t t' : Tables} (hd : t'.deliveries = t.deliveries)
    (ho : t'.outbox = t.outbox) : AnnouncesRows t t' [] where
  deliveries := by rw [hd, List.append_nil]
  named := by
    intro e he
    obtain ⟨o, hmem, -⟩ := (mem_newEnvelopes (by rw [ho, List.append_nil])).mp he
    cases hmem
  announced := by simp

theorem operation_announces (settings : Settings) (db : Db) {op : Op} (hop : op.isAtomic = true) :
    ∃ rows, AnnouncesRows db.tables (db.apply settings op).tables rows := by
  cases op with
  | putPartner p => exact ⟨[], .nothing rfl rfl⟩
  | putEndpoint e => exact ⟨[], .nothing rfl rfl⟩
  | enqueue partner endpoints req =>
    simp only [Db.apply]
    cases h : db.acceptEvent partner endpoints req with
    | error e => exact ⟨[], .nothing rfl rfl⟩
    | ok db' => exact accept_announces h
  | process | replay => cases hop
  | acknowledge id now sub =>
    simp only [Db.apply]
    cases h : db.acknowledgeDeadLetter id now sub with
    | error e => exact ⟨[], .nothing rfl rfl⟩
    | ok db' =>
      have hw := (acknowledge_ok h).frame
      exact ⟨[], .nothing (by rw [Db.orKeep, hw]) (by rw [Db.orKeep, hw])⟩
  | purge id reason sub =>
    simp only [Db.apply]
    cases h : db.purgeDeadLetter id reason sub with
    | error e => exact ⟨[], .nothing rfl rfl⟩
    | ok db' =>
      have hw := (purge_ok h).frame
      exact ⟨[], .nothing (by rw [Db.orKeep, hw]) (by rw [Db.orKeep, hw])⟩

end Sources

section Transactions

variable {settings : Settings} {s s' : Txns} {a : TxnAction}

/-- Every transaction in progress works on a copy of a stored row. -/
structure CopiesRows (s : Txns) : Prop where
  workers : ∀ w ctx, s.workers w = some ctx → identityOf ctx.delivery ∈ s.db.tables.identities
  replays : ∀ r row, s.replays r = some row → identityOf row.1 ∈ s.db.tables.identities

/-- What a step of the transactions does to the rows, and what it says of them. -/
structure Evolves (settings : Settings) (s : Txns) (a : TxnAction) (s' : Txns) : Prop where
  copies : CopiesRows s'
  kept : ∀ i ∈ s.db.tables.identities, i ∈ s'.db.tables.identities
  produced : ∀ x ∈ s.produced settings a, ∃ i ∈ s'.db.tables.identities, Speaks x i
  announced : ∀ i ∈ s'.db.tables.identities, i ∈ s.db.tables.identities ∨
    ∃ x ∈ s.produced settings a, x.1 = .accepted ∧ x.2.deliveryId = i.publicId

/-- A step that leaves the identities of the rows alone. -/
theorem evolves_of_same (hsame : s'.db.tables.identities = s.db.tables.identities)
    (hcopies : CopiesRows s')
    (hproduced : ∀ x ∈ s.produced settings a, ∃ i ∈ s.db.tables.identities, Speaks x i) :
    Evolves settings s a s' where
  copies := hcopies
  kept := fun _ hi => hsame ▸ hi
  produced := hsame ▸ hproduced
  announced := fun _ hi => .inl (hsame ▸ hi)

theorem afterProcess_identities (settings : Settings) (db : Db) (ctx : Context)
    (input : ProcessInput) :
    (db.afterProcess settings ctx input).tables.identities = db.tables.identities := by
  rcases afterProcess_cases settings db ctx input with he | ⟨sess, pub, out, -, hc⟩
  · rw [he]
  · rw [processed_tables hc]
    exact identities_flush _ _ _

theorem afterReplay_identities (db : Db) (row : Delivery × Partner) (req : ReplayRequest) :
    (db.afterReplay row req).tables.identities = db.tables.identities := by
  rcases afterReplay_cases db row req with he | ⟨sess, -, he⟩
  · rw [he]
  · rw [he]
    exact identities_flush _ _ _

/-- The envelope a replay's commit adds speaks of the row the replay read. -/
theorem replay_produced {db : Db} {row : Delivery × Partner} {req : ReplayRequest}
    {e : OutboundEnvelope} (he : e ∈ newEnvelopes db.tables (db.afterReplay row req).tables) :
    Speaks (.replay, e) (identityOf row.1) := by
  unfold Db.afterReplay at he
  cases h : replayDelivery (some row) req with
  | error m =>
    rw [h] at he
    obtain ⟨o, ho, -⟩ := (mem_newEnvelopes (List.append_nil _).symm).mp he
    cases ho
  | ok sess =>
    rw [h] at he
    obtain ⟨e', hpay, hsp⟩ := replay_envelope h
    obtain ⟨o, ho, hoe⟩ := (mem_newEnvelopes rfl).mp he
    obtain rfl := List.mem_singleton.mp ho
    have heq : e' = e := Envelope.outbound.inj (hpay.symm.trans hoe)
    exact heq ▸ hsp

theorem evolves_operation (h : CopiesRows s) {op : Op} (hop : op.isAtomic = true) :
    Evolves settings s (.operation op) { s with db := s.db.apply settings op } := by
  obtain ⟨rows, ha⟩ := operation_announces settings s.db hop
  have hmem : ∀ i, i ∈ (s.db.apply settings op).tables.identities ↔
      i ∈ s.db.tables.identities ∨ ∃ d ∈ rows, identityOf d = i := by
    intro i
    simp only [Tables.identities, ha.deliveries, List.map_append, List.mem_append, List.mem_map]
  refine ⟨⟨?_, ?_⟩, ?_, ?_, ?_⟩
  · exact fun w ctx hw => (hmem _).mpr (.inl (h.workers w ctx hw))
  · exact fun r row hr => (hmem _).mpr (.inl (h.replays r row hr))
  · exact fun i hi => (hmem i).mpr (.inl hi)
  · intro x hx
    obtain ⟨e, he, rfl⟩ := List.mem_map.mp hx
    obtain ⟨d, hd, hsp⟩ := ha.named e he
    exact ⟨_, (hmem _).mpr (.inr ⟨d, hd, rfl⟩), hsp⟩
  · intro i hi
    refine ((hmem i).mp hi).imp_right ?_
    rintro ⟨d, hd, rfl⟩
    obtain ⟨e, he, hsp⟩ := ha.announced d hd
    exact ⟨_, List.mem_map_of_mem he, rfl, hsp.names.deliveryId⟩

theorem evolves_of_step (h : CopiesRows s) (hs : s.step settings a = some s') :
    Evolves settings s a s' := by
  cases a with
  | operation op =>
    simp only [Txns.step] at hs
    split at hs
    · rename_i hop
      cases hs
      exact evolves_operation h hop
    · cases hs
  | read w deliveryId =>
    simp only [Txns.step] at hs
    split at hs
    · rename_i ctx hfree hctx
      cases hs
      refine evolves_of_same rfl ⟨?_, h.replays⟩ (by simp [Txns.produced])
      intro w' ctx' hw
      rcases update_some_cases hw with ⟨-, hx⟩ | ⟨-, hold⟩
      · obtain rfl := Option.some.inj hx
        exact mem_identities (fetchContext_some hctx).1
      · exact h.workers w' ctx' hold
    · cases hs
  | commit w input =>
    simp only [Txns.step] at hs
    split at hs
    · cases hs
    · rename_i ctx hctx
      cases hs
      have hsame := afterProcess_identities settings s.db ctx input
      refine evolves_of_same hsame ⟨?_, ?_⟩ ?_
      · exact fun w' ctx' hw => hsame.symm ▸ h.workers w' ctx' (update_none_some hw).1
      · exact fun r row hr => hsame.symm ▸ h.replays r row hr
      · intro x hx
        simp only [Txns.produced, hctx, List.mem_map, Option.mem_toList] at hx
        obtain ⟨e, he, rfl⟩ := hx
        exact ⟨_, h.workers w ctx hctx, retry_speaks he⟩
  | abort w =>
    cases hs
    refine evolves_of_same rfl ⟨?_, h.replays⟩ (by simp [Txns.produced])
    exact fun w' ctx' hw => h.workers w' ctx' (update_none_some hw).1
  | readReplay r i =>
    simp only [Txns.step] at hs
    split at hs
    · rename_i row hfree hrow
      cases hs
      refine evolves_of_same rfl ⟨h.workers, ?_⟩ (by simp [Txns.produced])
      intro r' row' hr
      rcases update_some_cases hr with ⟨-, hx⟩ | ⟨-, hold⟩
      · obtain rfl := Option.some.inj hx
        exact mem_identities (fetchWithPartner_some hrow).1
      · exact h.replays r' row' hold
    · cases hs
  | commitReplay r req =>
    simp only [Txns.step] at hs
    split at hs
    · cases hs
    · rename_i row hrow
      cases hs
      have hsame := afterReplay_identities s.db row req
      refine evolves_of_same hsame ⟨?_, ?_⟩ ?_
      · exact fun w ctx hw => hsame.symm ▸ h.workers w ctx hw
      · exact fun r' row' hr => hsame.symm ▸ h.replays r' row' (update_none_some hr).1
      · intro x hx
        simp only [Txns.produced, hrow, List.mem_map] at hx
        obtain ⟨e, he, rfl⟩ := hx
        exact ⟨_, h.replays r row hrow, replay_produced he⟩
  | abortReplay r =>
    cases hs
    refine evolves_of_same rfl ⟨h.workers, ?_⟩ (by simp [Txns.produced])
    exact fun r' row' hr => h.replays r' row' (update_none_some hr).1

end Transactions

end PartnerHub.Outbound
