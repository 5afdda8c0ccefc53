import PartnerHub.Lib.System
import PartnerHub.Outbound.Accept

/-!
# Complete operations, one after another

Every operation on the outbound tables run to its end without another one in
between: the transaction reads what is committed and either commits or leaves the
database as it was. `Change` says once what an operation can do; the properties of
whole runs are derived from it.
-/
namespace PartnerHub.Outbound

open PartnerHub.Domain PartnerHub.Lib

/-- Why an execution of `process_outbound_message` raises. -/
inductive WorkerError where
  | raised (message : String)
  | commit (e : CommitError)
  deriving DecidableEq

/-- `process_outbound_message` from the read to the commit. The record to send
after the commit is part of the result. -/
def Db.processOutboundMessage (settings : Settings) (db : Db) (deliveryId : Uuid)
    (input : ProcessInput) : Except WorkerError (Db × ProcessOutcome × Option Message) :=
  match db.tables.fetchDeliveryContext deliveryId with
  | none => .ok (db, .skipped, none)
  | some ctx =>
    match processDelivery settings ctx input with
    | .error message => .error (.raised message)
    | .ok .skip => .ok (db, .skipped, none)
    | .ok (.commit session publish outcome) =>
      match db.commit session with
      | .error e => .error (.commit e)
      | .ok db' => .ok (db', outcome, publish)

/-- An administrative write of a partner row: created, or replaced by id. -/
def Tables.putPartner (t : Tables) (p : Partner) : Tables :=
  { t with
    partners :=
      if ∃ q ∈ t.partners, q.id = p.id then Table.modify (·.id) p.id (fun _ => p) t.partners
      else t.partners ++ [p] }

def Tables.putEndpoint (t : Tables) (e : PartnerEndpoint) : Tables :=
  { t with
    endpoints :=
      if ∃ f ∈ t.endpoints, f.id = e.id then Table.modify (·.id) e.id (fun _ => e) t.endpoints
      else t.endpoints ++ [e] }

/-- Writing one row by its key drops no key. -/
theorem exists_key_put {ρ κ : Type*} [DecidableEq κ] {key : ρ → κ} {r : ρ} {t : List ρ} {k : κ}
    (h : ∃ x ∈ t, key x = k) :
    ∃ x ∈ (if ∃ q ∈ t, key q = key r then Table.modify key (key r) (fun _ => r) t else t ++ [r]),
      key x = k := by
  obtain ⟨x, hx, rfl⟩ := h
  split
  · by_cases he : key x = key r
    · exact ⟨r, Table.mem_modify_of_eq hx he, he.symm⟩
    · exact ⟨x, Table.mem_modify_of_ne hx he, rfl⟩
  · exact ⟨x, List.mem_append_left _ hx, rfl⟩

theorem Tables.Consistent.putPartner {t : Tables} (h : t.Consistent) (p : Partner) :
    (t.putPartner p).Consistent where
  __ := h
  delivery_partner := fun d hd => exists_key_put (h.delivery_partner d hd)

theorem Tables.Consistent.putEndpoint {t : Tables} (h : t.Consistent) (e : PartnerEndpoint) :
    (t.putEndpoint e).Consistent where
  __ := h
  delivery_endpoint := fun d hd => exists_key_put (h.delivery_endpoint d hd)

/-- The operations on the outbound tables. An enqueue is given the partner and the
endpoints its look-ups returned, which may be older than the tables. -/
inductive Op where
  | putPartner (p : Partner)
  | putEndpoint (e : PartnerEndpoint)
  | enqueue (partner : Partner) (endpoints : List PartnerEndpoint) (req : EnqueueRequest)
  | process (deliveryId : Uuid) (input : ProcessInput)
  | replay (deliveryId : Uuid) (req : ReplayRequest)
  | acknowledge (id : Uuid) (now : Time) (sub : String)
  | purge (id : Uuid) (reason sub : String)

/-- The result of a fallible write: the new database, or the old one. -/
def Db.orKeep {ε : Type} (db : Db) : Except ε Db → Db
  | .ok db' => db'
  | .error _ => db

/-- One complete operation. -/
def Db.apply (settings : Settings) (db : Db) : Op → Db
  | .putPartner p => ⟨db.tables.putPartner p, db.consistent.putPartner p⟩
  | .putEndpoint e => ⟨db.tables.putEndpoint e, db.consistent.putEndpoint e⟩
  | .enqueue partner endpoints req => db.orKeep (db.acceptEvent partner endpoints req)
  | .process deliveryId input =>
    db.orKeep ((db.processOutboundMessage settings deliveryId input).map (·.1))
  | .replay deliveryId req =>
    db.orKeep ((replayDelivery (db.tables.fetchDeliveryWithPartner deliveryId) req).map
      db.commitReplay)
  | .acknowledge id now sub => db.orKeep (db.acknowledgeDeadLetter id now sub)
  | .purge id reason sub => db.orKeep (db.purgeDeadLetter id reason sub)

/-- Operations always have a successor: those that fail keep the database. -/
def Db.step (settings : Settings) (db : Db) (op : Op) : Option Db := some (db.apply settings op)

/-- An execution on the delivery with this public id that decides to commit `s`. -/
structure Processes (settings : Settings) (db : Db) (deliveryId : Uuid) (input : ProcessInput)
    (ctx : Context) (s : Session) (pub : Option Message) : Prop where
  found : db.tables.fetchDeliveryContext deliveryId = some ctx
  verdict : ∃ out, processDelivery settings ctx input = .ok (.commit s pub out)

section

variable {settings : Settings} {db : Db} {i : Uuid} {input : ProcessInput} {ctx : Context}
  {s : Session} {pub : Option Message}

theorem Processes.isOpen (h : Processes settings db i input ctx s pub) :
    ctx.delivery.status.Open := by
  obtain ⟨out, hv⟩ := h.verdict
  exact (process_decided hv).1

theorem Processes.decided (h : Processes settings db i input ctx s pub) :
    Decided ctx input s pub := by
  obtain ⟨out, hv⟩ := h.verdict
  exact (process_decided hv).2

end

/-- Everything one operation can do to the database. -/
inductive Change (settings : Settings) (db : Db) : Op → Db → Prop
  | keep {op : Op} : Change settings db op db
  | admin {op : Op} {db' : Db} (partners : List Partner) (endpoints : List PartnerEndpoint)
      (h : db'.tables = { db.tables with partners := partners, endpoints := endpoints }) :
      Change settings db op db'
  | accepted {partner : Partner} {endpoints : List PartnerEndpoint} {req : EnqueueRequest}
      {db' : Db} {rows : List Delivery} {events : List OutboxEvent}
      (ha : Accepts db.tables partner endpoints req rows events)
      (h : db'.tables = db.tables.inserted rows events) :
      Change settings db (.enqueue partner endpoints req) db'
  | processed {deliveryId : Uuid} {input : ProcessInput} {ctx : Context} {s : Session}
      {pub : Option Message} {db' : Db} (hp : Processes settings db deliveryId input ctx s pub)
      (hc : db.commit s = .ok db') : Change settings db (.process deliveryId input) db'
  | replayed {deliveryId : Uuid} {req : ReplayRequest} {loaded : Delivery} {s : ReplaySession}
      (hl : loaded ∈ db.tables.deliveries) (hi : loaded.publicId = deliveryId)
      (hr : Replays loaded req s) :
      Change settings db (.replay deliveryId req) (db.commitReplay s)
  | deadLetter {op : Op} {db' : Db} (h : DeadLetterWrite db.tables db'.tables) :
      Change settings db op db'

theorem fetchContext_some {t : Tables} {i : Uuid} {ctx : Context}
    (h : t.fetchDeliveryContext i = some ctx) :
    ctx.delivery ∈ t.deliveries ∧ ctx.delivery.publicId = i := by
  unfold Tables.fetchDeliveryContext at h
  obtain ⟨d, hd, h⟩ := Option.bind_eq_some_iff.mp h
  obtain ⟨p, -, h⟩ := Option.bind_eq_some_iff.mp h
  obtain ⟨e, -, h⟩ := Option.bind_eq_some_iff.mp h
  obtain rfl := Option.some.inj h
  exact ⟨List.mem_of_find?_eq_some hd, by simpa using List.find?_some hd⟩

/-- The context joins the partner the delivery names. -/
theorem fetchContext_partner {t : Tables} {i : Uuid} {ctx : Context}
    (h : t.fetchDeliveryContext i = some ctx) : ctx.partner.id = ctx.delivery.partnerId := by
  unfold Tables.fetchDeliveryContext at h
  obtain ⟨d, -, h⟩ := Option.bind_eq_some_iff.mp h
  obtain ⟨p, hp, h⟩ := Option.bind_eq_some_iff.mp h
  obtain ⟨e, -, h⟩ := Option.bind_eq_some_iff.mp h
  obtain rfl := Option.some.inj h
  simpa using List.find?_some hp

/-- A stored delivery is always found: partner and endpoint are there by the foreign
keys. -/
theorem fetchContext_of_mem {db : Db} {d : Delivery} (hd : d ∈ db.tables.deliveries) :
    ∃ ctx, db.tables.fetchDeliveryContext d.publicId = some ctx ∧ ctx.delivery = d := by
  obtain ⟨p, hp, hpid⟩ := db.consistent.delivery_partner d hd
  obtain ⟨e, he, heid⟩ := db.consistent.delivery_endpoint d hd
  have hfp : (db.tables.partners.find? fun p => p.id = d.partnerId).isSome := by
    rw [List.find?_isSome]
    exact ⟨p, hp, by simpa using hpid⟩
  have hfe : (db.tables.endpoints.find? fun e => e.id = d.endpointId).isSome := by
    rw [List.find?_isSome]
    exact ⟨e, he, by simpa using heid⟩
  obtain ⟨p', hp'⟩ := Option.isSome_iff_exists.mp hfp
  obtain ⟨e', he'⟩ := Option.isSome_iff_exists.mp hfe
  refine ⟨⟨d, p', e'⟩, ?_, rfl⟩
  simp [Tables.fetchDeliveryContext, Table.find_of_mem db.consistent.delivery_publicId hd, hp', he']

theorem fetchWithPartner_some {t : Tables} {i : Uuid} {d : Delivery} {p : Partner}
    (h : t.fetchDeliveryWithPartner i = some (d, p)) : d ∈ t.deliveries ∧ d.publicId = i := by
  unfold Tables.fetchDeliveryWithPartner at h
  obtain ⟨d', hd, h⟩ := Option.bind_eq_some_iff.mp h
  obtain ⟨p', -, h⟩ := Option.bind_eq_some_iff.mp h
  cases h
  exact ⟨List.mem_of_find?_eq_some hd, by simpa using List.find?_some hd⟩

theorem processed_tables {db db' : Db} {s : Session} (hc : db.commit s = .ok db') :
    db'.tables = db.tables.written s := (Db.commit_ok.mp hc).2.2.2.2

theorem processed_mem {settings : Settings} {db db' : Db} {i : Uuid} {input : ProcessInput}
    {ctx : Context} {s : Session} {pub : Option Message}
    (hp : Processes settings db i input ctx s pub) (hc : db.commit s = .ok db') {d : Delivery} :
    d ∈ db'.tables.deliveries ↔
      d = s.delivery ∨ (d ∈ db.tables.deliveries ∧ d.id ≠ ctx.delivery.id) := by
  rw [processed_tables hc, Tables.written, hp.decided.loaded_eq]
  exact mem_flush_current db.consistent (fetchContext_some hp.found).1 hp.decided.flush_current

theorem processed_attempts {db db' : Db} {s : Session} (hc : db.commit s = .ok db') :
    db'.tables.attempts = db.tables.attempts ++ s.attempt.toList := by
  rw [processed_tables hc]
  rfl

theorem attemptsOf_processed {db db' : Db} {ctx : Context} {input : ProcessInput} {s : Session}
    {pub : Option Message} (hdec : Decided ctx input s pub) (hc : db.commit s = .ok db') (i : Nat) :
    db'.tables.attemptsOf i = db.tables.attemptsOf i ++
      if i = ctx.delivery.id then s.attempt.toList else [] := by
  rw [Tables.attemptsOf, processed_attempts hc, List.filter_append, Tables.attemptsOf]
  congr 1
  cases ha : s.attempt with
  | none => simp
  | some a =>
    have hd := (hdec.numbers ha).delivery
    by_cases hi : i = ctx.delivery.id
    · simp [hi, hd]
    · simp [hi, hd, Ne.symm hi]

/-- A commit from a copy that may be stale writes to the row with its id. -/
theorem mem_commit {db db' : Db} {ctx : Context} {input : ProcessInput} {s : Session}
    {pub : Option Message} (hdec : Decided ctx input s pub) (hc : db.commit s = .ok db')
    {d' : Delivery} : d' ∈ db'.tables.deliveries ↔ ∃ d ∈ db.tables.deliveries,
      d' = if d.id = ctx.delivery.id then flushDelivery ctx.delivery s.delivery d else d := by
  rw [processed_tables hc, ← hdec.loaded_eq]
  exact mem_flush

theorem hasAttempt_commit {db db' : Db} {ctx : Context} {input : ProcessInput} {s : Session}
    {pub : Option Message} (hdec : Decided ctx input s pub) (hc : db.commit s = .ok db')
    (i n : Nat) : db'.tables.HasAttempt i n ↔ db.tables.HasAttempt i n ∨
      (s.attempt ≠ none ∧ i = ctx.delivery.id ∧ n = ctx.delivery.attemptCount + 1) := by
  simp only [Tables.HasAttempt, processed_attempts hc, List.mem_append, Option.mem_toList,
    or_and_right, exists_or]
  refine or_congr_right ?_
  constructor
  · rintro ⟨a, ha, rfl, rfl⟩
    exact ⟨by simp [ha], (hdec.numbers ha).delivery, (hdec.numbers ha).number⟩
  · rintro ⟨hne, rfl, rfl⟩
    obtain ⟨a, ha⟩ := Option.ne_none_iff_exists'.mp hne
    exact ⟨a, ha, (hdec.numbers ha).delivery, (hdec.numbers ha).number⟩

/-- An execution gives a dead letter exactly to the delivery it fails. -/
theorem hasDeadLetter_processed {db db' : Db} {ctx : Context} {input : ProcessInput} {s : Session}
    {pub : Option Message} (hdec : Decided ctx input s pub) (hc : db.commit s = .ok db') (n : Nat) :
    db'.tables.HasDeadLetter n ↔
      db.tables.HasDeadLetter n ∨ (n = ctx.delivery.id ∧ s.delivery.status = .failed) := by
  have hletters : db'.tables.deadLetters = db.tables.deadLetters ++ s.deadLetter.toList := by
    rw [processed_tables hc]
    rfl
  rw [hdec.failed_iff]
  constructor
  · rintro ⟨l, hl, hid⟩
    rw [hletters] at hl
    rcases List.mem_append.mp hl with hold | hnew
    · exact .inl ⟨l, hold, hid⟩
    · have hl' := Option.mem_toList.mp hnew
      exact .inr ⟨hid.symm.trans (hdec.deadLetter_delivery hl'), l, hl'⟩
  · rintro (⟨l, hl, hid⟩ | ⟨rfl, l, hl⟩)
    · exact ⟨l, hletters ▸ List.mem_append_left _ hl, hid⟩
    · exact ⟨l, hletters ▸ List.mem_append_right _ (Option.mem_toList.mpr hl),
        hdec.deadLetter_delivery hl⟩

theorem replayed_mem {db : Db} {loaded d : Delivery} {req : ReplayRequest} {s : ReplaySession}
    (hl : loaded ∈ db.tables.deliveries) (hr : Replays loaded req s) :
    d ∈ (db.commitReplay s).tables.deliveries ↔
      d = s.delivery ∨ (d ∈ db.tables.deliveries ∧ d.id ≠ loaded.id) := by
  change d ∈ (db.tables.flush s.loaded s.delivery).deliveries ↔ _
  rw [hr.loaded_eq]
  apply mem_flush_current db.consistent hl
  simp [flushDelivery, hr.delivery_eq]

/-- A commit error of an execution is the error of its commit. -/
theorem processMessage_commit_error {settings : Settings} {db : Db} {i : Uuid}
    {input : ProcessInput} {e : CommitError}
    (h : db.processOutboundMessage settings i input = .error (.commit e)) :
    ∃ ctx s pub, Processes settings db i input ctx s pub ∧ db.commit s = .error e := by
  unfold Db.processOutboundMessage at h
  split at h
  · cases h
  · rename_i ctx hctx
    split at h
    · cases h
    · cases h
    · rename_i s pub out hp
      split at h
      · rename_i c' hc
        cases h
        exact ⟨ctx, s, pub, ⟨hctx, out, hp⟩, hc⟩
      · cases h

theorem processMessage_change {settings : Settings} {db db' : Db} {i : Uuid}
    {input : ProcessInput} {out : ProcessOutcome} {pub : Option Message}
    (h : db.processOutboundMessage settings i input = .ok (db', out, pub)) :
    Change settings db (.process i input) db' := by
  unfold Db.processOutboundMessage at h
  split at h
  · cases h
    exact .keep
  · rename_i ctx hctx
    split at h
    · cases h
    · cases h
      exact .keep
    · rename_i s pub' out' hp
      split at h
      · cases h
      · rename_i db'' hc
        cases h
        exact .processed ⟨hctx, _, hp⟩ hc

/-- Every operation is one of the changes. -/
theorem apply_change (settings : Settings) (db : Db) (op : Op) :
    Change settings db op (db.apply settings op) := by
  cases op with
  | putPartner p => exact .admin _ _ rfl
  | putEndpoint e => exact .admin _ _ rfl
  | enqueue partner endpoints req =>
    simp only [Db.apply]
    cases h : db.acceptEvent partner endpoints req with
    | error e => exact .keep
    | ok db' =>
      obtain ⟨rows, events, ha, ht⟩ := accept_ok h
      exact .accepted ha ht
  | process i input =>
    simp only [Db.apply]
    cases h : db.processOutboundMessage settings i input with
    | error e => exact .keep
    | ok r =>
      obtain ⟨db', out, pub⟩ := r
      exact processMessage_change h
  | replay i req =>
    simp only [Db.apply]
    cases h : replayDelivery (db.tables.fetchDeliveryWithPartner i) req with
    | error e => exact .keep
    | ok s =>
      obtain ⟨loaded, partner, hrow, hr⟩ := replay_cases h
      obtain ⟨hl, hi⟩ := fetchWithPartner_some hrow
      exact .replayed hl hi hr
  | acknowledge id now sub =>
    simp only [Db.apply]
    cases h : db.acknowledgeDeadLetter id now sub with
    | error e => exact .keep
    | ok db' => exact .deadLetter (acknowledge_ok h)
  | purge id reason sub =>
    simp only [Db.apply]
    cases h : db.purgeDeadLetter id reason sub with
    | error e => exact .keep
    | ok db' => exact .deadLetter (purge_ok h)

/-- A FAILED delivery can always be replayed: its partner is there by the foreign key. -/
theorem apply_replay_failed (settings : Settings) {db : Db} {d : Delivery} (req : ReplayRequest)
    (hd : d ∈ db.tables.deliveries) (hf : d.status = .failed) :
    ∃ s, Replays d req s ∧ db.apply settings (.replay d.publicId req) = db.commitReplay s := by
  obtain ⟨p, hp⟩ : ∃ p, db.tables.fetchDeliveryWithPartner d.publicId = some (d, p) := by
    obtain ⟨q, hq, hqid⟩ := db.consistent.delivery_partner d hd
    cases hfind : db.tables.partners.find? (fun p => p.id = d.partnerId) with
    | none => simpa [hqid] using List.find?_eq_none.mp hfind q hq
    | some p =>
      refine ⟨p, ?_⟩
      simp [Tables.fetchDeliveryWithPartner, Table.find_of_mem db.consistent.delivery_publicId hd,
        hfind]
  cases hr : replayDelivery (some (d, p)) req with
  | error e => simp [replayDelivery, hf, transition, canTransition, validTransitions] at hr
  | ok s =>
    obtain ⟨loaded, partner, hrow, hrep⟩ := replay_cases hr
    cases hrow
    refine ⟨s, hrep, ?_⟩
    simp only [Db.apply, hp, hr]
    rfl

/-- The operations that read and write in one transaction of their own: all but the
processing of a message and a replay, which work on a copy they read before. -/
def Op.isAtomic : Op → Bool
  | .process _ _ => false
  | .replay _ _ => false
  | _ => true

/-- What an atomic operation adds: new deliveries are PENDING, without attempts, and
each has an unpublished outbox row on the pending topic. Nothing else that a worker
reads or writes changes. -/
structure Adds (t t' : Tables) (rows : List Delivery) (events : List OutboxEvent) : Prop where
  deliveries : t'.deliveries = t.deliveries ++ rows
  attempts : t'.attempts = t.attempts
  outbox : t'.outbox = t.outbox ++ events
  pending : ∀ d ∈ rows, d.status = .pending ∧ d.attemptCount = 0
  fresh : ∀ d ∈ rows, t.deliverySeq < d.id
  fresh_events : ∀ o ∈ events, t.outboxSeq < o.id
  carried : ∀ d ∈ rows, ∃ o ∈ events, o.publishedAt = none ∧ o.topic = .outboundPending ∧
    o.payload.deliveryId = some d.publicId

theorem Adds.nothing {t t' : Tables} (hd : t'.deliveries = t.deliveries)
    (ha : t'.attempts = t.attempts) (ho : t'.outbox = t.outbox) : Adds t t' [] [] where
  deliveries := by rw [hd, List.append_nil]
  attempts := ha
  outbox := by rw [ho, List.append_nil]
  pending := by simp
  fresh := by simp
  fresh_events := by simp
  carried := by simp

theorem Accepts.adds {t : Tables} {partner : Partner} {endpoints : List PartnerEndpoint}
    {req : EnqueueRequest} {rows : List Delivery} {events : List OutboxEvent}
    (ha : Accepts t partner endpoints req rows events) :
    Adds t (t.inserted rows events) rows events where
  deliveries := rfl
  attempts := rfl
  outbox := rfl
  pending := by
    intro d hd
    obtain ⟨e, -, publicId, hb⟩ := ha.built d hd
    rw [hb]
    exact ⟨rfl, rfl⟩
  fresh := ha.fresh
  fresh_events := ha.fresh_events
  carried := ha.carried

theorem atomic_adds (settings : Settings) (db : Db) {op : Op} (hop : op.isAtomic = true) :
    ∃ rows events, Adds db.tables (db.apply settings op).tables rows events := by
  have hch := apply_change settings db op
  revert hch
  generalize db.apply settings op = db'
  intro hch
  cases hch with
  | keep => exact ⟨[], [], .nothing rfl rfl rfl⟩
  | admin partners endpoints he => exact ⟨[], [], .nothing (by rw [he]) (by rw [he]) (by rw [he])⟩
  | accepted ha he => exact ⟨_, _, he ▸ ha.adds⟩
  | processed | replayed => cases hop
  | deadLetter hw =>
    exact ⟨[], [], .nothing (by rw [hw.frame]) (by rw [hw.frame]) (by rw [hw.frame])⟩

/-! One partner with one endpoint, and the calls the concrete runs below are made of. -/

def acme : Partner where
  id := 1
  publicId := 1
  slug := "acme"
  status := .active
  slaSeconds := 60
  rateLimitRps := 100
  autoReplayEnabled := false

def acmeEndpoint : PartnerEndpoint where
  id := 2
  partnerId := 1
  direction := .outbound
  url := "https://acme.example/hook"
  eventTypes := ["order.created"]
  status := .active
  slaSeconds := none
  maxAttempts := 5
  retryOnStatusCodes := []

def acmeRequest (key : String) : EnqueueRequest where
  partnerId := 1
  eventType := "order.created"
  payload := ⟨"payload"⟩
  idempotencyKey := key
  correlationId := "corr"
  now := 0
  publicIds := fun i => BitVec.ofNat 128 (10 + i)
  createdAt := 0

/-- An execution at `now` that gets `code` back. -/
def answer (now : Time) (code : Nat) : ProcessInput where
  now := now
  signingSecret := some [1]
  allowOutbound := true
  reply := .response code ""
  durationMs := 5
  respondedAt := now
  deadLetterId := 20
  deadLetterAt := now

def manualReplay (resetAttemptCounter : Bool) : ReplayRequest where
  actorId := "ops"
  reason := "fixed"
  resetAttemptCounter := resetAttemptCounter
  trigger := .manual
  scheduledAt := 100
  createdAt := 100

/-- Set up the partner and accept one event: delivery 10 is PENDING. -/
def acceptedRun : List Op :=
  [.putPartner acme, .putEndpoint acmeEndpoint, .enqueue acme [acmeEndpoint] (acmeRequest "k")]

end PartnerHub.Outbound
