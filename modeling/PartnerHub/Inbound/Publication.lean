import PartnerHub.Inbound.Deduplication
import PartnerHub.Relay.Safety

/-!
# From the request to the record

Ingesting requests and outbox relays on one database: the commit of a request inserts its
event and the outbox row the relays publish. Every record on an inbound topic is the one
record of a committed request, under the public id of the partner that sent it, and a
response with an event id means that its record was acknowledged or waits in the outbox.
-/
namespace PartnerHub.Inbound

open PartnerHub.Domain PartnerHub.Lib PartnerHub.Lib.System
open PartnerHub.Relay (Outbox RelayAction RelayInvariant Batch Moves publishes eventId)

/-- The two halves of the database, and the requests whose transactions are committed. No
step reads `accepted`. -/
structure InboundPath where
  ingest : Ingest
  outbox : Outbox
  accepted : List IngestRequest

def InboundPath.init : InboundPath := ⟨Ingest.init, Outbox.init, []⟩

inductive PathAction where
  | request (a : IngestAction)
  | relay (a : RelayAction)

/-- The request whose transaction a step commits. -/
def Ingest.committing (s : Ingest) : IngestAction → Option (IngestRequest × Time)
  | .commit r createdAt =>
    match s.requests r with
    | some (req, .flushed) => some (req, createdAt)
    | _ => none
  | _ => none

/-- The rows the services persist for deliveries carry outbound envelopes. -/
def ForDeliveries : RelayAction → Prop
  | .ingest _ _ => False
  | .persist rows _ => ∀ row ∈ rows, ∃ e, row.payload = .outbound e
  | _ => True

instance (v : Envelope) : Decidable (∃ e, v = .outbound e) :=
  match v with
  | .outbound e => isTrue ⟨e, rfl⟩
  | .inbound _ => isFalse (by simp)
  | .dlq _ => isFalse (by simp)
  | .slaBreached _ => isFalse (by simp)

instance : ∀ a, Decidable (ForDeliveries a)
  | .ingest _ _ => inferInstanceAs (Decidable False)
  | .persist rows _ => inferInstanceAs (Decidable (∀ row ∈ rows, ∃ e, row.payload = .outbound e))
  | .select _ _ _ | .send _ _ _ | .commit _ | .crash _ => inferInstanceAs (Decidable True)

/-- A commit of a request is one transaction: the event and its outbox row. -/
def InboundPath.step (s : InboundPath) : PathAction → Option InboundPath
  | .request a =>
    (s.ingest.step a).bind fun ingest =>
      match s.ingest.committing a with
      | none => some ⟨ingest, s.outbox, s.accepted⟩
      | some (req, createdAt) =>
        (s.outbox.step (.ingest req createdAt)).map fun outbox =>
          ⟨ingest, outbox, s.accepted ++ [req]⟩
  | .relay a =>
    if ForDeliveries a then (s.outbox.step a).map fun o => ⟨s.ingest, o, s.accepted⟩ else none

/-- The record of a request: its partner's public id is the message key and the
`partner_id` of the envelope. -/
def IngestRequest.record (req : IngestRequest) : Message where
  topic := .inbound req.eventType
  key := req.partner.publicId
  value := .inbound (buildInboundEnvelope req.partner req.inbound)

/-- The row is published and its record was acknowledged in a committed batch, or it is
unpublished and in the hands of a relay or the next one's to select. -/
def SentOrWaiting (s : Outbox) (o : OutboxEvent) : Prop :=
  (∃ a ∈ s.acks, a.row = o.id ∧ a.message = o.message ∧ o.publishedAt = some a.publishedAt ∧
    a.batch ∈ s.committed) ∨
  (o.publishedAt = none ∧ (o ∈ s.selectable ∨ ∃ r b, s.relays r = some b ∧ o ∈ b.rows))

/-- What the inbound path promises. -/
structure Published (s : InboundPath) : Prop where
  requests : s.accepted.map (·.inbound) = s.ingest.events
  source : ∀ a ∈ s.outbox.acks, ∀ i, eventId a.message.value = some i →
    ∃ req ∈ s.accepted, req.eventId = i ∧ a.message = req.record
  copies : ∀ a ∈ s.outbox.acks, ∀ a' ∈ s.outbox.acks, ∀ i, eventId a.message.value = some i →
    eventId a'.message.value = some i → a.message = a'.message
  one_row : (s.outbox.rows.filterMap outboxKey).Nodup
  answered : ∀ x ∈ s.ingest.answers, ∀ i, x.response.eventId = some i →
    ∃ req ∈ s.accepted, req.eventId = i ∧ req.key = x.key ∧
      ∃ o ∈ s.outbox.rows, publishes o = some i ∧ o.message = req.record ∧
        SentOrWaiting s.outbox o

/-- The event as it was inserted. -/
def inserted (e : InboundEvent) : InboundEvent := { e with publishedAt := none }

/-- The request an inbound row was inserted with. -/
def RowOf (s : InboundPath) (o : OutboxEvent) : Prop :=
  (o.aggregateType = .delivery ∧ ∃ e, o.payload = .outbound e) ∨
    (o.aggregateType = .inboundEvent ∧ ∃ req ∈ s.accepted,
      o.aggregateId = req.partner.id ∧ o.message = req.record)

/-- The two halves of the database agree. -/
structure Joined (s : InboundPath) : Prop where
  ingest : Sound s.ingest
  outbox : RelayInvariant s.outbox
  requests : s.accepted.map (·.inbound) = s.ingest.events
  events : s.outbox.inboundEvents.map inserted = s.ingest.events
  keys : s.outbox.rows.filterMap outboxKey = s.ingest.eventKeys
  rows : ∀ o ∈ s.outbox.rows, RowOf s o

theorem joined_init : Joined InboundPath.init where
  ingest := sound_init
  outbox := Relay.relayInvariant_init
  requests := rfl
  events := rfl
  keys := rfl
  rows := fun _ h => absurd h List.not_mem_nil

section Requests

variable {s s' : Ingest} {a : IngestAction}

/-- Only a commit inserts events. -/
theorem events_of_not_committing (hs : s.step a = some s') (hc : s.committing a = none) :
    s'.events = s.events := by
  cases a with
  | arrive r req =>
    simp only [Ingest.step] at hs
    split at hs
    · cases hs
      rfl
    · cases hs
  | getCachedEventId r =>
    simp only [Ingest.step] at hs
    split at hs
    · split at hs
      · cases hs
        rfl
      · split at hs
        · cases hs
          rfl
        · cases hs
          rfl
    · cases hs
  | flush r =>
    simp only [Ingest.step] at hs
    split at hs
    · split_ifs at hs <;> cases hs <;> rfl
    · cases hs
  | fetchExisting r =>
    simp only [Ingest.step] at hs
    split at hs
    · split at hs
      · cases hs
        rfl
      · cases hs
        rfl
    · cases hs
  | commit r createdAt =>
    simp only [Ingest.step] at hs
    split at hs
    · rename_i req hr
      simp only [Ingest.committing, hr] at hc
      cases hc
    · cases hs
  | cacheEventId r =>
    simp only [Ingest.step] at hs
    split at hs
    · cases hs
      rfl
    · cases hs
  | respond r =>
    simp only [Ingest.step] at hs
    split at hs
    · cases hs
      rfl
    · cases hs
  | expire key =>
    cases hs
    rfl
  | fail r =>
    obtain ⟨x, -, rfl⟩ := Option.map_eq_some_iff.mp hs
    rfl

/-- A commit inserts the event of its request, which collides with none before it. -/
theorem events_of_committing (h : Sound s) (hs : s.step a = some s') {req : IngestRequest}
    {createdAt : Time} (hc : s.committing a = some (req, createdAt)) :
    s'.events = s.events ++ [req.inbound] ∧ ∀ e ∈ s.events, ¬ Collides e req.inbound := by
  cases a with
  | commit r t =>
    simp only [Ingest.committing] at hc
    split at hc
    · rename_i q hr
      cases hc
      simp only [Ingest.step, hr] at hs
      cases hs
      refine ⟨rfl, ?_⟩
      have hmem : req.inbound ∈ s.pending.map (·.2) :=
        List.mem_map.mpr ⟨_, h.flushed r req hr, rfl⟩
      rintro e he (hkey | hid)
      · have hk := h.keys
        rw [Ingest.rows, List.map_append, List.nodup_append] at hk
        exact hk.2.2 _ (List.mem_map_of_mem he) _ (List.mem_map_of_mem hmem) hkey
      · have hi := h.ids
        rw [Ingest.rows, List.map_append, List.nodup_append] at hi
        exact hi.2.2 _ (List.mem_map_of_mem he) _ (List.mem_map_of_mem hmem) hid
    · cases hc
  | _ => cases hc

end Requests

section Relays

variable {s : InboundPath} {b : Batch}

theorem inserted_stamp (b : Batch) (e : InboundEvent) : inserted (b.stamp e) = inserted e := by
  unfold Batch.stamp
  induction b.published generalizing e with
  | nil => rfl
  | cons p rest ih =>
    rw [List.foldl_cons]
    split
    · exact ih _
    · exact ih _

theorem outboxKey_mark (b : Batch) (o : OutboxEvent) : outboxKey (b.mark o) = outboxKey o := by
  unfold Batch.mark
  split
  · rfl
  · split <;> rfl

theorem rowOf_mark {o : OutboxEvent} (b : Batch) (h : RowOf s o) : RowOf s (b.mark o) := by
  have hid : (b.mark o).aggregateId = o.aggregateId := by
    unfold Batch.mark
    split
    · rfl
    · split <;> rfl
  have hm := Relay.mark_message b o
  have hp : (b.mark o).payload = o.payload := congrArg Message.value hm
  rw [RowOf, Relay.mark_aggregateType, hp, hid, hm]
  exact h

theorem outboxKey_of_outbound {o : OutboxEvent} (h : ∃ e, o.payload = .outbound e) :
    outboxKey o = none := by
  obtain ⟨e, he⟩ := h
  unfold outboxKey
  rw [he]

/-- A relay leaves the inbound half alone, apart from the publication. -/
theorem joined_moves {a : RelayAction} {o' : Outbox} (h : Joined s) (hinv : RelayInvariant o')
    (ha : a.relay ≠ none) (hm : Moves s.outbox a o') : Joined ⟨s.ingest, o', s.accepted⟩ := by
  cases hm with
  | insert hno => exact absurd hno ha
  | @written r b hr hp =>
    refine ⟨h.ingest, hinv, h.requests, ?_, ?_, ?_⟩
    · show (b.markInbound s.outbox.inboundEvents).map inserted = _
      rw [Relay.markInbound_eq_map, List.map_map, ← h.events]
      exact List.map_congr_left fun e _ => inserted_stamp b e
    · show (s.outbox.rows.map b.mark).filterMap outboxKey = _
      rw [List.filterMap_map, ← h.keys]
      congr 1
      funext o
      exact outboxKey_mark b o
    · intro o ho
      obtain ⟨o₀, ho₀, rfl⟩ := List.mem_map.mp ho
      exact rowOf_mark b (h.rows o₀ ho₀)
  | select | raised | acked | died | ended =>
    exact ⟨h.ingest, hinv, h.requests, h.events, h.keys, h.rows⟩

/-- The relays and the services that persist deliveries leave the inbound half alone. -/
theorem joined_relay {a : RelayAction} {o' : Outbox} (h : Joined s) (ha : ForDeliveries a)
    (hs : s.outbox.step a = some o') : Joined ⟨s.ingest, o', s.accepted⟩ := by
  have hinv := h.outbox.step hs
  cases a with
  | ingest => exact absurd ha id
  | persist rows createdAt =>
    obtain rfl := Option.some.inj hs
    have hnew : ∀ o ∈ Outbound.numberOutbox s.outbox.seq (rows.map (·.outboxEvent createdAt)),
        o.aggregateType = .delivery ∧ ∃ e, o.payload = .outbound e := by
      intro o ho
      obtain ⟨i, hi, rfl⟩ := List.mem_mapIdx.mp ho
      rw [List.getElem_map]
      exact ⟨rfl, ha _ (List.getElem_mem _)⟩
    refine ⟨h.ingest, hinv, h.requests, ?_, ?_, ?_⟩
    · show (s.outbox.inboundEvents ++ []).map inserted = _
      rw [List.append_nil]
      exact h.events
    · show (s.outbox.rows ++ _).filterMap outboxKey = _
      have hnone : ∀ o ∈ Outbound.numberOutbox s.outbox.seq (rows.map (·.outboxEvent createdAt)),
          outboxKey o = none := fun o ho => outboxKey_of_outbound (hnew o ho).2
      rw [List.filterMap_append, List.filterMap_eq_nil_iff.mpr hnone, List.append_nil]
      exact h.keys
    · intro o ho
      rcases List.mem_append.mp ho with hold | hin
      · exact h.rows o hold
      · exact .inl (hnew o hin)
  | select | send | commit | crash =>
    have hm := Relay.moves_of_step h.outbox.sound.tables.event_ids hs
    exact joined_moves h hinv (by simp [RelayAction.relay]) hm

end Relays

section Joined

variable {s s' : InboundPath} {a : PathAction}

theorem RowOf.mono {o : OutboxEvent} (h : RowOf s o)
    (hr : ∀ req ∈ s.accepted, req ∈ s'.accepted) : RowOf s' o := by
  refine h.imp_right ?_
  rintro ⟨ht, req, hmem, hrest⟩
  exact ⟨ht, req, hr req hmem, hrest⟩

/-- PostgreSQL takes the outbox row of every event it takes. -/
theorem ingest_commits (h : Joined s) {ingest : Ingest} {act : IngestAction}
    {req : IngestRequest} {createdAt : Time} (hs : s.ingest.step act = some ingest)
    (hc : s.ingest.committing act = some (req, createdAt)) :
    s.outbox.step (.ingest req createdAt) =
      some (s.outbox.inserted [req.outboxEvent (s.outbox.seq + 1) createdAt] [req.inbound]) := by
  have hapart := (events_of_committing h.ingest hs hc).2
  simp only [Outbox.step]
  rw [if_neg]
  rintro ⟨e, he, hcol⟩
  have hmem : inserted e ∈ s.ingest.events := h.events ▸ List.mem_map_of_mem he
  exact hapart (inserted e) hmem hcol

theorem joined_step (h : Joined s) (hs : s.step a = some s') : Joined s' := by
  cases a with
  | relay act =>
    simp only [InboundPath.step] at hs
    split at hs
    · rename_i hfor
      obtain ⟨o', ho', rfl⟩ := Option.map_eq_some_iff.mp hs
      exact joined_relay h hfor ho'
    · cases hs
  | request act =>
    obtain ⟨ingest, hi, hs⟩ := Option.bind_eq_some_iff.mp hs
    have hsound := sound_step h.ingest hi
    cases hc : s.ingest.committing act with
    | none =>
      rw [hc] at hs
      obtain rfl := Option.some.inj hs
      have he := events_of_not_committing hi hc
      refine ⟨hsound, h.outbox, h.requests.trans he.symm, h.events.trans he.symm, ?_, ?_⟩
      · exact h.keys.trans (congrArg (List.map eventKey) he.symm)
      · intro o ho
        exact (h.rows o ho).mono fun _ hmem => hmem
    | some x =>
      obtain ⟨req, createdAt⟩ := x
      rw [hc] at hs
      have hstep := ingest_commits h hi hc
      simp only [hstep, Option.map_some, Option.some.injEq] at hs
      subst hs
      have he := (events_of_committing h.ingest hi hc).1
      refine ⟨hsound, h.outbox.step hstep, ?_, ?_, ?_, ?_⟩
      · show (s.accepted ++ [req]).map (·.inbound) = ingest.events
        rw [List.map_append, h.requests, he]
        rfl
      · show (s.outbox.inboundEvents ++ [req.inbound]).map inserted = ingest.events
        rw [List.map_append, h.events, he]
        rfl
      · show (s.outbox.rows ++ [_]).filterMap outboxKey = ingest.eventKeys
        rw [List.filterMap_append, h.keys, Ingest.eventKeys, Ingest.eventKeys, he, List.map_append]
        rfl
      · intro o ho
        rcases List.mem_append.mp ho with hold | hnew
        · exact (h.rows o hold).mono fun _ hmem => List.mem_append_left _ hmem
        · rw [List.mem_singleton.mp hnew]
          exact .inr ⟨rfl, req, List.mem_append_right _ (List.mem_singleton_self _), rfl, rfl⟩

/-- An acknowledged record of an event is the record of its row, and of the request that
inserted both. -/
theorem ack_source (h : Joined s) {x : Relay.Ack} (hx : x ∈ s.outbox.acks) {i : Uuid}
    (hi : eventId x.message.value = some i) : ∃ req ∈ s.accepted, req.eventId = i ∧
      x.message = req.record ∧
        ∃ o ∈ s.outbox.rows, publishes o = some i ∧ o.message = x.message := by
  obtain ⟨o, ho, -, hmsg⟩ := h.outbox.acknowledged.row x hx
  have hval : o.payload = x.message.value := congrArg Message.value hmsg
  rcases h.rows o ho with ⟨-, e, he⟩ | ⟨htype, req, hreq, -, hrec⟩
  · rw [← hval, he] at hi
    cases hi
  · have hpay : o.payload = .inbound (buildInboundEnvelope req.partner req.inbound) :=
      congrArg Message.value hrec
    rw [← hval, hpay] at hi
    have hid : req.eventId = i := Option.some.inj hi
    refine ⟨req, hreq, hid, hmsg.symm.trans hrec, o, ho, ?_, hmsg⟩
    rw [publishes, htype, hpay, ← hid]
    rfl

/-- The outbox row of an accepted request. -/
theorem row_of_request (h : Joined s) {req : IngestRequest} (hreq : req ∈ s.accepted) :
    ∃ o ∈ s.outbox.rows, publishes o = some req.eventId ∧ o.message = req.record := by
  have hkey : req.key ∈ s.outbox.rows.filterMap outboxKey := by
    rw [h.keys, Ingest.eventKeys, ← h.requests, List.map_map]
    exact List.mem_map_of_mem hreq
  obtain ⟨o, ho, hok⟩ := List.mem_filterMap.mp hkey
  rcases h.rows o ho with ⟨-, hout⟩ | ⟨htype, req', hreq', hagg, hrec⟩
  · rw [outboxKey_of_outbound hout] at hok
    cases hok
  · have hpay : o.payload = .inbound (buildInboundEnvelope req'.partner req'.inbound) :=
      congrArg Message.value hrec
    have hsame : req'.key = req.key := by
      rw [outboxKey, hpay, hagg] at hok
      exact Option.some.inj hok
    have hnodup : (s.accepted.map (·.key)).Nodup := by
      have hone := h.ingest.deduplicated.one_event
      rw [Ingest.eventKeys, ← h.requests, List.map_map] at hone
      exact hone
    obtain rfl := Table.eq_of_unique hnodup hreq' hreq hsame
    refine ⟨o, ho, ?_, hrec⟩
    rw [publishes, htype, hpay]
    rfl

theorem Joined.sentOrWaiting (h : Joined s) {o : OutboxEvent} (ho : o ∈ s.outbox.rows) :
    SentOrWaiting s.outbox o := by
  have hsound := h.outbox.sound
  cases hp : o.publishedAt with
  | some t =>
    obtain ⟨x, hx, hrow, hat, hc⟩ := (h.outbox.acknowledged.published o ho t).mp hp
    obtain ⟨o', ho', hid, hmsg⟩ := h.outbox.acknowledged.row x hx
    obtain rfl := Table.eq_of_unique hsound.tables.row_ids ho' ho (hid.trans hrow)
    exact .inl ⟨x, hx, hrow, hmsg.symm, hat ▸ hp, hc⟩
  | none =>
    refine .inr ⟨hp, ?_⟩
    cases hl : s.outbox.locks o.id with
    | none => exact .inl (Relay.mem_selectable.mpr ⟨ho, hp, hl⟩)
    | some r =>
      obtain ⟨b, hr, hin⟩ := hsound.held.lock o.id r hl
      obtain ⟨x, hx, hid⟩ := List.mem_map.mp hin
      exact .inr ⟨r, b, hr, hsound.row_of_batch hr hx ho hid ▸ hx⟩

theorem Joined.published (h : Joined s) : Published s where
  requests := h.requests
  source := by
    intro x hx i hi
    obtain ⟨req, hreq, hid, hm, -⟩ := ack_source h hx hi
    exact ⟨req, hreq, hid, hm⟩
  copies := by
    intro x hx x' hx' i hi hi'
    obtain ⟨-, -, -, -, o, ho, hpub, hm⟩ := ack_source h hx hi
    obtain ⟨-, -, -, -, o', ho', hpub', hm'⟩ := ack_source h hx' hi'
    have hne : publishes o ≠ none := by simp [hpub]
    obtain rfl := h.outbox.sound.tables.one_row o ho o' ho' hne (hpub.trans hpub'.symm)
    exact hm.symm.trans hm'
  one_row := by
    rw [h.keys]
    exact h.ingest.deduplicated.one_event
  answered := by
    intro x hx i hi
    obtain ⟨e, he, hkey, hid⟩ := h.ingest.carries x hx i hi
    rw [← h.requests] at he
    obtain ⟨req, hreq, rfl⟩ := List.mem_map.mp he
    obtain ⟨o, ho, hpub, hrec⟩ := row_of_request h hreq
    have hi : req.eventId = i := hid
    exact ⟨req, hreq, hi, hkey, o, ho, hi ▸ hpub, hrec, h.sentOrWaiting ho⟩

end Joined

/-- Along every run, a partner's key has one outbox row, every record on an inbound topic is
the record of the committed request whose event it names, under that partner's public id,
however often it is sent, and every response with an event id has the row of its key
acknowledged or still to be sent. -/
theorem inbound_events_published (as : List PathAction) :
    Throughout InboundPath.step Published InboundPath.init as := by
  have hall : Along InboundPath.step (fun _ _ => True) InboundPath.init as :=
    along_of_forall fun _ _ _ => trivial
  exact throughout_of_invariant Joined (fun _ _ _ h _ hs => joined_step h hs)
    (fun _ h => h.published) joined_init hall

/-- A request is answered, and the relay that was given its row dies after the send: the next
one sends the record again. -/
def sentTwice : List PathAction :=
  [.request (.arrive 0 (raceRequest 10)), .request (.getCachedEventId 0), .request (.flush 0),
    .request (.commit 0 1), .request (.cacheEventId 0), .request (.respond 0),
    .relay (.select 0 100 [(raceRequest 10).outboxEvent 1 1]), .relay (.send 0 .acknowledged 2),
    .relay (.crash 0), .relay (.select 1 100 [(raceRequest 10).outboxEvent 1 1]),
    .relay (.send 1 .acknowledged 3), .relay (.commit 1)]

/-- The state after one request and two sends of its record. -/
theorem record_sent_twice :
    ∃ s, exec InboundPath.step InboundPath.init sentTwice = some s ∧
      s.accepted = [raceRequest 10] ∧
      s.outbox.acks.map (·.message) = [(raceRequest 10).record, (raceRequest 10).record] ∧
      s.ingest.answers.map (·.response) = [.accepted 10] ∧ Published s := by
  have hrun : (exec InboundPath.step InboundPath.init sentTwice).map
      (fun s => (s.accepted, s.outbox.acks.map (·.message), s.ingest.answers.map (·.response))) =
      some ([raceRequest 10], [(raceRequest 10).record, (raceRequest 10).record],
        [.accepted 10]) := by
    decide +kernel
  obtain ⟨s, hs, he⟩ := Option.map_eq_some_iff.mp hrun
  simp only [Prod.mk.injEq] at he
  exact ⟨s, hs, he.1, he.2.1, he.2.2, (inbound_events_published sentTwice).last hs⟩

end PartnerHub.Inbound
