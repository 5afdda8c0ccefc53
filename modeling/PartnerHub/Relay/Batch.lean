import PartnerHub.Inbound.Ingest
import PartnerHub.Outbound.Accept

/-!
# The outbox relay

`publish_unpublished_batch` and the loop of `OutboxRelay.run`, for any number of relays on
one outbox table: a batch is selected and locked, its rows are sent one after the other,
and one commit writes what the sends returned. PostgreSQL keeps row locks until the
transaction ends, with the commit, with an exception or with the process. Beside the tables
the state records what Kafka acknowledged and which batches committed.
-/
namespace PartnerHub.Relay

open PartnerHub.Domain PartnerHub.Inbound

/-- `send_and_wait` returns once the record is acknowledged, or raises. -/
inductive SendResult where
  | acknowledged | raised
  deriving DecidableEq, Repr

/-- A relay's open transaction: rows not sent yet, rows acknowledged with the time written
to `published_at`, rows whose send raised. -/
structure Batch where
  number : Nat
  pending : List OutboxEvent
  published : List (OutboxEvent × Time)
  failed : List OutboxEvent

structure Ack where
  batch : Nat
  row : Nat
  message : Message
  publishedAt : Time
  deriving DecidableEq, Repr

structure SendFailure where
  batch : Nat
  row : Nat
  deriving DecidableEq, Repr

/-- The unpublished rows when a batch started and how many acknowledgements there were. -/
structure BatchStart where
  unpublished : List OutboxEvent
  acks : Nat
  deriving DecidableEq, Repr

/-- The committed tables, the open batches, the row locks with the relay that holds them,
and the history: acknowledgements and failed sends in order, batch starts, committed
batches. -/
structure Outbox where
  rows : List OutboxEvent
  seq : Nat
  inboundEvents : List InboundEvent
  relays : Nat → Option Batch
  locks : Nat → Option Nat
  acks : List Ack
  failures : List SendFailure
  starts : List BatchStart
  committed : List Nat

def Outbox.init : Outbox where
  rows := []
  seq := 0
  inboundEvents := []
  relays := fun _ => none
  locks := fun _ => none
  acks := []
  failures := []
  starts := []
  committed := []

/-- What `build_delivery_outbox_persist_stmt` selects for one delivery. -/
structure DeliveryRow where
  aggregateId : Nat
  topic : Topic
  messageKey : Uuid
  payload : Envelope
  deriving DecidableEq, Repr

def DeliveryRow.outboxEvent (createdAt : Time) (row : DeliveryRow) : OutboxEvent where
  id := 0
  aggregateType := .delivery
  aggregateId := row.aggregateId
  topic := row.topic
  messageKey := row.messageKey
  payload := row.payload
  createdAt := createdAt
  publishedAt := none
  publishAttempts := 0

/-- The commits of `ingest_event` and of the services that persist deliveries, and the
steps of the relays. `scan` is the order in which the SELECT meets the rows: rows created at
one instant come in that order. -/
inductive RelayAction where
  | ingest (req : IngestRequest) (createdAt : Time)
  | persist (rows : List DeliveryRow) (createdAt : Time)
  | select (r limit : Nat) (scan : List OutboxEvent)
  | send (r : Nat) (result : SendResult) (now : Time)
  | commit (r : Nat)
  | crash (r : Nat)
  deriving DecidableEq, Repr

/-- The relay an action belongs to. -/
def RelayAction.relay : RelayAction → Option Nat
  | .ingest _ _ => none
  | .persist _ _ => none
  | .select r _ _ => some r
  | .send r _ _ => some r
  | .commit r => some r
  | .crash r => some r

/-- `payload["event_id"]`; only inbound envelopes have the key. -/
def eventId : Envelope → Option Uuid
  | .inbound e => some e.eventId
  | _ => none

/-- The rows `unpublished_outbox_select` chooses from. -/
def Outbox.selectable (s : Outbox) : List OutboxEvent :=
  s.rows.filter fun o => o.publishedAt = none ∧ s.locks o.id = none

/-- ORDER BY created_at LIMIT. -/
def unpublishedOutboxSelect (limit : Nat) (scan : List OutboxEvent) : List OutboxEvent :=
  (scan.insertionSort fun a b => a.createdAt ≤ b.createdAt).take limit

/-- The UPDATE of `_mark_inbound_published`. -/
def markInboundPublished (events : List InboundEvent) (id : Uuid) (publishedAt : Time) :
    List InboundEvent :=
  Lib.Table.modify (·.id) id (fun e => { e with publishedAt := some publishedAt }) events

/-- The inbound event an outbox row publishes. -/
def publishes (o : OutboxEvent) : Option Uuid :=
  match o.aggregateType with
  | .delivery => none
  | .inboundEvent => eventId o.payload

/-- The UPDATEs of `inbound_events` a batch has issued, in order. -/
def Batch.markInbound (b : Batch) (events : List InboundEvent) : List InboundEvent :=
  b.published.foldl (fun events p =>
    match publishes p.1 with
    | none => events
    | some id => markInboundPublished events id p.2) events

/-- What the session writes to a row of the outbox. -/
def Batch.mark (b : Batch) (o : OutboxEvent) : OutboxEvent :=
  match b.published.find? fun p => p.1.id = o.id with
  | some p => { o with publishedAt := some p.2 }
  | none =>
    if ∃ f ∈ b.failed, f.id = o.id then { o with publishAttempts := o.publishAttempts + 1 }
    else o

/-- The largest value of a SmallInteger column. -/
def smallIntegerMax : Nat := 32767

def Outbox.setBatch (s : Outbox) (r : Nat) (b : Option Batch) : Outbox :=
  { s with relays := Function.update s.relays r b }

/-- The transaction is over and its locks are released. -/
def Outbox.endTransaction (s : Outbox) (r : Nat) : Outbox :=
  { s.setBatch r none with locks := fun i => if s.locks i = some r then none else s.locks i }

/-- Rows committed by another service. -/
def Outbox.inserted (s : Outbox) (events : List OutboxEvent) (inbound : List InboundEvent) :
    Outbox :=
  { s with
    rows := s.rows ++ events
    seq := s.seq + events.length
    inboundEvents := s.inboundEvents ++ inbound }

/-- The rows are selected and locked. -/
def Outbox.selected (s : Outbox) (r : Nat) (rows : List OutboxEvent) : Outbox :=
  { s.setBatch r (some ⟨s.starts.length, rows, [], []⟩) with
    locks := fun i => if i ∈ rows.map (·.id) then some r else s.locks i
    starts := s.starts ++ [⟨s.rows.filter (·.publishedAt = none), s.acks.length⟩] }

/-- The send raised: the row is counted and the loop continues. -/
def Outbox.raised (s : Outbox) (r : Nat) (b : Batch) (o : OutboxEvent) (rest : List OutboxEvent) :
    Outbox :=
  { s.setBatch r (some { b with pending := rest, failed := b.failed ++ [o] }) with
    failures := s.failures ++ [⟨b.number, o.id⟩] }

/-- The send returned: the row and its inbound event are marked in the session. -/
def Outbox.acked (s : Outbox) (r : Nat) (b : Batch) (o : OutboxEvent) (rest : List OutboxEvent)
    (now : Time) : Outbox :=
  { s.setBatch r (some { b with pending := rest, published := b.published ++ [(o, now)] }) with
    acks := s.acks ++ [⟨b.number, o.id, o.message, now⟩] }

/-- The session's writes are committed. -/
def Outbox.written (s : Outbox) (r : Nat) (b : Batch) : Outbox :=
  { s.endTransaction r with
    rows := s.rows.map b.mark
    inboundEvents := b.markInbound s.inboundEvents
    committed := s.committed ++ [b.number] }

/-- One round of the loop. An inbound row without an event id raises outside the `try` and
ends the relay after the acknowledgement. -/
def Outbox.send (s : Outbox) (r : Nat) (b : Batch) (o : OutboxEvent) (rest : List OutboxEvent)
    (now : Time) : SendResult → Outbox
  | .raised => s.raised r b o rest
  | .acknowledged =>
    match o.aggregateType, eventId o.payload with
    | .inboundEvent, none => (s.acked r b o rest now).endTransaction r
    | _, _ => s.acked r b o rest now

/-- `session.commit`; a counter that no longer fits its column fails the flush. -/
def Outbox.commit (s : Outbox) (r : Nat) (b : Batch) : Outbox :=
  if ∀ o ∈ s.rows, (b.mark o).publishAttempts ≤ smallIntegerMax then s.written r b
  else s.endTransaction r

def Outbox.step (s : Outbox) : RelayAction → Option Outbox
  | .ingest req createdAt =>
    if ∃ e ∈ s.inboundEvents, Collides e req.inbound then none
    else some (s.inserted [req.outboxEvent (s.seq + 1) createdAt] [req.inbound])
  | .persist rows createdAt =>
    some (s.inserted (Outbound.numberOutbox s.seq (rows.map (·.outboxEvent createdAt))) [])
  | .select r limit scan =>
    if s.relays r = none ∧ scan.Perm s.selectable then
      some (s.selected r (unpublishedOutboxSelect limit scan))
    else none
  | .send r result now =>
    match s.relays r with
    | none => none
    | some b =>
      match b.pending with
      | [] => none
      | o :: rest => some (s.send r b o rest now result)
  | .commit r =>
    match s.relays r with
    | none => none
    | some b =>
      match b.pending with
      | [] => some (s.commit r b)
      | _ :: _ => none
  | .crash r => (s.relays r).map fun _ => s.endTransaction r

/-- Rows a commit of another service adds: fresh and unpublished, each inbound row with the
event it names. -/
structure Inserts (s : Outbox) (events : List OutboxEvent) (inbound : List InboundEvent) :
    Prop where
  ids : events.map (·.id) = List.range' (s.seq + 1) events.length
  unpublished : ∀ o ∈ events, o.publishedAt = none
  event_ids : ((s.inboundEvents ++ inbound).map (·.id)).Nodup
  event_unpublished : ∀ e ∈ inbound, e.publishedAt = none
  named : ∀ o ∈ events, o.aggregateType = .inboundEvent →
    ∃ e ∈ inbound, publishes o = some e.id
  one_row : ∀ o ∈ events, ∀ o' ∈ events, publishes o ≠ none → publishes o = publishes o' → o = o'

/-- Everything one step can do. -/
inductive Moves (s : Outbox) : RelayAction → Outbox → Prop
  | insert {a : RelayAction} {events : List OutboxEvent} {inbound : List InboundEvent}
      (ha : a.relay = none) (hi : Inserts s events inbound) :
      Moves s a (s.inserted events inbound)
  | select {r limit : Nat} {scan : List OutboxEvent} (hr : s.relays r = none)
      (hscan : scan.Perm s.selectable) :
      Moves s (.select r limit scan) (s.selected r (unpublishedOutboxSelect limit scan))
  | raised {r : Nat} {b : Batch} {o : OutboxEvent} {rest : List OutboxEvent} {now : Time}
      (hr : s.relays r = some b) (hp : b.pending = o :: rest) :
      Moves s (.send r .raised now) (s.raised r b o rest)
  | acked {r : Nat} {b : Batch} {o : OutboxEvent} {rest : List OutboxEvent} {now : Time}
      (hr : s.relays r = some b) (hp : b.pending = o :: rest) :
      Moves s (.send r .acknowledged now) (s.acked r b o rest now)
  | died {r : Nat} {b : Batch} {o : OutboxEvent} {rest : List OutboxEvent} {now : Time}
      (hr : s.relays r = some b) (hp : b.pending = o :: rest) :
      Moves s (.send r .acknowledged now) ((s.acked r b o rest now).endTransaction r)
  | written {r : Nat} {b : Batch} (hr : s.relays r = some b) (hp : b.pending = []) :
      Moves s (.commit r) (s.written r b)
  | ended {a : RelayAction} {r : Nat} {b : Batch} (ha : a = .commit r ∨ a = .crash r)
      (hr : s.relays r = some b) : Moves s a (s.endTransaction r)

theorem inserts_ingest {s : Outbox} (hn : (s.inboundEvents.map (·.id)).Nodup)
    {req : IngestRequest} (h : ¬ ∃ e ∈ s.inboundEvents, Collides e req.inbound)
    (createdAt : Time) :
    Inserts s [req.outboxEvent (s.seq + 1) createdAt] [req.inbound] where
  ids := rfl
  unpublished := by
    intro o ho
    rw [List.mem_singleton.mp ho]
    rfl
  event_ids := by
    rw [List.map_append, List.nodup_append]
    refine ⟨hn, List.nodup_singleton _, ?_⟩
    intro i hi j hj he
    obtain ⟨e, hmem, rfl⟩ := List.mem_map.mp hi
    rw [List.map_singleton, List.mem_singleton] at hj
    exact h ⟨e, hmem, .inr (he.trans hj)⟩
  event_unpublished := by
    intro e he
    rw [List.mem_singleton.mp he]
    rfl
  named := by
    intro o ho _
    refine ⟨req.inbound, List.mem_singleton_self _, ?_⟩
    rw [List.mem_singleton.mp ho]
    rfl
  one_row := by
    intro o ho o' ho' _ _
    rw [List.mem_singleton.mp ho, List.mem_singleton.mp ho']

theorem numbered_delivery {seq : Nat} {rows : List DeliveryRow} {createdAt : Time}
    {o : OutboxEvent}
    (h : o ∈ Outbound.numberOutbox seq (rows.map (·.outboxEvent createdAt))) :
    o.publishedAt = none ∧ o.aggregateType = .delivery := by
  obtain ⟨i, hi, rfl⟩ := List.mem_mapIdx.mp h
  rw [List.getElem_map]
  exact ⟨rfl, rfl⟩

theorem inserts_persist {s : Outbox} (hn : (s.inboundEvents.map (·.id)).Nodup)
    (rows : List DeliveryRow) (createdAt : Time) :
    Inserts s (Outbound.numberOutbox s.seq (rows.map (·.outboxEvent createdAt))) [] where
  ids := Outbound.numberOutbox_ids _ _
  unpublished := fun _ ho => (numbered_delivery ho).1
  event_ids := by rwa [List.append_nil]
  event_unpublished := fun _ he => absurd he List.not_mem_nil
  named := by
    intro o ho hin
    rw [(numbered_delivery ho).2] at hin
    cases hin
  one_row := by
    intro o ho o' _ hne _
    have hnone : publishes o = none := by
      unfold publishes
      rw [(numbered_delivery ho).2]
    exact absurd hnone hne

theorem moves_send (s : Outbox) {r : Nat} {b : Batch} {o : OutboxEvent} {rest : List OutboxEvent}
    (hr : s.relays r = some b) (hp : b.pending = o :: rest) (now : Time) (result : SendResult) :
    Moves s (.send r result now) (s.send r b o rest now result) := by
  cases result with
  | raised => exact .raised hr hp
  | acknowledged =>
    unfold Outbox.send
    simp only
    split
    · exact .died hr hp
    · exact .acked hr hp

theorem moves_of_step {s s' : Outbox} {a : RelayAction}
    (hn : (s.inboundEvents.map (·.id)).Nodup) (hs : s.step a = some s') : Moves s a s' := by
  cases a with
  | ingest req createdAt =>
    simp only [Outbox.step] at hs
    split at hs
    · cases hs
    · rename_i hc
      cases hs
      exact .insert rfl (inserts_ingest hn hc createdAt)
  | persist rows createdAt =>
    cases hs
    exact .insert rfl (inserts_persist hn rows createdAt)
  | select r limit scan =>
    simp only [Outbox.step] at hs
    split at hs
    · rename_i hg
      cases hs
      exact .select hg.1 hg.2
    · cases hs
  | send r result now =>
    simp only [Outbox.step] at hs
    split at hs
    · cases hs
    · rename_i b hr
      split at hs
      · cases hs
      · rename_i o rest hp
        cases hs
        exact moves_send s hr hp now result
  | commit r =>
    simp only [Outbox.step] at hs
    split at hs
    · cases hs
    · rename_i b hr
      split at hs
      · rename_i hp
        cases hs
        unfold Outbox.commit
        split
        · exact .written hr hp
        · exact .ended (.inl rfl) hr
      · cases hs
  | crash r =>
    obtain ⟨b, hr, rfl⟩ := Option.map_eq_some_iff.mp hs
    exact .ended (.inr rfl) hr

end PartnerHub.Relay
