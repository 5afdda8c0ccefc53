import PartnerHub.Outbound.Consumer
import PartnerHub.Outbound.Transactions
import PartnerHub.Relay.Locks

/-!
# The delivery pipeline

The whole path of a delivery: outbox rows, the relays that publish them, the workers of the
consumer group that handle messages, and replays, cut into the steps between which a process
may crash or another one may act. The workers are those of `Group`; here
`process_outbound_message` is opened up into what it reads, commits and sends. The relays
work on batches as in `PartnerHub.Relay`.
-/
namespace PartnerHub.Outbound

open PartnerHub.Domain PartnerHub.Lib PartnerHub.Lib.PartitionLog

/-- Where `process_outbound_message` stands once it has read the delivery: nothing is
committed, the transaction is committed and a record is still to be sent, or it is about to
return. -/
inductive Phase where
  | working (ctx : Context)
  | publishing (record : Message)
  | finishing

structure Hub where
  db : Db
  group : Group
  phases : Nat → Option Phase
  relays : Nat → Option Relay.Batch
  locks : Nat → Option Nat
  batches : Nat
  replays : Nat → Option (Delivery × Partner)

/-- No process runs and nothing was accepted; topics and offsets may be those of an older
group. -/
def Hub.init (g : GroupOffsets) : Hub where
  db := Db.empty
  group := Group.initial g
  phases := fun _ => none
  relays := fun _ => none
  locks := fun _ => none
  batches := 0
  replays := fun _ => none

/-- `send_and_wait` returns after the acknowledgement, or raises; then the record may
or may not have been stored. -/
inductive SendOutcome where
  | acked (partition : Nat)
  | raised (stored : Option Nat)
  deriving DecidableEq, Repr

inductive Action where
  | operation (op : Op)
  | relaySelect (r limit : Nat) (scan : List OutboxEvent)
  | relaySend (r : Nat) (outcome : SendOutcome) (sentAt : Time)
  | relayCommit (r : Nat)
  | relayCrash (r : Nat)
  | start (w : Nat)
  | worker (w : Nat) (a : WorkerAction)
  | read (w : Nat)
  | process (w : Nat) (input : ProcessInput)
  | publish (w : Nat) (outcome : SendOutcome)
  | readReplay (r : Nat) (deliveryId : Uuid)
  | commitReplay (r : Nat) (req : ReplayRequest)
  | abortReplay (r : Nat)

/-- The rows `unpublished_outbox_select` chooses from. -/
def Hub.selectable (h : Hub) : List OutboxEvent :=
  h.db.tables.outbox.filter fun o => o.publishedAt = none ∧ h.locks o.id = none

def Tables.relayed (t : Tables) (b : Relay.Batch) : Tables :=
  { t with outbox := t.outbox.map b.mark }

theorem Tables.Consistent.relayed {t : Tables} (h : t.Consistent) (b : Relay.Batch) :
    (t.relayed b).Consistent where
  __ := h
  outbox_id := by
    have hm : (t.outbox.map b.mark).map (·.id) = t.outbox.map (·.id) := by
      rw [List.map_map]
      exact List.map_congr_left fun o _ => Relay.mark_id b o
    exact hm ▸ h.outbox_id
  outbox_seq := by
    intro o ho
    obtain ⟨o₀, ho₀, rfl⟩ := List.mem_map.mp ho
    rw [Relay.mark_id]
    exact h.outbox_seq o₀ ho₀

/-- The UPDATE of a relay's commit. -/
def Db.commitRelay (db : Db) (b : Relay.Batch) : Db :=
  ⟨db.tables.relayed b, db.consistent.relayed b⟩

def Hub.setBatch (h : Hub) (r : Nat) (b : Option Relay.Batch) : Hub :=
  { h with relays := Function.update h.relays r b }

/-- A relay's transaction is over and its locks are released. -/
def Hub.endRelay (h : Hub) (r : Nat) : Hub :=
  { h.setBatch r none with locks := fun i => if h.locks i = some r then none else h.locks i }

/-- The rows are selected and locked. -/
def Hub.selected (h : Hub) (r : Nat) (rows : List OutboxEvent) : Hub :=
  { h.setBatch r (some ⟨h.batches, rows, [], []⟩) with
    locks := fun i => if i ∈ rows.map (·.id) then some r else h.locks i
    batches := h.batches + 1 }

/-- One send of a relay's loop: an acknowledged row is marked in the session, a send
that raised is counted. -/
def Hub.relaySend (h : Hub) (r : Nat) (b : Relay.Batch) (o : OutboxEvent)
    (rest : List OutboxEvent) (sentAt : Time) : SendOutcome → Hub
  | .acked p =>
    { h.setBatch r (some { b with pending := rest, published := b.published ++ [(o, sentAt)] }) with
      group := { h.group with log := append h.group.log ⟨o.topic, p⟩ o.message } }
  | .raised stored =>
    { h.setBatch r (some { b with pending := rest, failed := b.failed ++ [o] }) with
      group := { h.group with
        log := appendIf h.group.log (stored.map fun p => ⟨o.topic, p⟩) o.message } }

/-- A relay's `session.commit`; a counter that no longer fits its column fails the flush. -/
def Hub.relayCommit (h : Hub) (r : Nat) (b : Relay.Batch) : Hub :=
  if ∀ o ∈ h.db.tables.outbox, (b.mark o).publishAttempts ≤ Relay.smallIntegerMax then
    { h.endRelay r with db := h.db.commitRelay b }
  else h.endRelay r

/-- The message worker `w` is inside `process_outbound_message` with. -/
def Hub.current (h : Hub) (w : Nat) : Option (TopicPartition × Nat) :=
  (h.group.workers w).bind Worker.current

/-- The delivery a message names. -/
def Hub.messageAt (h : Hub) (tp : TopicPartition) (offset : Nat) : Option Uuid :=
  (h.group.log tp)[offset]?.bind (·.value.deliveryId)

def Hub.setPhase (h : Hub) (w : Nat) (p : Option Phase) : Hub :=
  { h with phases := Function.update h.phases w p }

/-- An exception ends the worker; its message is not committed. -/
def Hub.endWorker (h : Hub) (w : Nat) : Hub :=
  { h.setPhase w none with group := h.group.setWorker w none }

/-- What is left of `process_outbound_message` after the database commit. -/
def afterCommit : Option Message → Phase
  | none => .finishing
  | some record => .publishing record

/-- `process_outbound_message` from the read row to the database commit. -/
def Hub.processRead (settings : Settings) (h : Hub) (w : Nat) (ctx : Context)
    (input : ProcessInput) : Hub :=
  match processDelivery settings ctx input with
  | .error _ => h.endWorker w
  | .ok .skip => h.setPhase w (some .finishing)
  | .ok (.commit s record _) =>
    match h.db.commit s with
    | .error _ => h.endWorker w
    | .ok db' => { h.setPhase w (some (afterCommit record)) with db := db' }

/-- The send after a worker's commit. -/
def Hub.publishRecord (h : Hub) (w : Nat) (record : Message) : SendOutcome → Hub
  | .acked p => { h.setPhase w (some .finishing) with
      group := { h.group with log := append h.group.log ⟨record.topic, p⟩ record } }
  | .raised stored => Hub.endWorker { h with
      group := { h.group with
        log := appendIf h.group.log (stored.map fun p => ⟨record.topic, p⟩) record } } w

/-- `process_outbound_message` returns only from its end. -/
def Phase.allows : Option Phase → WorkerAction → Bool
  | some .finishing, .returned => true
  | _, .returned => false
  | _, _ => true

/-- The call is over when it returns or the worker ends by an exception. -/
def Phase.after (phase : Option Phase) : WorkerAction → Option Phase
  | .returned => none
  | .raised => none
  | _ => phase

def Hub.workerStep (h : Hub) (w : Nat) (a : WorkerAction) : Option Hub :=
  if Phase.allows (h.phases w) a then
    (h.group.step (.worker w a)).map fun g =>
      { h.setPhase w (Phase.after (h.phases w) a) with group := g }
  else none

def Hub.step (settings : Settings) (h : Hub) : Action → Option Hub
  | .operation op => if op.isAtomic then some { h with db := h.db.apply settings op } else none
  | .relaySelect r limit scan =>
    if h.relays r = none ∧ scan.Perm h.selectable then
      some (h.selected r (Relay.unpublishedOutboxSelect limit scan))
    else none
  | .relaySend r outcome sentAt =>
    match h.relays r with
    | none => none
    | some b =>
      match b.pending with
      | [] => none
      | o :: rest => some (h.relaySend r b o rest sentAt outcome)
  | .relayCommit r =>
    match h.relays r with
    | none => none
    | some b =>
      match b.pending with
      | [] => some (h.relayCommit r b)
      | _ :: _ => none
  | .relayCrash r => (h.relays r).map fun _ => h.endRelay r
  | .start w => (h.group.step (.start w)).map fun g => { h with group := g }
  | .worker w a => h.workerStep w a
  | .read w =>
    match h.current w, h.phases w with
    | some (tp, offset), none =>
      match h.messageAt tp offset with
      | none => none
      | some i =>
        match h.db.tables.fetchDeliveryContext i with
        | none => some (h.setPhase w (some .finishing))
        | some ctx => some (h.setPhase w (some (.working ctx)))
    | _, _ => none
  | .process w input =>
    match h.phases w with
    | some (.working ctx) => some (h.processRead settings w ctx input)
    | _ => none
  | .publish w outcome =>
    match h.phases w with
    | some (.publishing record) => some (h.publishRecord w record outcome)
    | _ => none
  | .readReplay r i =>
    match h.replays r, h.db.tables.fetchDeliveryWithPartner i with
    | none, some row => some { h with replays := Function.update h.replays r (some row) }
    | _, _ => none
  | .commitReplay r req =>
    match h.replays r with
    | none => none
    | some row => some { h with
        db := h.db.afterReplay row req
        replays := Function.update h.replays r none }
  | .abortReplay r => (h.replays r).map fun _ =>
      { h with replays := Function.update h.replays r none }

/-- Everything one step of the pipeline can do. -/
inductive HubStep (settings : Settings) (h : Hub) : Action → Hub → Prop
  | atomic {op : Op} {db' : Db} {rows : List Delivery} {events : List OutboxEvent}
      (ha : Adds h.db.tables db'.tables rows events) :
      HubStep settings h (.operation op) { h with db := db' }
  | select {r limit : Nat} {scan rows : List OutboxEvent} (hnone : h.relays r = none)
      (hrows : ∀ o ∈ rows, o ∈ h.db.tables.outbox) :
      HubStep settings h (.relaySelect r limit scan) (h.selected r rows)
  | send {r : Nat} {b : Relay.Batch} {o : OutboxEvent} {rest : List OutboxEvent}
      {outcome : SendOutcome} {sentAt : Time} (hr : h.relays r = some b)
      (hp : b.pending = o :: rest) :
      HubStep settings h (.relaySend r outcome sentAt) (h.relaySend r b o rest sentAt outcome)
  | relayCommit {r : Nat} {b : Relay.Batch} (hr : h.relays r = some b) :
      HubStep settings h (.relayCommit r) { h.endRelay r with db := h.db.commitRelay b }
  | relayFailed {r : Nat} {b : Relay.Batch} (hr : h.relays r = some b) :
      HubStep settings h (.relayCommit r) (h.endRelay r)
  | relayCrash {r : Nat} {b : Relay.Batch} (hr : h.relays r = some b) :
      HubStep settings h (.relayCrash r) (h.endRelay r)
  | start {w : Nat} (hw : h.group.workers w = none) :
      HubStep settings h (.start w) { h with group := h.group.setWorker w (some .started) }
  | worker {w : Nat} {a : WorkerAction} {x : Worker} {x' : Option Worker} {g : Group}
      (hx : h.group.workers w = some x) (ha : Phase.allows (h.phases w) a = true)
      (hs : h.group.workerStep w x a = some g) (hm : x.Moves a x')
      (hg : g.workers = Function.update h.group.workers w x') :
      HubStep settings h (.worker w a)
        { h.setPhase w (Phase.after (h.phases w) a) with group := g }
  | missing {w offset : Nat} {tp : TopicPartition} {i : Uuid} (hp : h.phases w = none)
      (hc : h.current w = some (tp, offset)) (hm : h.messageAt tp offset = some i)
      (hctx : h.db.tables.fetchDeliveryContext i = none) :
      HubStep settings h (.read w) (h.setPhase w (some .finishing))
  | found {w offset : Nat} {tp : TopicPartition} {i : Uuid} {ctx : Context}
      (hp : h.phases w = none) (hc : h.current w = some (tp, offset)) (hm : h.messageAt tp offset = some i)
      (hctx : h.db.tables.fetchDeliveryContext i = some ctx) :
      HubStep settings h (.read w) (h.setPhase w (some (.working ctx)))
  | skip {w : Nat} {ctx : Context} {input : ProcessInput}
      (hh : h.phases w = some (.working ctx)) (hc : ¬ ctx.delivery.status.Open) :
      HubStep settings h (.process w input) (h.setPhase w (some .finishing))
  | commit {w : Nat} {ctx : Context} {input : ProcessInput} {s : Session}
      {record : Option Message} {out : ProcessOutcome} {db' : Db}
      (hh : h.phases w = some (.working ctx))
      (hv : processDelivery settings ctx input = .ok (.commit s record out))
      (hc : h.db.commit s = .ok db') :
      HubStep settings h (.process w input)
        { h.setPhase w (some (afterCommit record)) with db := db' }
  | failed {w : Nat} {ctx : Context} {input : ProcessInput}
      (hh : h.phases w = some (.working ctx)) :
      HubStep settings h (.process w input) (h.endWorker w)
  | publish {w : Nat} {record : Message} {outcome : SendOutcome}
      (hh : h.phases w = some (.publishing record)) :
      HubStep settings h (.publish w outcome) (h.publishRecord w record outcome)
  | readReplay {r : Nat} {i : Uuid} {row : Delivery × Partner}
      (hrow : h.db.tables.fetchDeliveryWithPartner i = some row) :
      HubStep settings h (.readReplay r i)
        { h with replays := Function.update h.replays r (some row) }
  | replay {r : Nat} {req : ReplayRequest} {row : Delivery × Partner} {s : ReplaySession}
      (hr : h.replays r = some row) (hs : Replays row.1 req s) :
      HubStep settings h (.commitReplay r req)
        { h with db := h.db.commitReplay s, replays := Function.update h.replays r none }
  | replayRefused {r : Nat} {req : ReplayRequest} :
      HubStep settings h (.commitReplay r req)
        { h with replays := Function.update h.replays r none }
  | abortReplay {r : Nat} :
      HubStep settings h (.abortReplay r) { h with replays := Function.update h.replays r none }

theorem mem_unpublishedOutboxSelect {h : Hub} {limit : Nat} {scan : List OutboxEvent}
    (hs : scan.Perm h.selectable) {o : OutboxEvent}
    (ho : o ∈ Relay.unpublishedOutboxSelect limit scan) : o ∈ h.db.tables.outbox := by
  have hscan := List.mem_of_mem_take ho
  rw [List.mem_insertionSort] at hscan
  exact (List.mem_filter.mp (hs.mem_iff.mp hscan)).1

theorem processRead_step {settings : Settings} {h : Hub} {w : Nat} {ctx : Context}
    {input : ProcessInput} (hh : h.phases w = some (.working ctx)) :
    HubStep settings h (.process w input) (h.processRead settings w ctx input) := by
  unfold Hub.processRead
  split
  · exact .failed hh
  · rename_i hv
    exact .skip hh (process_skip hv)
  · rename_i s record out hv
    split
    · exact .failed hh
    · rename_i db' hc
      exact .commit hh hv hc

theorem workerStep_step {settings : Settings} {h h' : Hub} {w : Nat} {a : WorkerAction}
    (hs : h.workerStep w a = some h') : HubStep settings h (.worker w a) h' := by
  unfold Hub.workerStep at hs
  split at hs
  · rename_i ha
    obtain ⟨g, hg, rfl⟩ := Option.map_eq_some_iff.mp hs
    obtain ⟨x, hx, hw⟩ := Option.bind_eq_some_iff.mp hg
    obtain ⟨x', hm, hworkers⟩ := workerStep_moves hw
    exact .worker hx ha hw hm hworkers
  · cases hs

theorem hubStep_of_step {settings : Settings} {h h' : Hub} {a : Action}
    (hs : h.step settings a = some h') : HubStep settings h a h' := by
  cases a with
  | operation op =>
    simp only [Hub.step] at hs
    split at hs
    · rename_i hop
      cases hs
      obtain ⟨rows, events, ha⟩ := atomic_adds settings h.db hop
      exact .atomic ha
    · cases hs
  | relaySelect r limit scan =>
    simp only [Hub.step] at hs
    split at hs
    · rename_i hg
      cases hs
      exact .select hg.1 fun o ho => mem_unpublishedOutboxSelect hg.2 ho
    · cases hs
  | relaySend r outcome sentAt =>
    simp only [Hub.step] at hs
    split at hs
    · cases hs
    · rename_i b hr
      split at hs
      · cases hs
      · rename_i o rest hp
        cases hs
        exact .send hr hp
  | relayCommit r =>
    simp only [Hub.step] at hs
    split at hs
    · cases hs
    · rename_i b hr
      split at hs
      · cases hs
        unfold Hub.relayCommit
        split
        · exact .relayCommit hr
        · exact .relayFailed hr
      · cases hs
  | relayCrash r =>
    obtain ⟨b, hr, rfl⟩ := Option.map_eq_some_iff.mp hs
    exact .relayCrash hr
  | start w =>
    obtain ⟨g, hg, rfl⟩ := Option.map_eq_some_iff.mp hs
    simp only [Group.step] at hg
    split at hg
    · rename_i hnone
      cases hg
      exact .start (Option.isNone_iff_eq_none.mp hnone)
    · cases hg
  | worker w a => exact workerStep_step hs
  | read w =>
    simp only [Hub.step] at hs
    split at hs
    · rename_i tp offset hc hp
      split at hs
      · cases hs
      · rename_i i hm
        split at hs
        · rename_i hctx
          cases hs
          exact .missing hp hc hm hctx
        · rename_i ctx hctx
          cases hs
          exact .found hp hc hm hctx
    · cases hs
  | process w input =>
    simp only [Hub.step] at hs
    split at hs
    · rename_i ctx hh
      cases hs
      exact processRead_step hh
    · cases hs
  | publish w outcome =>
    simp only [Hub.step] at hs
    split at hs
    · rename_i record hh
      cases hs
      exact .publish hh
    · cases hs
  | readReplay r i =>
    simp only [Hub.step] at hs
    split at hs
    · rename_i row hn hrow
      cases hs
      exact .readReplay hrow
    · cases hs
  | commitReplay r req =>
    simp only [Hub.step] at hs
    split at hs
    · cases hs
    · rename_i row hr
      cases hs
      rcases afterReplay_cases h.db row req with he | ⟨s, hrep, he⟩
      · rw [he]
        exact .replayRefused
      · rw [he]
        exact .replay hr hrep
  | abortReplay r =>
    obtain ⟨row, -, rfl⟩ := Option.map_eq_some_iff.mp hs
    exact .abortReplay

end PartnerHub.Outbound
