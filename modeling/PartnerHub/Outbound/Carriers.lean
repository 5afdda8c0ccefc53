import PartnerHub.Outbound.Pipeline
import PartnerHub.Outbound.Verdicts

/-!
# Open deliveries and their carriers

An open delivery is not stuck while it has a carrier: an unpublished outbox row, or a
message that the group has not committed past. Two steps take the last carrier away: the
commit of an execution that defers a delivery which was closed after the execution had read
it, and the start of a worker behind messages nobody has processed. The invariant for runs
without such steps speaks of carriers that are not spent: a row no live relay has had
acknowledged, a message nobody has processed or is done with.
-/
namespace PartnerHub.Outbound

open PartnerHub.Domain PartnerHub.Lib PartnerHub.Lib.PartitionLog PartnerHub.Lib.Slots
  PartnerHub.Lib.System

/-- A committed outbox row that is not published, or a message on a consumed topic whose
offset the group has not committed past, names the delivery. -/
def HasCarrier (h : Hub) (i : Uuid) : Prop :=
  (∃ o ∈ h.db.tables.outbox, o.publishedAt = none ∧ o.payload.deliveryId = some i) ∨
  ∃ tp offset, tp.topic.consumed = true ∧ (∀ c, h.group.committed tp = some c → c ≤ offset) ∧
    h.messageAt tp offset = some i

def NoneStuck (h : Hub) : Prop :=
  ∀ d ∈ h.db.tables.deliveries, d.status.Open → HasCarrier h d.publicId

/-- The copy an execution works on. -/
def Hub.copy (h : Hub) (w : Nat) : Option Context :=
  match h.phases w with
  | some (.working ctx) => some ctx
  | _ => none

/-- The condition on a step: an execution that is about to set RETRYING finds its delivery
still open, and a worker that is given a partition without a committed offset leaves no
unprocessed message behind. -/
def KeepsCarriers (h : Hub) : Action → Prop
  | .process w input => ∀ ctx ∈ h.copy w, ctx.delivery.status.Open → Defers ctx input →
      ∃ d ∈ h.db.tables.deliveries, d.id = ctx.delivery.id ∧ d.status.Open
  | .worker w a => AssignsBehind h.group (.worker w a)
  | _ => True

instance (h : Hub) : ∀ a, Decidable (KeepsCarriers h a)
  | .process w input => inferInstanceAs (Decidable (∀ ctx ∈ h.copy w, ctx.delivery.status.Open →
      Defers ctx input → ∃ d ∈ h.db.tables.deliveries, d.id = ctx.delivery.id ∧ d.status.Open))
  | .worker w a => inferInstanceAs (Decidable (AssignsBehind h.group (.worker w a)))
  | .operation _ | .relaySelect _ _ _ | .relaySend _ _ _ | .relayCommit _ | .relayCrash _ | .start _
  | .read _ | .publish _ _ | .readReplay _ _ | .commitReplay _ _ | .abortReplay _ => .isTrue trivial

/-- What no step of the pipeline takes away: stored messages, delivery keys and outbox
rows, apart from their publication. -/
structure Grows (h h' : Hub) : Prop where
  message : ∀ tp offset i, h.messageAt tp offset = some i → h'.messageAt tp offset = some i
  delivery : ∀ n i, (∃ d ∈ h.db.tables.deliveries, d.id = n ∧ d.publicId = i) →
    ∃ d ∈ h'.db.tables.deliveries, d.id = n ∧ d.publicId = i
  outbox : ∀ n m, (∃ o ∈ h.db.tables.outbox, o.id = n ∧ o.message = m) →
    ∃ o ∈ h'.db.tables.outbox, o.id = n ∧ o.message = m

theorem messageAt_appendIf {log : TopicPartition → List Message} {k : Option TopicPartition}
    {m : Message} {tp : TopicPartition} {offset : Nat} {i : Uuid}
    (h : (log tp)[offset]?.bind (·.value.deliveryId) = some i) :
    (appendIf log k m tp)[offset]?.bind (·.value.deliveryId) = some i := by
  obtain ⟨m', hm', hi⟩ := Option.bind_eq_some_iff.mp h
  exact Option.bind_eq_some_iff.mpr ⟨m', getElem_appendIf hm', hi⟩

theorem grows_of_db {h h' : Hub} (hlog : h'.group.log = h.group.log)
    (hd : ∀ n i, (∃ d ∈ h.db.tables.deliveries, d.id = n ∧ d.publicId = i) →
      ∃ d ∈ h'.db.tables.deliveries, d.id = n ∧ d.publicId = i)
    (ho : ∀ n m, (∃ o ∈ h.db.tables.outbox, o.id = n ∧ o.message = m) →
      ∃ o ∈ h'.db.tables.outbox, o.id = n ∧ o.message = m) : Grows h h' where
  message := by
    intro tp offset i hm
    rw [Hub.messageAt, hlog]
    exact hm
  delivery := hd
  outbox := ho

theorem grows_of_log {h h' : Hub} {k : Option TopicPartition} {m : Message}
    (hlog : h'.group.log = appendIf h.group.log k m) (hdb : h'.db = h.db) : Grows h h' where
  message := by
    intro tp offset i hm
    rw [Hub.messageAt, hlog]
    exact messageAt_appendIf hm
  delivery := by
    rw [hdb]
    exact fun _ _ hx => hx
  outbox := by
    rw [hdb]
    exact fun _ _ hx => hx

theorem keys_flush {t : Tables} {loaded mine : Delivery} {n : Nat} {i : Uuid}
    (h : ∃ d ∈ t.deliveries, d.id = n ∧ d.publicId = i) :
    ∃ d ∈ (t.flush loaded mine).deliveries, d.id = n ∧ d.publicId = i := by
  obtain ⟨d, hd, rfl, rfl⟩ := h
  refine ⟨_, mem_flush.mpr ⟨d, hd, rfl⟩, ?_⟩
  split <;> exact ⟨rfl, rfl⟩

theorem grows_step {settings : Settings} {h h' : Hub} {a : Action}
    (hs : HubStep settings h a h') : Grows h h' := by
  have hsame : ∀ {h' : Hub}, h'.group.log = h.group.log → h'.db = h.db → Grows h h' :=
    fun hlog hdb => grows_of_db hlog (fun _ _ hx => hdb ▸ hx) fun _ _ hx => hdb ▸ hx
  cases hs with
  | atomic ha =>
    refine grows_of_db rfl ?_ ?_
    · rintro n i ⟨d, hd, hk⟩
      exact ⟨d, ha.deliveries ▸ List.mem_append_left _ hd, hk⟩
    · rintro n m ⟨o, ho, hk⟩
      exact ⟨o, ha.outbox ▸ List.mem_append_left _ ho, hk⟩
  | send hr hp =>
    rename_i outcome sentAt
    cases outcome with
    | acked p => exact grows_of_log (k := some _) rfl rfl
    | raised stored => exact grows_of_log rfl rfl
  | relayCommit hr =>
    refine grows_of_db rfl (fun _ _ hx => hx) ?_
    rintro n m ⟨o, ho, rfl, rfl⟩
    exact ⟨_, List.mem_map.mpr ⟨o, ho, rfl⟩, Relay.mark_id _ _, Relay.mark_message _ _⟩
  | commit hh hv hc =>
    refine grows_of_db rfl ?_ ?_
    · intro n i hx
      rw [processed_tables hc]
      exact keys_flush hx
    · intro n m hx
      rw [processed_tables hc]
      exact hx
  | publish hh =>
    rename_i outcome
    cases outcome with
    | acked p => exact grows_of_log (k := some _) rfl rfl
    | raised stored => exact grows_of_log rfl rfl
  | replay hr hrep =>
    refine grows_of_db rfl (fun _ _ hx => keys_flush hx) ?_
    rintro n m ⟨o, ho, hk⟩
    exact ⟨o, List.mem_append_left _ ho, hk⟩
  | worker hx ha hs hm hg => exact hsame (workerStep_frame hs).log rfl
  | select | relayFailed | relayCrash | start | missing | found | skip | failed | readReplay
  | replayRefused | abortReplay => exact hsame rfl rfl

/-- What the execution knows of the message it was called with. -/
def PhaseFits (h : Hub) (tp : TopicPartition) (offset : Nat) : Phase → Prop
  | .working ctx => h.messageAt tp offset = some ctx.delivery.publicId ∧
      ∃ d ∈ h.db.tables.deliveries, d.id = ctx.delivery.id ∧ d.publicId = ctx.delivery.publicId
  | .publishing record => record.topic.consumed = true →
      ∃ i, h.messageAt tp offset = some i ∧ record.value.deliveryId = some i
  | .finishing => True

theorem PhaseFits.mono {h h' : Hub} (hg : Grows h h') {tp : TopicPartition} {offset : Nat}
    {phase : Phase} (hp : PhaseFits h tp offset phase) : PhaseFits h' tp offset phase := by
  cases phase with
  | finishing => trivial
  | working ctx => exact ⟨hg.message _ _ _ hp.1, hg.delivery _ _ hp.2⟩
  | publishing record =>
    intro hc
    obtain ⟨i, hm, hi⟩ := hp hc
    exact ⟨i, hg.message _ _ _ hm, hi⟩

structure RelayFits (h : Hub) (b : Relay.Batch) : Prop where
  pending : ∀ o ∈ b.pending, ∃ o' ∈ h.db.tables.outbox, o'.id = o.id ∧ o'.message = o.message
  published : ∀ p ∈ b.published, ∃ o ∈ h.db.tables.outbox, o.id = p.1.id

/-- The bookkeeping of every reachable state: an execution belongs to a worker inside
`process_outbound_message`. -/
structure WellFormed (h : Hub) : Prop where
  phase : ∀ w p, h.phases w = some p →
    ∃ tp offset, h.current w = some (tp, offset) ∧ PhaseFits h tp offset p
  relay : ∀ r b, h.relays r = some b → RelayFits h b
  replay : ∀ r row, h.replays r = some row →
    ∃ d ∈ h.db.tables.deliveries, d.id = row.1.id ∧ d.publicId = row.1.publicId

theorem wellFormed_init (g : GroupOffsets) : WellFormed (Hub.init g) := by
  constructor <;> simp [Hub.init]

theorem RelayFits.mono {h h' : Hub} (hg : Grows h h') {b : Relay.Batch} (hr : RelayFits h b) :
    RelayFits h' b := by
  refine ⟨fun o ho => hg.outbox _ _ (hr.pending o ho), ?_⟩
  intro p hp
  obtain ⟨o, ho, hid⟩ := hr.published p hp
  obtain ⟨o', ho', hid', -⟩ := hg.outbox o.id o.message ⟨o, ho, rfl, rfl⟩
  exact ⟨o', ho', hid'.trans hid⟩

/-- A step keeps the bookkeeping when every party it touches fits. -/
theorem wellFormed_of {h h' : Hub} (hw : WellFormed h) (hg : Grows h h')
    (hh : ∀ w p, h'.phases w = some p → (h.phases w = some p ∧ h'.current w = h.current w) ∨
      ∃ tp offset, h'.current w = some (tp, offset) ∧ PhaseFits h' tp offset p)
    (hr : ∀ r b, h'.relays r = some b → h.relays r = some b ∨ RelayFits h' b)
    (hp : ∀ r row, h'.replays r = some row → h.replays r = some row ∨
      ∃ d ∈ h'.db.tables.deliveries, d.id = row.1.id ∧ d.publicId = row.1.publicId) :
    WellFormed h' where
  phase := by
    intro w p hx
    rcases hh w p hx with ⟨hold, hsame⟩ | hnew
    · obtain ⟨tp, offset, hc, hf⟩ := hw.phase w p hold
      exact ⟨tp, offset, hsame.trans hc, hf.mono hg⟩
    · exact hnew
  relay := by
    intro r b hx
    rcases hr r b hx with hold | hnew
    · exact (hw.relay r b hold).mono hg
    · exact hnew
  replay := by
    intro r row hx
    rcases hp r row hx with hold | hnew
    · exact hg.delivery _ _ (hw.replay r row hold)
    · exact hnew

/-- The bookkeeping after a step of one execution; the other workers stay. -/
theorem wellFormed_phase {h h' : Hub} {w : Nat} {x : Option Phase} (hw : WellFormed h)
    (hg : Grows h h') (hh : h'.phases = Function.update h.phases w x)
    (hc : ∀ v, v ≠ w → h'.current v = h.current v) (hr : h'.relays = h.relays)
    (hp : h'.replays = h.replays)
    (hx : ∀ p, x = some p → ∃ tp offset, h'.current w = some (tp, offset) ∧
      PhaseFits h' tp offset p) : WellFormed h' := by
  refine wellFormed_of hw hg ?_ (fun r b hx => .inl (hr ▸ hx)) fun r row hx => .inl (hp ▸ hx)
  intro v p hy
  rw [hh] at hy
  rcases update_some_cases hy with ⟨rfl, hsome⟩ | ⟨hne, hold⟩
  · exact .inr (hx p hsome)
  · exact .inl ⟨hold, hc v hne⟩

/-- The bookkeeping after a step of one relay. -/
theorem wellFormed_relay {h h' : Hub} {r : Nat} {x : Option Relay.Batch} (hw : WellFormed h)
    (hg : Grows h h') (hh : h'.phases = h.phases) (hc : h'.group.workers = h.group.workers)
    (hr : h'.relays = Function.update h.relays r x) (hp : h'.replays = h.replays)
    (hx : ∀ b, x = some b → RelayFits h' b) : WellFormed h' := by
  refine wellFormed_of hw hg ?_ ?_ fun r row hx => .inl (hp ▸ hx)
  · intro w p hx
    exact .inl ⟨hh ▸ hx, by rw [Hub.current, hc]; rfl⟩
  · intro r' b hb
    rw [hr] at hb
    rcases update_some_cases hb with ⟨-, hsome⟩ | ⟨-, hold⟩
    · exact .inr (hx b hsome)
    · exact .inl hold

/-- The bookkeeping after a step of one replay. -/
theorem wellFormed_replay {h h' : Hub} {r : Nat} {x : Option (Delivery × Partner)}
    (hw : WellFormed h) (hg : Grows h h') (hh : h'.phases = h.phases)
    (hc : h'.group.workers = h.group.workers) (hr : h'.relays = h.relays)
    (hp : h'.replays = Function.update h.replays r x)
    (hx : ∀ row, x = some row →
      ∃ d ∈ h'.db.tables.deliveries, d.id = row.1.id ∧ d.publicId = row.1.publicId) :
    WellFormed h' := by
  refine wellFormed_of hw hg ?_ (fun r y hy => .inl (hr ▸ hy)) ?_
  · intro w p hx
    exact .inl ⟨hh ▸ hx, by rw [Hub.current, hc]; rfl⟩
  · intro r' row hrow
    rw [hp] at hrow
    rcases update_some_cases hrow with ⟨-, hsome⟩ | ⟨-, hold⟩
    · exact .inr (hx row hsome)
    · exact .inl hold

theorem current_update {h : Hub} {w v : Nat} {x : Option Worker} (hne : v ≠ w) :
    (Function.update h.group.workers w x v).bind Worker.current = h.current v := by
  rw [Function.update_of_ne hne]
  rfl

theorem current_processing {x : Worker} {tp : TopicPartition} {offset : Nat}
    (h : x.current = some (tp, offset)) :
    x.control = .handling .processing ∧
      ∃ offsets rest, x.batch = (tp, offset :: offsets) :: rest := by
  unfold Worker.current at h
  split at h
  · rename_i hc hb
    cases h
    exact ⟨hc, _, _, hb⟩
  · cases h

/-- While a call is under way its worker does nothing else: the step is a rebalance or a
signal, or it ends the call. -/
theorem call_under_way {x : Worker} {a : WorkerAction} {y : Option Worker} (hm : x.Moves a y)
    {tp : TopicPartition} {offset : Nat} (hc : x.current = some (tp, offset)) :
    (∃ x', y = some x' ∧ x'.current = x.current ∧ a.own = false) ∨ a = .returned ∨
      a = .raised := by
  have hp := (current_processing hc).1
  cases hm with
  | other x' ho hcontrol hbatch hs =>
    refine .inl ⟨x', rfl, ?_, ho⟩
    rw [Worker.current, Worker.current, hcontrol, hbatch]
  | raised => exact .inr (.inr rfl)
  | returned => exact .inr (.inl rfl)
  | leaves h | failed h | polls h | fetched h | next h | waited h | stopped h | committed h =>
    cases hp.symm.trans h

/-- A call that goes on in a worker's step goes on with its message. -/
theorem current_kept {h : Hub} {w : Nat} {a : WorkerAction} {x : Worker} {x' : Option Worker}
    {g : Group} (hw : WellFormed h) (hx : h.group.workers w = some x) (hm : x.Moves a x')
    (hg : g.workers = Function.update h.group.workers w x') {p : Phase}
    (hp : Phase.after (h.phases w) a = some p) :
    h.phases w = some p ∧ (g.workers w).bind Worker.current = h.current w := by
  have hphase : h.phases w = some p ∧ a ≠ .returned ∧ a ≠ .raised := by
    cases a <;> simp [Phase.after] at hp <;> simp [hp]
  obtain ⟨hold, hret, hraised⟩ := hphase
  obtain ⟨tp, offset, hc, -⟩ := hw.phase w p hold
  have hcur : h.current w = x.current := by rw [Hub.current, hx]; rfl
  rcases call_under_way hm (hcur.symm.trans hc) with ⟨y, rfl, hy, -⟩ | rfl | rfl
  · refine ⟨hold, ?_⟩
    rw [hg, Function.update_self, hcur]
    exact hy
  · exact absurd rfl hret
  · exact absurd rfl hraised

/-- After the commit, a record for a consumed topic names the delivery the message
names. -/
theorem afterCommit_fits {h : Hub} {tp : TopicPartition} {offset : Nat} {ctx : Context}
    {input : ProcessInput} {s : Session} {record : Option Message}
    (hdec : Decided ctx input s record)
    (hm : h.messageAt tp offset = some ctx.delivery.publicId) :
    PhaseFits h tp offset (afterCommit record) := by
  have hpub := hdec.id_eq.2
  cases hdec with
  | missingSecret hsecret hd | poison hn hc hd | exhausted hn hc hge hd =>
    intro hcons
    cases hcons
  | circuitOpen hd | retry hn hc hlt hd =>
    intro _
    exact ⟨_, hm, by rw [← hpub]; rfl⟩
  | success hn hc hat hf hd =>
    split
    · intro hcons
      cases hcons
    · trivial

theorem wellFormed_step {settings : Settings} {h h' : Hub} {a : Action} (hw : WellFormed h)
    (hs : HubStep settings h a h') : WellFormed h' := by
  have hg := grows_step hs
  cases hs with
  | atomic ha =>
    exact wellFormed_of hw hg (fun _ _ hx => .inl ⟨hx, rfl⟩) (fun _ _ => .inl) fun _ _ => .inl
  | select hnone hrows =>
    refine wellFormed_relay hw hg rfl rfl rfl rfl ?_
    rintro b ⟨⟩
    exact ⟨fun o ho => ⟨o, hrows o ho, rfl, rfl⟩, by simp⟩
  | send hr hp =>
    rename_i r b o rest outcome sentAt
    have hfit := hw.relay r b hr
    obtain ⟨o', ho', hid, -⟩ := hfit.pending o (hp ▸ List.mem_cons_self)
    have hrest : ∀ x ∈ rest, ∃ o' ∈ h.db.tables.outbox, o'.id = x.id ∧ o'.message = x.message :=
      fun x hx => hfit.pending x (hp ▸ List.mem_cons_of_mem _ hx)
    cases outcome with
    | acked p =>
      refine wellFormed_relay hw hg rfl rfl rfl rfl ?_
      rintro y ⟨⟩
      refine ⟨hrest, ?_⟩
      intro p hp'
      rcases List.mem_append.mp hp' with hin | hnew
      · exact hfit.published p hin
      · rw [List.mem_singleton.mp hnew]
        exact ⟨o', ho', hid⟩
    | raised stored =>
      refine wellFormed_relay hw hg rfl rfl rfl rfl ?_
      rintro y ⟨⟩
      exact ⟨hrest, hfit.published⟩
  | relayCommit hr | relayFailed hr | relayCrash hr =>
    refine wellFormed_relay hw hg rfl rfl rfl rfl ?_
    rintro y ⟨⟩
  | @start w hnone =>
    refine wellFormed_of hw hg ?_ (fun _ _ => .inl) fun _ _ => .inl
    intro v p hp
    refine .inl ⟨hp, current_update ?_⟩
    rintro rfl
    obtain ⟨tp, offset, hc, -⟩ := hw.phase v p hp
    rw [Hub.current, hnone] at hc
    cases hc
  | @worker w a x x' g hx ha hs hm hworkers =>
    refine wellFormed_phase hw hg rfl ?_ rfl rfl ?_
    · intro v hne
      show (g.workers v).bind Worker.current = _
      rw [hworkers]
      exact current_update hne
    · intro p hp
      obtain ⟨hold, hcur⟩ := current_kept hw hx hm hworkers hp
      obtain ⟨tp, offset, hc, hf⟩ := hw.phase w p hold
      exact ⟨tp, offset, hcur.trans hc, hf.mono hg⟩
  | missing hp hc hm hctx =>
    refine wellFormed_phase hw hg rfl (fun _ _ => rfl) rfl rfl ?_
    rintro p ⟨⟩
    exact ⟨_, _, hc, trivial⟩
  | found hp hc hm hctx =>
    refine wellFormed_phase hw hg rfl (fun _ _ => rfl) rfl rfl ?_
    rintro p ⟨⟩
    obtain ⟨hmem, hi⟩ := fetchContext_some hctx
    exact ⟨_, _, hc, hm.trans (by rw [hi]), _, hmem, rfl, rfl⟩
  | skip hh hc =>
    refine wellFormed_phase hw hg rfl (fun _ _ => rfl) rfl rfl ?_
    rintro p ⟨⟩
    obtain ⟨tp, offset, hcur, -⟩ := hw.phase _ _ hh
    exact ⟨tp, offset, hcur, trivial⟩
  | commit hh hv hc =>
    refine wellFormed_phase hw hg rfl (fun _ _ => rfl) rfl rfl ?_
    rintro p ⟨⟩
    obtain ⟨tp, offset, hcur, hf⟩ := hw.phase _ _ hh
    exact ⟨tp, offset, hcur, afterCommit_fits (process_decided hv).2 (hg.message _ _ _ hf.1)⟩
  | failed hh =>
    refine wellFormed_phase hw hg rfl (fun _ hne => current_update hne) rfl rfl ?_
    rintro p ⟨⟩
  | @publish w record outcome hh =>
    obtain ⟨tp, offset, hcur, -⟩ := hw.phase _ _ hh
    cases outcome with
    | acked p =>
      refine wellFormed_phase hw hg rfl (fun _ _ => rfl) rfl rfl ?_
      rintro p ⟨⟩
      exact ⟨tp, offset, hcur, trivial⟩
    | raised stored =>
      refine wellFormed_phase hw hg rfl (fun _ hne => current_update (h := h) hne) rfl rfl ?_
      rintro p ⟨⟩
  | readReplay hrow =>
    refine wellFormed_replay hw hg rfl rfl rfl rfl ?_
    rintro row ⟨⟩
    exact ⟨_, (fetchWithPartner_some hrow).1, rfl, rfl⟩
  | replay | replayRefused | abortReplay =>
    refine wellFormed_replay hw hg rfl rfl rfl rfl ?_
    rintro row ⟨⟩

/-! ## What the group has processed -/

theorem tracked_appendIf {g : Group} (h : Tracked g) (k : Option TopicPartition) (m : Message) :
    Tracked { g with log := appendIf g.log k m } := by
  cases k with
  | none => exact h
  | some k => exact tracked_appended h k m

theorem Tracked.without {g : Group} (h : Tracked g) (w : Nat) : Tracked (g.setWorker w none) :=
  h.setWorker w fun _ hx => by cases hx

theorem tracked_hubStep {settings : Settings} {h h' : Hub} {a : Action} (ht : Tracked h.group)
    (hok : KeepsCarriers h a) (hs : HubStep settings h a h') : Tracked h'.group := by
  cases hs with
  | send hr hp =>
    rename_i outcome sentAt
    cases outcome with
    | acked p => exact tracked_appended ht _ _
    | raised stored => exact tracked_appendIf ht _ _
  | publish hh =>
    rename_i outcome
    cases outcome with
    | acked p => exact tracked_appended ht _ _
    | raised stored => exact (tracked_appendIf ht _ _).without _
  | start hw =>
    refine ht.setWorker _ ?_
    rintro _ ⟨⟩
    exact started_fits h.group
  | worker hx ha hs hm hg => exact tracked_workerStep ht hok hx hs
  | failed hh => exact ht.without _
  | atomic | select | relayCommit | relayFailed | relayCrash | missing | found | skip | commit
  | readReplay | replay | replayRefused | abortReplay => exact ht

/-- A call is made with a message that is in the log. -/
theorem current_stored {h : Hub} (ht : Tracked h.group) {w offset : Nat} {tp : TopicPartition}
    (hc : h.current w = some (tp, offset)) : offset < (h.group.log tp).length := by
  obtain ⟨x, hx, hcur⟩ := Option.bind_eq_some_iff.mp hc
  obtain ⟨hp, offsets, rest, hb⟩ := current_processing hcur
  obtain ⟨-, n, -, hl⟩ := (ht.fits w x hx).first (goes_of_control hp (by decide)) hb
  omega

/-- The execution will do nothing more for its delivery than return. -/
def Phase.Done : Phase → Prop
  | .working ctx => ¬ ctx.delivery.status.Open
  | .publishing record => record.topic.consumed = false
  | .finishing => True

/-- An unpublished row for a consumed topic that no live relay has had acknowledged. -/
structure RowCarries (h : Hub) (i : Uuid) (o : OutboxEvent) : Prop where
  mem : o ∈ h.db.tables.outbox
  unpublished : o.publishedAt = none
  consumed : o.topic.consumed = true
  names : o.payload.deliveryId = some i
  unsent : ∀ r b, h.relays r = some b → ∀ p ∈ b.published, p.1.id ≠ o.id

/-- A message that is not processed and that no execution is done with. -/
structure MessageCarries (h : Hub) (i : Uuid) (tp : TopicPartition) (offset : Nat) : Prop where
  consumed : tp.topic.consumed = true
  unprocessed : offset ∉ h.group.processed tp
  names : h.messageAt tp offset = some i
  unspent : ∀ w p, h.current w = some (tp, offset) → h.phases w = some p → ¬ p.Done

def Carried (h : Hub) (i : Uuid) : Prop :=
  (∃ o, RowCarries h i o) ∨ ∃ tp offset, MessageCarries h i tp offset

theorem Carried.hasCarrier {h : Hub} (ht : Tracked h.group) {i : Uuid} (hc : Carried h i) :
    HasCarrier h i := by
  rcases hc with ⟨o, ho⟩ | ⟨tp, offset, hm⟩
  · exact .inl ⟨o, ho.mem, ho.unpublished, ho.names⟩
  · refine .inr ⟨tp, offset, hm.consumed, ?_, hm.names⟩
    intro c hcom
    exact Nat.le_of_not_lt fun hlt => hm.unprocessed (ht.below tp c hcom offset hlt)

/-- Every open delivery has a carrier that is not spent. -/
def AllCarried (h : Hub) : Prop :=
  ∀ d ∈ h.db.tables.deliveries, d.status.Open → Carried h d.publicId

/-- A row carrier survives when its row does and no further publication is recorded. -/
theorem RowCarries.keep {h h' : Hub} {i : Uuid} {o : OutboxEvent} (hc : RowCarries h i o)
    (hmem : o ∈ h'.db.tables.outbox)
    (hr : ∀ r b, h'.relays r = some b → ∀ p ∈ b.published,
      ∃ r' b', h.relays r' = some b' ∧ p ∈ b'.published) : RowCarries h' i o where
  mem := hmem
  unpublished := hc.unpublished
  consumed := hc.consumed
  names := hc.names
  unsent := by
    intro r b hx p hp
    obtain ⟨r', b', hx', hp'⟩ := hr r b hx p hp
    exact hc.unsent r' b' hx' p hp'

/-- No execution has become done with a message that names this delivery. -/
def NoneDone (h h' : Hub) (i : Uuid) : Prop :=
  ∀ w p tp offset, h.messageAt tp offset = some i → h'.current w = some (tp, offset) →
    h'.phases w = some p → p.Done →
      h.current w = some (tp, offset) ∧ ∃ q, h.phases w = some q ∧ q.Done

theorem noneDone_of_same {h h' : Hub} (hc : ∀ w, h'.current w = h.current w)
    (hp : h'.phases = h.phases) (i : Uuid) : NoneDone h h' i := by
  intro w p tp offset _ hcur hph hd
  exact ⟨hc w ▸ hcur, p, hp ▸ hph, hd⟩

/-- When one execution moves on, only its own message has to be looked at. -/
theorem noneDone_phase {h h' : Hub} {w : Nat} {x : Option Phase} {i : Uuid}
    (hh : h'.phases = Function.update h.phases w x)
    (hc : ∀ v, v ≠ w → h'.current v = h.current v)
    (hx : ∀ p tp offset, x = some p → p.Done → h'.current w = some (tp, offset) →
      h.messageAt tp offset = some i →
      h.current w = some (tp, offset) ∧ ∃ q, h.phases w = some q ∧ q.Done) : NoneDone h h' i := by
  intro v p tp offset hm hcur hph hd
  rw [hh] at hph
  rcases update_some_cases hph with ⟨rfl, hsome⟩ | ⟨hne, hold⟩
  · exact hx p tp offset hsome hd hcur hm
  · exact ⟨hc v hne ▸ hcur, p, hold, hd⟩

/-- A message carrier survives while nobody processes it and nobody becomes done with it. -/
theorem MessageCarries.keep {h h' : Hub} {i : Uuid} {tp : TopicPartition} {offset : Nat}
    (hc : MessageCarries h i tp offset) (hg : Grows h h')
    (hu : h'.group.processed tp = h.group.processed tp) (hn : NoneDone h h' i) :
    MessageCarries h' i tp offset where
  consumed := hc.consumed
  unprocessed := hu ▸ hc.unprocessed
  names := hg.message _ _ _ hc.names
  unspent := by
    intro w p hcur hph hd
    obtain ⟨hold, q, hq, hqd⟩ := hn w p tp offset hc.names hcur hph hd
    exact hc.unspent w q hold hq hqd

/-- A carried delivery stays carried when outbox and processed messages stay. -/
theorem Carried.keep {h h' : Hub} {i : Uuid} (hc : Carried h i) (hg : Grows h h')
    (ho : ∀ o ∈ h.db.tables.outbox, o ∈ h'.db.tables.outbox)
    (hu : h'.group.processed = h.group.processed)
    (hr : ∀ r b, h'.relays r = some b → ∀ p ∈ b.published,
      ∃ r' b', h.relays r' = some b' ∧ p ∈ b'.published) (hn : NoneDone h h' i) : Carried h' i := by
  rcases hc with ⟨o, hrow⟩ | ⟨tp, offset, hm⟩
  · exact .inl ⟨o, hrow.keep (ho o hrow.mem) hr⟩
  · exact .inr ⟨tp, offset, hm.keep hg (by rw [hu]) hn⟩

/-- A record stored by a send is a carrier of the delivery it names. -/
theorem carried_of_append {h h' : Hub} (ht : Tracked h.group) {m : Message} {p : Nat} {i : Uuid}
    (htop : m.topic.consumed = true) (hi : m.value.deliveryId = some i)
    (hlog : h'.group.log = append h.group.log ⟨m.topic, p⟩ m)
    (hu : h'.group.processed = h.group.processed) (hc : ∀ w, h'.current w = h.current w) :
    Carried h' i := by
  refine .inr ⟨⟨m.topic, p⟩, (h.group.log ⟨m.topic, p⟩).length, htop, ?_, ?_, ?_⟩
  · rw [hu]
    exact fun hin => lt_irrefl _ (ht.stored _ _ hin)
  · rw [Hub.messageAt, hlog, getElem_append_new]
    exact hi
  · intro w q hcur
    rw [hc] at hcur
    exact absurd (current_stored ht hcur) (lt_irrefl _)

/-- A step that keeps the database, the processed messages and the recorded publications,
and after which no execution has become done with an open delivery. -/
theorem allCarried_quiet {h h' : Hub} (hc : AllCarried h) (hg : Grows h h') (hdb : h'.db = h.db)
    (hu : h'.group.processed = h.group.processed)
    (hr : ∀ r b, h'.relays r = some b → ∀ p ∈ b.published,
      ∃ r' b', h.relays r' = some b' ∧ p ∈ b'.published)
    (hn : ∀ d ∈ h.db.tables.deliveries, d.status.Open → NoneDone h h' d.publicId) :
    AllCarried h' := by
  intro d hd ho
  rw [hdb] at hd
  exact (hc d hd ho).keep hg (fun o hmem => hdb ▸ hmem) hu hr (hn d hd ho)

theorem publications_same {h h' : Hub} (hr : h'.relays = h.relays) :
    ∀ r b, h'.relays r = some b → ∀ p ∈ b.published,
      ∃ r' b', h.relays r' = some b' ∧ p ∈ b'.published :=
  fun r b hb _ hp => ⟨r, b, hr ▸ hb, hp⟩

/-- New deliveries are carried by the outbox rows inserted with them. -/
theorem allCarried_atomic {h : Hub} {db' : Db} {rows : List Delivery} {events : List OutboxEvent}
    (hw : WellFormed h) (hc : AllCarried h) (ha : Adds h.db.tables db'.tables rows events)
    (hg : Grows h { h with db := db' }) : AllCarried { h with db := db' } := by
  intro d hd ho
  have hd' : d ∈ h.db.tables.deliveries ++ rows := ha.deliveries ▸ hd
  rcases List.mem_append.mp hd' with hold | hnew
  · refine (hc d hold ho).keep hg ?_ rfl (publications_same rfl) ?_
    · exact fun o hmem => ha.outbox ▸ List.mem_append_left _ hmem
    · exact @noneDone_of_same h { h with db := db' } (fun _ => rfl) rfl _
  · obtain ⟨o, ho', hnone, htop, hname⟩ := ha.carried d hnew
    refine .inl ⟨o, ha.outbox ▸ List.mem_append_right _ ho', hnone, by rw [htop]; rfl, hname, ?_⟩
    intro r b hr p hp
    obtain ⟨o', ho'', hid⟩ := (hw.relay r b hr).published p hp
    have hle := h.db.consistent.outbox_seq o' ho''
    have hlt := ha.fresh_events o ho'
    omega

/-- The hand-over from an outbox row to the message the relay has had acknowledged. -/
theorem allCarried_acked {h : Hub} {r p : Nat} {b : Relay.Batch} {o : OutboxEvent}
    {rest : List OutboxEvent} {sentAt : Time} (ht : Tracked h.group) (hw : WellFormed h)
    (hc : AllCarried h) (hr : h.relays r = some b) (hp : b.pending = o :: rest)
    (hg : Grows h (h.relaySend r b o rest sentAt (.acked p))) :
    AllCarried (h.relaySend r b o rest sentAt (.acked p)) := by
  intro d hd ho
  rcases hc d hd ho with ⟨o', hrow⟩ | ⟨tp, offset, hm⟩
  · by_cases hid : o'.id = o.id
    · obtain ⟨o'', ho'', hid'', hmsg⟩ := (hw.relay r b hr).pending o (hp ▸ List.mem_cons_self)
      obtain rfl := Table.eq_of_unique h.db.consistent.outbox_id ho'' hrow.mem
        (hid''.trans hid.symm)
      have htop : o.message.topic.consumed = true := by
        rw [← hmsg]
        exact hrow.consumed
      have hname : o.message.value.deliveryId = some d.publicId := by
        rw [← hmsg]
        exact hrow.names
      exact carried_of_append ht htop hname rfl rfl fun _ => rfl
    · refine .inl ⟨o', ⟨hrow.mem, hrow.unpublished, hrow.consumed, hrow.names, ?_⟩⟩
      intro r' b' hr' q hq
      rcases update_some_cases hr' with ⟨rfl, hsome⟩ | ⟨-, hold⟩
      · cases hsome
        rcases List.mem_append.mp hq with hin | hnew
        · exact hrow.unsent _ b hr q hin
        · rw [List.mem_singleton.mp hnew]
          exact fun he => hid he.symm
      · exact hrow.unsent r' b' hold q hq
  · exact .inr ⟨tp, offset, hm.keep hg rfl (noneDone_of_same (fun _ => rfl) rfl _)⟩

/-- A relay's commit publishes only rows it has had acknowledged. -/
theorem allCarried_relayCommit {h : Hub} {r : Nat} {b : Relay.Batch} (hc : AllCarried h)
    (hr : h.relays r = some b) (hg : Grows h { h.endRelay r with db := h.db.commitRelay b }) :
    AllCarried { h.endRelay r with db := h.db.commitRelay b } := by
  intro d hd ho
  rcases hc d hd ho with ⟨o, hrow⟩ | ⟨tp, offset, hm⟩
  · have hmsg := Relay.mark_message b o
    refine .inl ⟨b.mark o, List.mem_map.mpr ⟨o, hrow.mem, rfl⟩, ?_, ?_, ?_, ?_⟩
    · rcases Relay.mark_publishedAt b o with ⟨p, hp, hid, -⟩ | ⟨-, hsame⟩
      · exact absurd hid (hrow.unsent r b hr p hp)
      · rw [hsame]
        exact hrow.unpublished
    · have htop : (b.mark o).topic = o.topic := congrArg Message.topic hmsg
      rw [htop]
      exact hrow.consumed
    · have hpay : (b.mark o).payload = o.payload := congrArg Message.value hmsg
      rw [hpay]
      exact hrow.names
    · intro r' b' hr' q hq
      rw [Relay.mark_id]
      rcases update_some_cases hr' with ⟨-, hsome⟩ | ⟨-, hold⟩
      · cases hsome
      · exact hrow.unsent r' b' hold q hq
  · refine .inr ⟨tp, offset, hm.keep hg rfl ?_⟩
    exact @noneDone_of_same h { h.endRelay r with db := h.db.commitRelay b }
      (fun _ => rfl) rfl _

/-- The message a worker's execution was called with names no other delivery than the one it
works on. -/
theorem own_delivery {h : Hub} (hw : WellFormed h) {w offset : Nat} {tp : TopicPartition}
    {ctx : Context} (hh : h.phases w = some (.working ctx)) (hcur : h.current w = some (tp, offset))
    {d : Delivery} (hd : d ∈ h.db.tables.deliveries)
    (hm : h.messageAt tp offset = some d.publicId) : d.id = ctx.delivery.id := by
  obtain ⟨tp', offset', hcur', hname, d₀, hd₀, hid₀, hpub₀⟩ := hw.phase w _ hh
  obtain ⟨rfl, rfl⟩ := Prod.mk.inj (Option.some.inj (hcur.symm.trans hcur'))
  have hsame : d.publicId = d₀.publicId := by
    rw [hpub₀]
    exact Option.some.inj (hm.symm.trans hname)
  obtain rfl := Table.eq_of_unique h.db.consistent.delivery_publicId hd hd₀ hsame
  exact hid₀

/-- A worker's commit: a delivery it leaves open was open and has its carrier, since the
worker still owes the retry record; the messages of other deliveries are not concerned. -/
theorem allCarried_commit {settings : Settings} {h : Hub} {w : Nat} {ctx : Context}
    {input : ProcessInput} {s : Session} {record : Option Message} {out : ProcessOutcome} {db' : Db}
    (hw : WellFormed h) (hc : AllCarried h) (hok : KeepsCarriers h (.process w input))
    (hh : h.phases w = some (.working ctx))
    (hv : processDelivery settings ctx input = .ok (.commit s record out))
    (hcom : h.db.commit s = .ok db')
    (hg : Grows h { h.setPhase w (some (afterCommit record)) with db := db' }) :
    AllCarried { h.setPhase w (some (afterCommit record)) with db := db' } := by
  obtain ⟨hopen, hdec⟩ := process_decided hv
  have houtbox : ∀ o ∈ h.db.tables.outbox, o ∈ db'.tables.outbox := by
    intro o ho
    rw [processed_tables hcom]
    exact ho
  intro d hd ho
  have hd' : d ∈ (h.db.tables.flush ctx.delivery s.delivery).deliveries := by
    have := processed_tables hcom ▸ hd
    rwa [← hdec.loaded_eq]
  obtain ⟨d₁, hd₁, rfl⟩ := mem_flush.mp hd'
  by_cases hid : d₁.id = ctx.delivery.id
  · rw [if_pos hid] at ho ⊢
    obtain ⟨d₂, hd₂, hid₂, ho₂⟩ := hok ctx (by rw [Hub.copy, hh]; rfl) hopen (defers_of_open hv ho)
    obtain rfl := Table.eq_of_unique h.db.consistent.delivery_id hd₂ hd₁ (hid₂.trans hid.symm)
    obtain ⟨m, rfl, htop⟩ := hdec.open_record ho
    refine (hc d₂ hd₂ ho₂).keep hg houtbox rfl (publications_same rfl) ?_
    refine noneDone_phase rfl (fun _ _ => rfl) ?_
    rintro _ tp offset ⟨⟩ hdone
    change m.topic.consumed = false at hdone
    rw [htop] at hdone
    cases hdone
  · rw [if_neg hid] at ho ⊢
    refine (hc d₁ hd₁ ho).keep hg houtbox rfl (publications_same rfl) ?_
    refine noneDone_phase rfl (fun _ _ => rfl) ?_
    intro _ tp offset _ _ hcur hm
    exact absurd (own_delivery hw hh hcur hd₁ hm) hid

/-- The hand-over from a worker's message to the retry record it has had acknowledged. -/
theorem allCarried_publish {h : Hub} {w p : Nat} {record : Message} (ht : Tracked h.group)
    (hw : WellFormed h) (hc : AllCarried h) (hh : h.phases w = some (.publishing record))
    (hg : Grows h (h.publishRecord w record (.acked p))) :
    AllCarried (h.publishRecord w record (.acked p)) := by
  obtain ⟨tp, offset, hcur, hfit⟩ := hw.phase w _ hh
  intro d hd ho
  by_cases hown : record.topic.consumed = true ∧ h.messageAt tp offset = some d.publicId
  · obtain ⟨i, hname, hi⟩ := hfit hown.1
    obtain rfl := Option.some.inj (hown.2.symm.trans hname)
    exact carried_of_append ht hown.1 hi rfl rfl fun _ => rfl
  · refine (hc d hd ho).keep hg (fun _ hmem => hmem) rfl (publications_same rfl) ?_
    refine noneDone_phase rfl (fun _ _ => rfl) ?_
    intro q tp' offset' _ _ hcur' hm
    obtain ⟨rfl, rfl⟩ := Prod.mk.inj (Option.some.inj (hcur.symm.trans hcur'))
    refine ⟨hcur, _, hh, ?_⟩
    exact Bool.eq_false_iff.mpr fun htop => hown ⟨htop, hm⟩

/-- What a worker's own step adds to the processed messages: the one it returns from. -/
theorem workerStep_processed {g g' : Group} {w : Nat} {x : Worker} {a : WorkerAction}
    (hs : g.workerStep w x a = some g') {tp : TopicPartition} {i : Nat}
    (hi : i ∈ g'.processed tp) :
    i ∈ g.processed tp ∨ a = .returned ∧ x.current = some (tp, i) := by
  by_cases ha : a = .returned
  · subst ha
    simp only [Group.workerStep] at hs
    split at hs
    · rename_i tp' o os rest hc hb
      cases hs
      rcases mem_processed_update.mp hi with hold | ⟨rfl, rfl⟩
      · exact .inl hold
      · exact .inr ⟨rfl, by rw [Worker.current, hc, hb]⟩
    · cases hs
  · rw [(workerStep_frame hs).processed ha] at hi
    exact .inl hi

/-- A worker's step in its loops: a message it returns from was spent. -/
theorem allCarried_worker {h : Hub} {w : Nat} {a : WorkerAction} {x : Worker} {x' : Option Worker}
    {g : Group} (hw : WellFormed h) (hc : AllCarried h) (hx : h.group.workers w = some x)
    (ha : Phase.allows (h.phases w) a = true) (hs : h.group.workerStep w x a = some g)
    (hm : x.Moves a x') (hworkers : g.workers = Function.update h.group.workers w x')
    (hg : Grows h { h.setPhase w (Phase.after (h.phases w) a) with group := g }) :
    AllCarried { h.setPhase w (Phase.after (h.phases w) a) with group := g } := by
  have hnone : ∀ i, NoneDone h { h.setPhase w (Phase.after (h.phases w) a) with group := g } i := by
    intro i
    refine noneDone_phase rfl ?_ ?_
    · intro v hne
      show (g.workers v).bind Worker.current = _
      rw [hworkers]
      exact current_update hne
    · intro p tp offset hp hd hcur _
      obtain ⟨hold, hsame⟩ := current_kept hw hx hm hworkers hp
      exact ⟨hsame ▸ hcur, p, hold, hd⟩
  intro d hd ho
  rcases hc d hd ho with ⟨o, hrow⟩ | ⟨tp, offset, hmsg⟩
  · exact .inl ⟨o, hrow.keep hrow.mem (publications_same rfl)⟩
  · refine .inr ⟨tp, offset, hmsg.consumed, ?_, hg.message _ _ _ hmsg.names, ?_⟩
    · intro hin
      rcases workerStep_processed hs hin with hold | ⟨rfl, hcur⟩
      · exact hmsg.unprocessed hold
      · have hfin : h.phases w = some .finishing := by
          revert ha
          unfold Phase.allows
          split <;> simp_all
        refine hmsg.unspent w .finishing ?_ hfin trivial
        rw [Hub.current, hx]
        exact hcur
    · intro v p hcur hph hdone
      obtain ⟨hold, q, hq, hqd⟩ := hnone d.publicId v p tp offset hmsg.names hcur hph hdone
      exact hmsg.unspent v q hold hq hqd

/-- A replayed delivery is carried by the outbox row of its replay. -/
theorem allCarried_replay {h : Hub} {r : Nat} {req : ReplayRequest} {row : Delivery × Partner}
    {s : ReplaySession} (hw : WellFormed h) (hc : AllCarried h) (hr : h.replays r = some row)
    (hrep : Replays row.1 req s)
    (hg : Grows h { h with
      db := h.db.commitReplay s, replays := Function.update h.replays r none }) :
    AllCarried { h with
      db := h.db.commitReplay s, replays := Function.update h.replays r none } := by
  obtain ⟨d₀, hd₀, hid₀, hpub₀⟩ := hw.replay r row hr
  intro d hd ho
  have hd' : d ∈ (h.db.tables.flush row.1 s.delivery).deliveries := hrep.loaded_eq ▸ hd
  obtain ⟨d₁, hd₁, rfl⟩ := mem_flush.mp hd'
  by_cases hid : d₁.id = row.1.id
  · rw [if_pos hid]
    obtain rfl := Table.eq_of_unique h.db.consistent.delivery_id hd₁ hd₀ (hid.trans hid₀.symm)
    refine .inl ⟨s.outboxEvent (h.db.tables.outboxSeq + 1),
      List.mem_append_right _ (List.mem_singleton.mpr rfl), rfl, ?_, ?_, ?_⟩
    · change s.topic.consumed = true
      rw [hrep.topic_eq]
      rfl
    · exact hrep.names.trans (congrArg some hpub₀.symm)
    · intro r' b hr' p hp
      obtain ⟨o, ho', hpid⟩ := (hw.relay r' b hr').published p hp
      have hle := h.db.consistent.outbox_seq o ho'
      change p.1.id ≠ h.db.tables.outboxSeq + 1
      omega
  · rw [if_neg hid] at ho ⊢
    refine (hc d₁ hd₁ ho).keep hg (fun _ hmem => List.mem_append_left _ hmem) rfl
      (publications_same rfl) ?_
    exact @noneDone_of_same h { h with
      db := h.db.commitReplay s, replays := Function.update h.replays r none } (fun _ => rfl) rfl _

/-- Reading a delivery ends an execution's interest in it only when it is not open. -/
theorem allCarried_read {h h' : Hub} {w offset : Nat} {tp : TopicPartition} {i : Uuid}
    {phase : Phase} (hc : AllCarried h) (hcur : h.current w = some (tp, offset))
    (hm : h.messageAt tp offset = some i)
    (hphase : ∀ ctx, h.db.tables.fetchDeliveryContext i = some ctx → phase = .working ctx)
    (hh : h' = h.setPhase w (some phase)) (hg : Grows h h') : AllCarried h' := by
  subst hh
  refine allCarried_quiet hc hg rfl rfl (publications_same rfl) ?_
  intro d hd ho
  refine noneDone_phase rfl (fun _ _ => rfl) ?_
  rintro p tp' offset' ⟨⟩ hdone hcur' hname
  obtain ⟨rfl, rfl⟩ := Prod.mk.inj (Option.some.inj (hcur.symm.trans hcur'))
  obtain rfl := Option.some.inj (hm.symm.trans hname)
  obtain ⟨ctx, hctx, rfl⟩ := fetchContext_of_mem hd
  rw [hphase ctx hctx] at hdone
  exact absurd ho hdone

theorem allCarried_step {settings : Settings} {h h' : Hub} {a : Action} (ht : Tracked h.group)
    (hw : WellFormed h) (hc : AllCarried h) (hok : KeepsCarriers h a)
    (hs : HubStep settings h a h') : AllCarried h' := by
  have hg := grows_step hs
  cases hs with
  | atomic ha => exact allCarried_atomic hw hc ha hg
  | select hnone hrows =>
    refine allCarried_quiet hc hg rfl rfl ?_ fun _ _ _ => noneDone_of_same (fun _ => rfl) rfl _
    intro r b hr p hp
    rcases update_some_cases hr with ⟨rfl, hsome⟩ | ⟨-, hold⟩
    · cases hsome
      cases hp
    · exact ⟨r, b, hold, hp⟩
  | @send r b o rest outcome sentAt hr hp =>
    cases outcome with
    | acked p => exact allCarried_acked ht hw hc hr hp hg
    | raised stored =>
      refine allCarried_quiet hc hg rfl rfl ?_ fun _ _ _ => noneDone_of_same (fun _ => rfl) rfl _
      intro r' b' hr' q hq
      rcases update_some_cases hr' with ⟨rfl, hsome⟩ | ⟨-, hold⟩
      · cases hsome
        exact ⟨_, b, hr, hq⟩
      · exact ⟨r', b', hold, hq⟩
  | relayCommit hr => exact allCarried_relayCommit hc hr hg
  | relayFailed hr | relayCrash hr =>
    refine allCarried_quiet hc hg rfl rfl ?_ fun _ _ _ => noneDone_of_same (fun _ => rfl) rfl _
    intro r' b' hr' q hq
    rcases update_some_cases hr' with ⟨-, hsome⟩ | ⟨-, hold⟩
    · cases hsome
    · exact ⟨r', b', hold, hq⟩
  | @start w hnone =>
    refine allCarried_quiet hc hg rfl rfl (publications_same rfl) ?_
    intro d _ _ v p tp offset _ hcur hph hd
    have hne : v ≠ w := by
      rintro rfl
      obtain ⟨tp', offset', hc', -⟩ := hw.phase v p hph
      rw [Hub.current, hnone] at hc'
      cases hc'
    exact ⟨(current_update hne).symm.trans hcur, p, hph, hd⟩
  | worker hx ha hs hm hworkers => exact allCarried_worker hw hc hx ha hs hm hworkers hg
  | missing hp hcur hm hctx =>
    refine allCarried_read hc hcur hm ?_ rfl hg
    intro ctx hsome
    rw [hctx] at hsome
    cases hsome
  | found hp hcur hm hctx =>
    refine allCarried_read hc hcur hm ?_ rfl hg
    intro ctx hsome
    rw [hctx] at hsome
    cases hsome
    rfl
  | skip hh hclosed =>
    refine allCarried_quiet hc hg rfl rfl (publications_same rfl) ?_
    intro d _ _
    refine noneDone_phase rfl (fun _ _ => rfl) ?_
    exact fun _ _ _ _ _ hcur _ => ⟨hcur, _, hh, hclosed⟩
  | commit hh hv hcom => exact allCarried_commit hw hc hok hh hv hcom hg
  | failed hh =>
    refine allCarried_quiet hc hg rfl rfl (publications_same rfl) ?_
    intro d _ _
    refine noneDone_phase rfl (fun _ hne => current_update hne) ?_
    rintro p tp offset ⟨⟩
  | @publish w record outcome hh =>
    cases outcome with
    | acked p => exact allCarried_publish ht hw hc hh hg
    | raised stored =>
      refine allCarried_quiet hc hg rfl rfl (publications_same rfl) ?_
      intro d _ _
      refine noneDone_phase rfl (fun _ hne => current_update (h := h) hne) ?_
      rintro p tp offset ⟨⟩
  | replay hr hrep => exact allCarried_replay hw hc hr hrep hg
  | readReplay | replayRefused | abortReplay =>
    exact allCarried_quiet hc hg rfl rfl (publications_same rfl)
      fun _ _ _ => noneDone_of_same (fun _ => rfl) rfl _

/-- In every run whose steps all meet the condition, from any offsets, every open delivery has
a carrier in every state. -/
theorem open_delivery_has_carrier (settings : Settings) (g : GroupOffsets) (as : List Action)
    (hok : Along (Hub.step settings) KeepsCarriers (Hub.init g) as) :
    Throughout (Hub.step settings) NoneStuck (Hub.init g) as := by
  refine throughout_of_invariant
    (fun h => Tracked h.group ∧ WellFormed h ∧ AllCarried h) ?_ ?_ ?_ hok
  · rintro h a h' ⟨ht, hw, hc⟩ hok hs
    have hstep := hubStep_of_step hs
    exact ⟨tracked_hubStep ht hok hstep, wellFormed_step hw hstep,
      allCarried_step ht hw hc hok hstep⟩
  · rintro h ⟨ht, -, hc⟩ d hd ho
    exact (hc d hd ho).hasCarrier ht
  · refine ⟨tracked_initial g, wellFormed_init g, ?_⟩
    intro d hd
    cases hd

/-- Empty topics, with the group's offsets set to their start. -/
def resetGroup : GroupOffsets where
  log := fun _ => []
  committed := fun _ => some 0
  within := by
    intro tp c hc
    exact (Option.some.inj hc).ge

/-- The partition of the concrete runs. -/
def pendingPartition : TopicPartition := ⟨.outboundPending, 0⟩

/-- The outbox row of delivery 10. -/
def acceptedRows : List OutboxEvent :=
  (acceptedRun.foldl (Db.apply {}) Db.empty).tables.outbox

/-- Delivery 10 is accepted and its outbox row published. -/
def relayedRun : List Action :=
  acceptedRun.map .operation ++
    [.relaySelect 0 100 acceptedRows, .relaySend 0 (.acked 0) 1, .relayCommit 0]

theorem relaySelect_step {settings : Settings} {h : Hub} {r : Nat} (limit : Nat)
    (hr : h.relays r = none) : h.step settings (.relaySelect r limit h.selectable) =
      some (h.selected r (Relay.unpublishedOutboxSelect limit h.selectable)) :=
  if_pos ⟨hr, List.Perm.refl _⟩

/-- The hub when delivery 10 is accepted. -/
def afterAccept (g : GroupOffsets) : Hub :=
  { Hub.init g with db := acceptedRun.foldl (Db.apply {}) Db.empty }

theorem exec_relayedRun (g : GroupOffsets) (as : List Action) :
    exec (Hub.step {}) (Hub.init g) (relayedRun ++ as) =
      exec (Hub.step {}) ((afterAccept g).selected 0 acceptedRows)
        (.relaySend 0 (.acked 0) 1 :: .relayCommit 0 :: as) := by
  have haccept : exec (Hub.step {}) (Hub.init g) (acceptedRun.map .operation) =
      some (afterAccept g) := rfl
  have hselect : (afterAccept g).step {} (.relaySelect 0 100 acceptedRows) =
      some ((afterAccept g).selected 0 acceptedRows) :=
    relaySelect_step (h := afterAccept g) 100 rfl
  rw [relayedRun, List.append_assoc, exec_append, haccept, Option.bind_some, List.cons_append,
    exec_cons, hselect]
  rfl

/-- A worker starts, is given the partition and reads the delivery of its first message. -/
def readBy (w : Nat) : List Action :=
  [.start w, .worker w (.assign pendingPartition), .worker w .loop,
    .worker w (.getmany [(pendingPartition, 1)]), .worker w .next, .read w]

/-- The answer is 400; the DLQ record is sent, the call returns and the offset is committed. -/
def failedBy (w : Nat) : List Action :=
  [.process w (answer 2 400), .publish w (.acked 0), .worker w .returned,
    .worker w (.commit .returned)]

/-- A worker meets an open circuit and crashes before it sends the retry record. -/
def deferredAndCrashed (w : Nat) : List Action :=
  [.process w { answer 3 200 with allowOutbound := false }, .worker w .raised]

/-- The next worker is given the message again. -/
def redeliveredRun : List Action :=
  relayedRun ++ readBy 0 ++ deferredAndCrashed 0 ++ readBy 1 ++ failedBy 1

theorem redelivered_delivery_has_carrier :
    (exec (Hub.step {}) (Hub.init resetGroup) redeliveredRun).isSome ∧
      Throughout (Hub.step {}) NoneStuck (Hub.init resetGroup) redeliveredRun :=
  ⟨by decide +kernel, open_delivery_has_carrier {} resetGroup redeliveredRun (by decide +kernel)⟩

/-- Two workers read the delivery PENDING; the second takes it to FAILED and commits the
offset, then the first defers its stale copy and crashes. -/
def staleRun : List Action :=
  relayedRun ++ readBy 0 ++ readBy 1 ++ failedBy 1 ++ deferredAndCrashed 0

/-- After it the delivery is RETRYING, its row is published and its message committed past. -/
theorem stale_worker_strands_delivery :
    ¬ Throughout (Hub.step {}) NoneStuck (Hub.init resetGroup) staleRun := by
  obtain ⟨h, hrun, hlog, hlen, hcom, hrows, d, hd, hi, hst⟩ : ∃ h,
      exec (Hub.step {}) (Hub.init resetGroup) staleRun = some h ∧
      (∀ tp, tp.topic.consumed = true → tp ≠ pendingPartition → h.group.log tp = []) ∧
      (h.group.log pendingPartition).length = 1 ∧
      h.group.committed pendingPartition = some 1 ∧
      (∀ o ∈ h.db.tables.outbox, o.publishedAt ≠ none) ∧
      ∃ d ∈ h.db.tables.deliveries, d.publicId = 10 ∧ d.status = .retrying := by
    rw [staleRun, List.append_assoc, List.append_assoc, List.append_assoc, exec_relayedRun]
    refine ⟨_, rfl, ?_, rfl, rfl, by decide +kernel, by decide +kernel⟩
    intro tp hc htp
    have hdlq : tp ≠ ⟨.outboundDlq, 0⟩ := by
      rintro rfl
      cases hc
    exact (append_of_ne _ _ hdlq).trans (append_of_ne _ _ htp)
  intro hall
  rcases hall.last hrun d hd (by simp [hst]) with ⟨o, ho, hnone, -⟩ | ⟨tp, offset, hc, hle, hm⟩
  · exact hrows o ho hnone
  · have hlt : offset < (h.group.log tp).length := by
      obtain ⟨m, hm', -⟩ := Option.bind_eq_some_iff.mp hm
      exact (List.getElem?_eq_some_iff.mp hm').1
    by_cases htp : tp = pendingPartition
    · subst htp
      have hpast := hle 1 hcom
      omega
    · rw [hlog tp hc htp] at hlt
      exact absurd hlt (Nat.not_lt_zero offset)

end PartnerHub.Outbound
