import PartnerHub.Outbound.Pipeline
import PartnerHub.Relay.Safety

/-!
# The pipeline's relays

The pipeline takes over rows, batches and locks of `PartnerHub.Relay` and leaves out its
history. Every run of the pipeline is, for the outbox table, a run of the relays there, so what
is proved of the relays holds in the pipeline.
-/
namespace PartnerHub.Outbound

open PartnerHub.Domain PartnerHub.Lib.System

/-- The outbox, its relays and their locks are those of the relay model; all rows are rows of
deliveries. -/
structure Mirrors (h : Hub) (s : Relay.Outbox) : Prop where
  rows : s.rows = h.db.tables.outbox
  seq : s.seq = h.db.tables.outboxSeq
  relays : s.relays = h.relays
  locks : s.locks = h.locks
  batches : s.starts.length = h.batches
  delivery : ∀ o ∈ h.db.tables.outbox, o.aggregateType = .delivery
  pending : ∀ r b, h.relays r = some b → ∀ o ∈ b.pending, o.aggregateType = .delivery

theorem mirrors_init (g : GroupOffsets) : Mirrors (Hub.init g) Relay.Outbox.init where
  rows := rfl
  seq := rfl
  relays := rfl
  locks := rfl
  batches := rfl
  delivery := fun _ ho => by cases ho
  pending := fun _ _ hb => by cases hb

section Steps

variable {settings : Settings} {h h' : Hub} {s : Relay.Outbox}

/-- A step that leaves outbox and relays alone. -/
theorem Mirrors.frame (hm : Mirrors h s) (ho : h'.db.tables.outbox = h.db.tables.outbox)
    (hq : h'.db.tables.outboxSeq = h.db.tables.outboxSeq) (hr : h'.relays = h.relays)
    (hl : h'.locks = h.locks) (hb : h'.batches = h.batches) : Mirrors h' s where
  rows := hm.rows.trans ho.symm
  seq := hm.seq.trans hq.symm
  relays := hm.relays.trans hr.symm
  locks := hm.locks.trans hl.symm
  batches := hm.batches.trans hb.symm
  delivery := ho ▸ hm.delivery
  pending := hr ▸ hm.pending

/-- What a commit inserts into the outbox. -/
def DeliveryRow.of (o : OutboxEvent) : Relay.DeliveryRow :=
  ⟨o.aggregateId, o.topic, o.messageKey, o.payload⟩

/-- Rows of deliveries that another service commits. -/
theorem Mirrors.persisted (hm : Mirrors h s) (created : List OutboxEvent) (createdAt : Time)
    (hcreated : ∀ o ∈ created, (DeliveryRow.of o).outboxEvent createdAt = { o with id := 0 })
    (ho : h'.db.tables.outbox =
      h.db.tables.outbox ++ numberOutbox h.db.tables.outboxSeq created)
    (hq : h'.db.tables.outboxSeq = h.db.tables.outboxSeq + created.length)
    (hr : h'.relays = h.relays) (hl : h'.locks = h.locks) (hb : h'.batches = h.batches) :
    ∃ a s', s.step a = some s' ∧ Mirrors h' s' := by
  have hnumbered : numberOutbox s.seq
      ((created.map DeliveryRow.of).map (·.outboxEvent createdAt)) =
        numberOutbox h.db.tables.outboxSeq created := by
    rw [hm.seq]
    apply List.ext_getElem
    · simp [numberOutbox]
    · intro i h₁ h₂
      have hi : i < created.length := by simpa [numberOutbox] using h₂
      simp [numberOutbox, hcreated created[i] (List.getElem_mem hi)]
  refine ⟨.persist (created.map DeliveryRow.of) createdAt, _, rfl, ?_⟩
  rw [hnumbered]
  refine ⟨?_, ?_, hm.relays.trans hr.symm, hm.locks.trans hl.symm, hm.batches.trans hb.symm, ?_,
    hr ▸ hm.pending⟩
  · rw [ho, ← hm.rows]
    rfl
  · rw [hq, ← hm.seq]
    simp [Relay.Outbox.inserted, numberOutbox]
  · intro o hmem
    rw [ho] at hmem
    rcases List.mem_append.mp hmem with hold | hnew
    · exact hm.delivery o hold
    · obtain ⟨i, hi, rfl⟩ := List.mem_mapIdx.mp hnew
      have he := congrArg OutboxEvent.aggregateType (hcreated _ (List.getElem_mem hi))
      exact he.symm

/-- The dead-letter requests write neither outbox nor deliveries. -/
theorem Mirrors.deadLetter (hm : Mirrors h s) {db : Db}
    (hw : DeadLetterWrite h.db.tables db.tables) : Mirrors { h with db := db } s := by
  refine hm.frame ?_ ?_ rfl rfl rfl
  · show db.tables.outbox = _
    rw [hw.frame]
  · show db.tables.outboxSeq = _
    rw [hw.frame]

theorem mirrors_atomic (hm : Mirrors h s) {op : Op} (hop : op.isAtomic = true) :
    (∃ a s', s.step a = some s' ∧ Mirrors { h with db := h.db.apply settings op } s') ∨
      Mirrors { h with db := h.db.apply settings op } s := by
  cases op with
  | putPartner | putEndpoint => exact .inr (hm.frame rfl rfl rfl rfl rfl)
  | enqueue partner endpoints req =>
    cases hacc : h.db.acceptEvent partner endpoints req with
    | error e =>
      refine .inr (hm.frame ?_ ?_ rfl rfl rfl) <;> simp only [Db.apply, hacc, Db.orKeep]
    | ok db' =>
      have htables := (acceptEvent_inserts hacc).2
      refine .inl (hm.persisted (joinEnvelopes
        (numberDeliveries h.db.tables.deliverySeq (createdDeliveries partner endpoints req))
        (((createdDeliveries partner endpoints req).map (·.publicId)).zip
          (List.zipWith (pendingEnvelope partner req) (createdDeliveries partner endpoints req)
            endpoints)) partner.publicId .outboundPending req.createdAt) req.createdAt
        ?_ ?_ ?_ rfl rfl rfl)
      · intro o ho
        obtain ⟨d, -, hin⟩ := List.mem_flatMap.mp ho
        obtain ⟨x, -, rfl⟩ := List.mem_map.mp hin
        rfl
      · simp only [Db.apply, hacc, Db.orKeep, htables]
        rfl
      · simp only [Db.apply, hacc, Db.orKeep, htables]
        simp [Tables.inserted, numberOutbox]
  | process | replay => cases hop
  | acknowledge id now sub =>
    cases hw : h.db.acknowledgeDeadLetter id now sub with
    | error e =>
      refine .inr (hm.frame ?_ ?_ rfl rfl rfl) <;> simp only [Db.apply, hw, Db.orKeep]
    | ok db' =>
      have hdb : h.db.apply settings (.acknowledge id now sub) = db' := by
        simp only [Db.apply, hw, Db.orKeep]
      exact .inr (hdb ▸ hm.deadLetter (acknowledge_ok hw))
  | purge id reason sub =>
    cases hw : h.db.purgeDeadLetter id reason sub with
    | error e =>
      refine .inr (hm.frame ?_ ?_ rfl rfl rfl) <;> simp only [Db.apply, hw, Db.orKeep]
    | ok db' =>
      have hdb : h.db.apply settings (.purge id reason sub) = db' := by
        simp only [Db.apply, hw, Db.orKeep]
      exact .inr (hdb ▸ hm.deadLetter (purge_ok hw))

theorem mirrors_select (hm : Mirrors h s) {r limit : Nat} {scan : List OutboxEvent}
    (hr : h.relays r = none) (hscan : scan.Perm h.selectable) :
    ∃ s', s.step (.select r limit scan) = some s' ∧
      Mirrors (h.selected r (Relay.unpublishedOutboxSelect limit scan)) s' := by
  have hsel : s.selectable = h.selectable := by
    rw [Relay.Outbox.selectable, Hub.selectable, hm.rows, hm.locks]
  refine ⟨s.selected r (Relay.unpublishedOutboxSelect limit scan), ?_, ?_⟩
  · exact if_pos ⟨hm.relays ▸ hr, hsel ▸ hscan⟩
  · refine ⟨hm.rows, hm.seq, ?_, ?_, ?_, hm.delivery, ?_⟩
    · simp [Relay.Outbox.selected, Relay.Outbox.setBatch, Hub.selected, Hub.setBatch, hm.relays,
        hm.batches]
    · simp [Relay.Outbox.selected, Hub.selected, hm.locks]
    · simp [Relay.Outbox.selected, Hub.selected, hm.batches]
    · intro r' b hb o ho
      rcases Lib.Slots.update_some_cases hb with ⟨-, hsome⟩ | ⟨-, hold⟩
      · cases hsome
        exact hm.delivery o (mem_unpublishedOutboxSelect hscan ho)
      · exact hm.pending r' b hold o ho

theorem mirrors_send (hm : Mirrors h s) {r : Nat} {b : Relay.Batch} {o : OutboxEvent}
    {rest : List OutboxEvent} (hr : h.relays r = some b) (hp : b.pending = o :: rest)
    (outcome : SendOutcome) (sentAt : Time) :
    ∃ a s', s.step a = some s' ∧ Mirrors (h.relaySend r b o rest sentAt outcome) s' := by
  have hsr : s.relays r = some b := hm.relays ▸ hr
  have hpending : ∀ b' : Relay.Batch, b'.pending = rest → ∀ r' b'',
      Function.update h.relays r (some b') r' = some b'' →
        ∀ x ∈ b''.pending, x.aggregateType = .delivery := by
    intro b' hb' r' b'' hb x hx
    rcases Lib.Slots.update_some_cases hb with ⟨-, hsome⟩ | ⟨-, hold⟩
    · cases hsome
      refine hm.pending r b hr x ?_
      rw [hp]
      exact List.mem_cons_of_mem _ (hb' ▸ hx)
    · exact hm.pending r' b'' hold x hx
  cases outcome with
  | acked p =>
    have htype : o.aggregateType = .delivery := hm.pending r b hr o (hp ▸ List.mem_cons_self)
    refine ⟨.send r .acknowledged sentAt, s.acked r b o rest sentAt, ?_, ?_⟩
    · simp only [Relay.Outbox.step, hsr, hp, Relay.Outbox.send, htype]
    · refine ⟨hm.rows, hm.seq, ?_, hm.locks, hm.batches, hm.delivery, hpending _ rfl⟩
      simp [Relay.Outbox.acked, Relay.Outbox.setBatch, Hub.relaySend, Hub.setBatch, hm.relays]
  | raised stored =>
    refine ⟨.send r .raised sentAt, s.raised r b o rest, ?_, ?_⟩
    · simp only [Relay.Outbox.step, hsr, hp, Relay.Outbox.send]
    · refine ⟨hm.rows, hm.seq, ?_, hm.locks, hm.batches, hm.delivery, hpending _ rfl⟩
      simp [Relay.Outbox.raised, Relay.Outbox.setBatch, Hub.relaySend, Hub.setBatch, hm.relays]

theorem mirrors_end (hm : Mirrors h s) (r : Nat) : Mirrors (h.endRelay r) (s.endTransaction r) where
  rows := hm.rows
  seq := hm.seq
  relays := by
    simp [Relay.Outbox.endTransaction, Relay.Outbox.setBatch, Hub.endRelay, Hub.setBatch, hm.relays]
  locks := by
    simp [Relay.Outbox.endTransaction, Hub.endRelay, hm.locks]
  batches := hm.batches
  delivery := hm.delivery
  pending := fun r' b hb => hm.pending r' b (Lib.Slots.update_none_some hb).1

theorem mirrors_commit (hm : Mirrors h s) {r : Nat} {b : Relay.Batch} (hr : h.relays r = some b)
    (hp : b.pending = []) :
    ∃ s', s.step (.commit r) = some s' ∧ Mirrors (h.relayCommit r b) s' := by
  have hsr : s.relays r = some b := hm.relays ▸ hr
  refine ⟨s.commit r b, ?_, ?_⟩
  · simp only [Relay.Outbox.step, hsr, hp]
  · have hend := mirrors_end hm r
    unfold Relay.Outbox.commit Hub.relayCommit
    rw [hm.rows]
    split
    · refine ⟨?_, hm.seq, hend.relays, hend.locks, hm.batches, ?_, hend.pending⟩
      · simp [Relay.Outbox.written, Db.commitRelay, Tables.relayed, hm.rows]
      · intro o ho
        obtain ⟨o₀, ho₀, rfl⟩ := List.mem_map.mp ho
        rw [Relay.mark_aggregateType]
        exact hm.delivery o₀ ho₀
    · exact hend

/-- One step of the pipeline is one step of the relay model, or none. -/
theorem mirrors_step (hm : Mirrors h s) {a : Action} (hs : h.step settings a = some h') :
    (∃ ra s', s.step ra = some s' ∧ Mirrors h' s') ∨ Mirrors h' s := by
  have hstep := hubStep_of_step hs
  cases a with
  | operation op =>
    simp only [Hub.step] at hs
    split at hs
    · rename_i hop
      obtain rfl := Option.some.inj hs
      exact mirrors_atomic hm hop
    · cases hs
  | relaySelect r limit scan =>
    simp only [Hub.step] at hs
    split at hs
    · rename_i hg
      obtain rfl := Option.some.inj hs
      obtain ⟨s', hs', hm'⟩ := mirrors_select hm hg.1 hg.2
      exact .inl ⟨_, s', hs', hm'⟩
    · cases hs
  | relaySend r outcome sentAt =>
    cases hstep with
    | send hr hp => exact .inl (mirrors_send hm hr hp outcome sentAt)
  | relayCommit r =>
    simp only [Hub.step] at hs
    split at hs
    · cases hs
    · rename_i b hr
      split at hs
      · rename_i hp
        obtain rfl := Option.some.inj hs
        obtain ⟨s', hs', hm'⟩ := mirrors_commit hm hr hp
        exact .inl ⟨_, s', hs', hm'⟩
      · cases hs
  | relayCrash r =>
    obtain ⟨b, hr, rfl⟩ := Option.map_eq_some_iff.mp hs
    refine .inl ⟨.crash r, s.endTransaction r, ?_, mirrors_end hm r⟩
    simp only [Relay.Outbox.step, hm.relays, hr, Option.map_some]
  | process w input =>
    cases hstep with
    | commit hh hv hc =>
      refine .inr (hm.frame ?_ ?_ rfl rfl rfl)
      · simp only [processed_tables hc]
        rfl
      · simp only [processed_tables hc]
        rfl
    | skip | failed => exact .inr (hm.frame rfl rfl rfl rfl rfl)
  | commitReplay r req =>
    cases hstep with
    | @replay r req row sess hr hrep =>
      refine .inl (hm.persisted [sess.outboxEvent 0] sess.createdAt ?_ ?_ rfl rfl rfl rfl)
      · intro o ho
        rw [List.mem_singleton.mp ho]
        rfl
      · rfl
    | replayRefused => exact .inr (hm.frame rfl rfl rfl rfl rfl)
  | publish w outcome =>
    cases hstep with
    | publish hh => cases outcome <;> exact .inr (hm.frame rfl rfl rfl rfl rfl)
  | start w =>
    obtain ⟨g, -, rfl⟩ := Option.map_eq_some_iff.mp hs
    exact .inr (hm.frame rfl rfl rfl rfl rfl)
  | worker w a =>
    cases hstep with
    | worker => exact .inr (hm.frame rfl rfl rfl rfl rfl)
  | read w =>
    cases hstep with
    | missing | found => exact .inr (hm.frame rfl rfl rfl rfl rfl)
  | readReplay r i =>
    cases hstep with
    | readReplay => exact .inr (hm.frame rfl rfl rfl rfl rfl)
  | abortReplay r =>
    obtain ⟨row, -, rfl⟩ := Option.map_eq_some_iff.mp hs
    exact .inr (hm.frame rfl rfl rfl rfl rfl)

end Steps

/-- Every state of the pipeline has a reachable state of the relay model behind it. -/
theorem hub_refines_relays {settings : Settings} {g : GroupOffsets} {h : Hub}
    (hr : Reachable (Hub.step settings) (Hub.init g) h) :
    ∃ s, Reachable Relay.Outbox.step Relay.Outbox.init s ∧ Mirrors h s := by
  refine hr.invariant (fun h => ∃ s, Reachable Relay.Outbox.step Relay.Outbox.init s ∧ Mirrors h s)
    ?_ ⟨_, ⟨[], rfl⟩, mirrors_init g⟩
  rintro h a h' ⟨s, ⟨ras, hras⟩, hm⟩ hs
  rcases mirrors_step hm hs with ⟨ra, s', hs', hm'⟩ | hm'
  · refine ⟨s', ⟨ras ++ [ra], ?_⟩, hm'⟩
    rw [exec_append, hras, Option.bind_some, exec_cons, hs']
    rfl
  · exact ⟨s, ⟨ras, hras⟩, hm'⟩

/-- In the pipeline, a row some relay has selected is unpublished in the outbox and locked by
that relay alone. -/
theorem selected_rows_held {settings : Settings} {g : GroupOffsets} {h : Hub}
    (hr : Reachable (Hub.step settings) (Hub.init g) h) :
    ∀ r b, h.relays r = some b → ∀ o ∈ b.rows,
      o ∈ h.db.tables.outbox ∧ o.publishedAt = none ∧ h.locks o.id = some r := by
  obtain ⟨s, hs, hm⟩ := hub_refines_relays hr
  intro r b hb o ho
  have hheld := (Relay.relayInvariant_reachable hs).sound.held.row r b (hm.relays ▸ hb) o ho
  rw [hm.rows, hm.locks] at hheld
  exact hheld

end PartnerHub.Outbound
