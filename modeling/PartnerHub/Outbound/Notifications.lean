import PartnerHub.Outbound.Carriers

/-!
# Terminal notifications

The DLQ record of a failure and the SLA record of a late success are sent after the
database commit. The runs of the pipeline are traced: which message took a delivery to
FAILED or set its SLA flag, which records Kafka acknowledged while which message was handled,
and which offsets were committed, in their order.
-/
namespace PartnerHub.Outbound

open PartnerHub.Domain PartnerHub.Lib PartnerHub.Lib.PartitionLog PartnerHub.Lib.System

inductive Notice where
  | failed (tp : TopicPartition) (offset : Nat) (deliveryId : Uuid)
  | breached (tp : TopicPartition) (offset : Nat) (deliveryId : Uuid)
  | acked (tp : TopicPartition) (offset : Nat) (record : Message)
  | committed (tp : TopicPartition) (offset : Nat)
  deriving DecidableEq

theorem working_of_copy {h : Hub} {w : Nat} {ctx : Context} (hc : h.copy w = some ctx) :
    h.phases w = some (.working ctx) := by
  unfold Hub.copy at hc
  split at hc
  · cases hc
    assumption
  · cases hc

/-- A column of the delivery's committed row goes to a new value. -/
def Turns {β : Type} (column : Delivery → β) (value : β) (t t' : Tables) (i : Uuid) : Prop :=
  (∃ d ∈ t.deliveries, d.publicId = i ∧ column d ≠ value) ∧
    ∃ d ∈ t'.deliveries, d.publicId = i ∧ column d = value

instance {β : Type} [DecidableEq β] (column : Delivery → β) (value : β) (t t' : Tables) (i : Uuid) :
    Decidable (Turns column value t t' i) :=
  inferInstanceAs (Decidable (_ ∧ _))

/-- The offset a worker's `consumer.commit` stores. -/
def Worker.commits (x : Worker) : Option (TopicPartition × Nat) :=
  match x.batch with
  | (tp, offset :: _) :: _ => some (tp, offset + 1)
  | _ => none

/-- What a step from `h` to `h'` adds to the trace. -/
def noticesOf (h h' : Hub) : Action → List Notice
  | .process w _ =>
    match h.current w, h.copy w with
    | some (tp, offset), some ctx =>
      (if Turns Delivery.status .failed h.db.tables h'.db.tables ctx.delivery.publicId then
        [.failed tp offset ctx.delivery.publicId] else []) ++
      (if Turns Delivery.slaBreached true h.db.tables h'.db.tables ctx.delivery.publicId then
        [.breached tp offset ctx.delivery.publicId] else [])
    | _, _ => []
  | .publish w (.acked _) =>
    match h.current w, h.phases w with
    | some (tp, offset), some (.publishing record) => [.acked tp offset record]
    | _, _ => []
  | .worker w (.commit outcome) =>
    if outcome.stored then
      (((h.group.workers w).bind Worker.commits).map fun c => .committed c.1 c.2).toList
    else []
  | _ => []

structure Traced where
  hub : Hub
  notices : List Notice

def Traced.init (g : GroupOffsets) : Traced := ⟨Hub.init g, []⟩

def Traced.step (settings : Settings) (s : Traced) (a : Action) : Option Traced :=
  (s.hub.step settings a).map fun h' => ⟨h', s.notices ++ noticesOf s.hub h' a⟩

/-- Kafka acknowledged a record of this topic for the delivery while the message was
handled. -/
def Acked (notices : List Notice) (topic : Topic) (tp : TopicPartition) (offset : Nat) (i : Uuid) :
    Prop :=
  ∃ record, .acked tp offset record ∈ notices ∧ record.topic = topic ∧
    record.value.deliveryId = some i

/-- An offset behind the message is committed. -/
def CommittedPast (notices : List Notice) (tp : TopicPartition) (offset : Nat) : Prop :=
  ∃ c, .committed tp c ∈ notices ∧ offset < c

/-- Whenever the offset of a message was committed after it had taken a delivery to FAILED or
had set its SLA flag, the record of that was acknowledged in between. -/
def NoticesSent (s : Traced) : Prop :=
  (∀ earlier later tp offset i, s.notices = earlier ++ .failed tp offset i :: later →
    CommittedPast later tp offset → Acked later .outboundDlq tp offset i) ∧
  ∀ earlier later tp offset i, s.notices = earlier ++ .breached tp offset i :: later →
    CommittedPast later tp offset → Acked later .slaBreached tp offset i

/-- The runs of one worker: it is restarted in its own slot. -/
def OneWorker (_ : Traced) : Action → Prop
  | .start w => w = 0
  | _ => True

/-- The condition on a step: no crash and no failing send while the record of a failure
or of an SLA breach is still to be acknowledged. -/
def Undisturbed (s : Traced) (a : Action) : Prop :=
  ∀ w record, s.hub.phases w = some (.publishing record) →
    (a = .worker w .raised ∨ ∃ stored, a = .publish w (.raised stored)) →
      record.topic ≠ .outboundDlq ∧ record.topic ≠ .slaBreached

/-- The execution of the message is about to send the record. -/
def Hub.Sends (h : Hub) (topic : Topic) (tp : TopicPartition) (offset : Nat) (i : Uuid) : Prop :=
  h.current 0 = some (tp, offset) ∧ ∃ record, h.phases 0 = some (.publishing record) ∧
    record.topic = topic ∧ record.value.deliveryId = some i

/-- The record is acknowledged, or it is about to be sent and nothing is committed. -/
def Traced.Settled (s : Traced) (later : List Notice) (topic : Topic) (tp : TopicPartition)
    (offset : Nat) (i : Uuid) : Prop :=
  Acked later topic tp offset i ∨
    (∀ tp' c, .committed tp' c ∉ later) ∧ s.hub.Sends topic tp offset i

structure NoticesSettled (s : Traced) : Prop where
  wellFormed : WellFormed s.hub
  alone : ∀ w, w ≠ 0 → s.hub.group.workers w = none
  failed : ∀ earlier later tp offset i, s.notices = earlier ++ .failed tp offset i :: later →
    s.Settled later .outboundDlq tp offset i
  breached : ∀ earlier later tp offset i, s.notices = earlier ++ .breached tp offset i :: later →
    s.Settled later .slaBreached tp offset i

theorem Traced.Settled.acked {s : Traced} {later : List Notice} {topic : Topic}
    {tp : TopicPartition} {offset : Nat} {i : Uuid} (h : s.Settled later topic tp offset i)
    (hc : CommittedPast later tp offset) : Acked later topic tp offset i := by
  rcases h with hack | ⟨hnone, -⟩
  · exact hack
  · obtain ⟨c, hmem, -⟩ := hc
    exact absurd hmem (hnone tp c)

theorem NoticesSettled.sent {s : Traced} (h : NoticesSettled s) : NoticesSent s :=
  ⟨fun earlier later tp offset i hn => (h.failed earlier later tp offset i hn).acked,
    fun earlier later tp offset i hn => (h.breached earlier later tp offset i hn).acked⟩

/-- Only worker 0 has a call under way. -/
theorem called_alone {h : Hub} (halone : ∀ w, w ≠ 0 → h.group.workers w = none) {w : Nat}
    {m : TopicPartition × Nat} (hc : h.current w = some m) : w = 0 := by
  by_contra hne
  rw [Hub.current, halone w hne] at hc
  cases hc

theorem alone_step {settings : Settings} {s : Traced} {a : Action} {h' : Hub}
    (halone : ∀ w, w ≠ 0 → s.hub.group.workers w = none) (hone : OneWorker s a)
    (hs : HubStep settings s.hub a h') : ∀ w, w ≠ 0 → h'.group.workers w = none := by
  have hclear : ∀ {v : Nat} {x : Option Worker}, (v ≠ 0 → x = none) → ∀ w, w ≠ 0 →
      Function.update s.hub.group.workers v x w = none := by
    intro v x hx w hw
    by_cases he : w = v
    · subst he
      rw [Function.update_self]
      exact hx hw
    · rw [Function.update_of_ne he]
      exact halone w hw
  cases hs with
  | @send r b o rest outcome sentAt =>
    cases outcome with
    | acked p => exact halone
    | raised stored => exact halone
  | start hw => exact hclear fun hne => absurd hone hne
  | @worker w a x x' g hx ha hs hm hg =>
    rw [show ({ s.hub.setPhase w (Phase.after (s.hub.phases w) a) with group := g }
      : Hub).group.workers = _ from hg]
    refine hclear fun hne => ?_
    rw [halone w hne] at hx
    cases hx
  | failed => exact hclear fun _ => rfl
  | @publish w record outcome =>
    cases outcome with
    | acked p => exact halone
    | raised stored => exact hclear fun _ => rfl
  | atomic | select | relayCommit | relayFailed | relayCrash | missing | found | skip | commit
  | readReplay | replay | replayRefused | abortReplay => exact halone

/-- A record to be sent stays with its execution until it is acknowledged, unless a crash
or a failing send ends the worker; no offset is committed meanwhile. -/
theorem record_kept {settings : Settings} {h h' : Hub} {a : Action} (hw : WellFormed h)
    (halone : ∀ w, w ≠ 0 → h.group.workers w = none) (hs : HubStep settings h a h')
    {m : TopicPartition × Nat} {record : Message} (hc : h.current 0 = some m)
    (hh : h.phases 0 = some (.publishing record)) :
    (h'.current 0 = some m ∧ h'.phases 0 = some (.publishing record) ∧
        ∀ w outcome, a ≠ .worker w (.commit outcome)) ∨
      (∃ p, a = .publish 0 (.acked p)) ∨ a = .worker 0 .raised ∨
      ∃ stored, a = .publish 0 (.raised stored) := by
  have hphase : ∀ {w : Nat} {p : Phase}, h.phases w = some p → w = 0 ∧ p = .publishing record := by
    intro w p hp
    obtain ⟨tp, offset, hcur, -⟩ := hw.phase w p hp
    obtain rfl := called_alone halone hcur
    exact ⟨rfl, Option.some.inj (hp.symm.trans hh)⟩
  cases hs with
  | atomic | select | relayCommit | relayFailed | relayCrash | readReplay | replay
  | replayRefused | abortReplay => exact .inl ⟨hc, hh, by simp⟩
  | @send r b o rest outcome sentAt =>
    cases outcome with
    | acked p => exact .inl ⟨hc, hh, by simp⟩
    | raised stored => exact .inl ⟨hc, hh, by simp⟩
  | @start w hnone =>
    refine .inl ⟨(current_update ?_).trans hc, hh, by simp⟩
    rintro rfl
    rw [Hub.current, hnone] at hc
    cases hc
  | @worker w a x x' g hx ha hs hm hg =>
    obtain rfl : w = 0 := by
      by_contra hne
      cases (halone w hne).symm.trans hx
    have hcur : h.current 0 = x.current := by rw [Hub.current, hx]; rfl
    rcases call_under_way hm (hcur.symm.trans hc) with ⟨y, -, -, hown⟩ | rfl | rfl
    · have hafter : Phase.after (h.phases 0) a = some (.publishing record) := by
        rw [hh]
        cases a <;> first | rfl | cases hown
      obtain ⟨-, hkept⟩ := current_kept hw hx hm hg hafter
      refine .inl ⟨hkept.trans hc, (Function.update_self 0 _ h.phases).trans hafter, ?_⟩
      rintro v outcome ⟨⟩
      cases hown
    · rw [hh] at ha
      cases ha
    · exact .inr (.inr (.inl rfl))
  | missing hp hcur | found hp hcur =>
    obtain rfl := called_alone halone hcur
    cases hp.symm.trans hh
  | skip hx | commit hx | failed hx =>
    obtain ⟨-, he⟩ := hphase hx
    cases he
  | @publish w record' outcome hx =>
    obtain ⟨rfl, -⟩ := hphase hx
    cases outcome with
    | acked p => exact .inr (.inl ⟨p, rfl⟩)
    | raised stored => exact .inr (.inr (.inr ⟨stored, rfl⟩))

theorem committed_source {h h' : Hub} {a : Action} {tp : TopicPartition} {c : Nat}
    (hn : .committed tp c ∈ noticesOf h h' a) : ∃ w outcome, a = .worker w (.commit outcome) := by
  unfold noticesOf at hn
  split at hn
  · split at hn
    · rcases List.mem_append.mp hn with hf | hb
      · split at hf
        · cases List.mem_singleton.mp hf
        · cases hf
      · split at hb
        · cases List.mem_singleton.mp hb
        · cases hb
    · cases hn
  · split at hn
    · cases List.mem_singleton.mp hn
    · cases hn
  · exact ⟨_, _, rfl⟩
  · cases hn

/-- What is settled stays settled in an undisturbed step. -/
theorem settled_step {settings : Settings} {s s' : Traced} {a : Action} {h' : Hub}
    (hw : WellFormed s.hub) (halone : ∀ w, w ≠ 0 → s.hub.group.workers w = none)
    (hok : Undisturbed s a) (hs : HubStep settings s.hub a h')
    (he : s' = ⟨h', s.notices ++ noticesOf s.hub h' a⟩) {topic : Topic}
    (htopic : topic = .outboundDlq ∨ topic = .slaBreached) {later : List Notice}
    {tp : TopicPartition} {offset : Nat} {i : Uuid} (h : s.Settled later topic tp offset i) :
    s'.Settled (later ++ noticesOf s.hub h' a) topic tp offset i := by
  subst he
  rcases h with ⟨record, hmem, hrec⟩ | ⟨hnone, hcur, record, hh, hrec⟩
  · exact .inl ⟨record, List.mem_append_left _ hmem, hrec⟩
  · rcases record_kept hw halone hs hcur hh with ⟨hcur', hh', hquiet⟩ | ⟨p, rfl⟩ | hlost
    · refine .inr ⟨?_, hcur', record, hh', hrec⟩
      intro tp' c hmem
      rcases List.mem_append.mp hmem with hold | hnew
      · exact hnone tp' c hold
      · obtain ⟨w, outcome, rfl⟩ := committed_source hnew
        exact hquiet w outcome rfl
    · refine .inl ⟨record, List.mem_append_right _ ?_, hrec⟩
      simp [noticesOf, hcur, hh]
    · have hne := hok 0 record hh hlost
      rcases htopic with rfl | rfl
      · exact absurd hrec.1 hne.1
      · exact absurd hrec.1 hne.2

/-- Nothing turns when the deliveries stay as they are. -/
theorem not_turns_self {β : Type} {column : Delivery → β} {value : β} {db db' : Db} {i : Uuid}
    (hd : db'.tables.deliveries = db.tables.deliveries) :
    ¬ Turns column value db.tables db'.tables i := by
  rintro ⟨⟨d, hmem, hi, hne⟩, d', hmem', hi', he⟩
  rw [hd] at hmem'
  obtain rfl := Table.eq_of_unique db.consistent.delivery_publicId hmem hmem' (hi.trans hi'.symm)
  exact hne he

/-- Where a notice of a failure or of a flag comes from: an execution that had read the
delivery turned its row. -/
theorem turned_source {h h' : Hub} {a : Action} {n : Notice} (hn : n ∈ noticesOf h h' a)
    (hack : ∀ tp offset record, n ≠ .acked tp offset record)
    (hcom : ∀ tp c, n ≠ .committed tp c) :
    ∃ w input tp offset ctx, a = .process w input ∧ h.current w = some (tp, offset) ∧
      h.phases w = some (.working ctx) ∧
      ((n = .failed tp offset ctx.delivery.publicId ∧
        Turns Delivery.status .failed h.db.tables h'.db.tables ctx.delivery.publicId) ∨
      (n = .breached tp offset ctx.delivery.publicId ∧
        Turns Delivery.slaBreached true h.db.tables h'.db.tables ctx.delivery.publicId)) := by
  unfold noticesOf at hn
  split at hn
  · rename_i w input
    split at hn
    · rename_i tp offset ctx hc hcopy
      refine ⟨w, input, tp, offset, ctx, rfl, hc, working_of_copy hcopy, ?_⟩
      rcases List.mem_append.mp hn with hf | hb
      · split at hf
        · exact .inl ⟨List.mem_singleton.mp hf, ‹_›⟩
        · cases hf
      · split at hb
        · exact .inr ⟨List.mem_singleton.mp hb, ‹_›⟩
        · cases hb
    · cases hn
  · split at hn
    · exact absurd (List.mem_singleton.mp hn) (hack _ _ _)
    · cases hn
  · split at hn
    · obtain ⟨c, -, rfl⟩ := Option.map_eq_some_iff.mp (Option.mem_toList.mp hn)
      exact absurd rfl (hcom _ _)
    · cases hn
  · cases hn

/-- A row that turned in a worker's commit is the row its session wrote. -/
theorem turned_row {db db' : Db} {ctx : Context} {input : ProcessInput} {s : Session}
    {record : Option Message} (hdec : Decided ctx input s record) (hc : db.commit s = .ok db')
    (hrow : ∃ d ∈ db.tables.deliveries, d.id = ctx.delivery.id ∧
      d.publicId = ctx.delivery.publicId) {β : Type} {column : Delivery → β} {value : β}
    (ht : Turns column value db.tables db'.tables ctx.delivery.publicId) :
    ∃ d, column d ≠ value ∧ column (flushDelivery ctx.delivery s.delivery d) = value := by
  obtain ⟨⟨d, hd, hi, hne⟩, d', hd', hi', he⟩ := ht
  obtain ⟨d₀, hd₀, hid₀, hpub₀⟩ := hrow
  obtain rfl := Table.eq_of_unique db.consistent.delivery_publicId hd hd₀ (hi.trans hpub₀.symm)
  rw [processed_tables hc] at hd'
  obtain ⟨d₁, hd₁, rfl⟩ := mem_flush.mp hd'
  have hpub : d₁.publicId = d.publicId := by
    rw [hi, ← hi']
    split <;> rfl
  obtain rfl := Table.eq_of_unique db.consistent.delivery_publicId hd₁ hd hpub
  rw [hdec.loaded_eq, if_pos hid₀] at he
  exact ⟨d₁, hne, he⟩

/-- After a commit that turned the row, the execution is about to send the record. -/
theorem sends_of_turn {settings : Settings} {h h' : Hub} (hw : WellFormed h)
    (halone : ∀ w, w ≠ 0 → h.group.workers w = none) {w : Nat} {tp : TopicPartition} {offset : Nat}
    {input : ProcessInput} {ctx : Context} (hs : HubStep settings h (.process w input) h')
    (hcur : h.current w = some (tp, offset)) (hh : h.phases w = some (.working ctx)) {β : Type}
    {column : Delivery → β} {value : β}
    (ht : Turns column value h.db.tables h'.db.tables ctx.delivery.publicId) {topic : Topic}
    (hrecord : ∀ s record, Decided ctx input s record →
      (∃ d, column d ≠ value ∧ column (flushDelivery ctx.delivery s.delivery d) = value) →
      ∃ m, record = some m ∧ m.topic = topic ∧
        m.value.deliveryId = some ctx.delivery.publicId) :
    h'.Sends topic tp offset ctx.delivery.publicId := by
  obtain rfl := called_alone halone hcur
  cases hs with
  | skip | failed => exact absurd ht (not_turns_self rfl)
  | commit hx hv hc =>
    cases hh.symm.trans hx
    obtain ⟨-, hdec⟩ := process_decided hv
    obtain ⟨tp', offset', -, hfit⟩ := hw.phase 0 _ hh
    obtain ⟨m, rfl, hm⟩ := hrecord _ _ hdec (turned_row hdec hc hfit.2 ht)
    exact ⟨hcur, m, Function.update_self 0 _ h.phases, hm⟩

/-- A notice of a longer trace is an old one or a new one. -/
theorem split_append {α : Type*} {old new earlier later : List α} {n : α}
    (h : old ++ new = earlier ++ n :: later) :
    (∃ mid, old = earlier ++ n :: mid ∧ later = mid ++ new) ∨
      ∃ before, new = before ++ n :: later := by
  rcases List.append_eq_append_iff.mp h with ⟨mid, -, hnew⟩ | ⟨mid, hold, hrest⟩
  · exact .inr ⟨mid, hnew⟩
  · cases mid with
    | nil => exact .inr ⟨[], hrest.symm⟩
    | cons x mid =>
      obtain ⟨rfl, rfl⟩ := List.cons.inj hrest
      exact .inl ⟨mid, hold, rfl⟩

theorem noticesSettled_step {settings : Settings} {s s' : Traced} {a : Action}
    (h : NoticesSettled s) (hone : OneWorker s a) (hok : Undisturbed s a)
    (hs : s.step settings a = some s') : NoticesSettled s' := by
  obtain ⟨h', hstep, he⟩ := Option.map_eq_some_iff.mp hs
  have hsub := hubStep_of_step hstep
  subst he
  have hquiet : ∀ {w input before later n}, a = .process w input →
      noticesOf s.hub h' a = before ++ n :: later → ∀ tp c, .committed tp c ∉ later := by
    rintro w input before later n rfl hnew tp c hmem
    have hin : .committed tp c ∈ noticesOf s.hub h' (.process w input) := by
      rw [hnew]
      exact List.mem_append_right _ (List.mem_cons_of_mem _ hmem)
    obtain ⟨v, outcome, ha⟩ := committed_source hin
    cases ha
  refine ⟨wellFormed_step h.wellFormed hsub, alone_step h.alone hone hsub, ?_, ?_⟩
  · intro earlier later tp offset i hn
    rcases split_append hn with ⟨mid, hold, rfl⟩ | ⟨before, hnew⟩
    · exact settled_step h.wellFormed h.alone hok hsub rfl (.inl rfl)
        (h.failed earlier mid tp offset i hold)
    · have hmem : .failed tp offset i ∈ noticesOf s.hub h' a := by
        rw [hnew]
        exact List.mem_append_right _ List.mem_cons_self
      obtain ⟨w, input, tp', offset', ctx, rfl, hcur, hh, ⟨he, ht⟩ | ⟨he, -⟩⟩ :=
        turned_source hmem (by simp) (by simp)
      · obtain ⟨rfl, rfl, rfl⟩ := Notice.failed.inj he
        refine .inr ⟨hquiet rfl hnew, sends_of_turn h.wellFormed h.alone hsub hcur hh ht ?_⟩
        rintro sess record hdec ⟨d, -, hf⟩
        exact hdec.failed_record hf
      · cases he
  · intro earlier later tp offset i hn
    rcases split_append hn with ⟨mid, hold, rfl⟩ | ⟨before, hnew⟩
    · exact settled_step h.wellFormed h.alone hok hsub rfl (.inr rfl)
        (h.breached earlier mid tp offset i hold)
    · have hmem : .breached tp offset i ∈ noticesOf s.hub h' a := by
        rw [hnew]
        exact List.mem_append_right _ List.mem_cons_self
      obtain ⟨w, input, tp', offset', ctx, rfl, hcur, hh, ⟨he, -⟩ | ⟨he, ht⟩⟩ :=
        turned_source hmem (by simp) (by simp)
      · cases he
      · obtain ⟨rfl, rfl, rfl⟩ := Notice.breached.inj he
        refine .inr ⟨hquiet rfl hnew, sends_of_turn h.wellFormed h.alone hsub hcur hh ht ?_⟩
        rintro sess record hdec ⟨d, hne, hb⟩
        refine hdec.breach_record fun heq => hne ?_
        simpa [flushDelivery, heq] using hb

/-- In every run of one worker without a crash or a failing send in the window between the
commit of a failure or an SLA breach and the acknowledgement of its record, no notification is
lost. -/
theorem notices_sent_of_undisturbed (settings : Settings) (g : GroupOffsets) (as : List Action)
    (hone : Along (Traced.step settings) OneWorker (Traced.init g) as)
    (hok : Along (Traced.step settings) Undisturbed (Traced.init g) as) :
    Throughout (Traced.step settings) NoticesSent (Traced.init g) as := by
  refine throughout_of_invariant NoticesSettled ?_ (fun _ h => h.sent) ?_ (hone.and hok)
  · exact fun _ _ _ h hok hs => noticesSettled_step h hok.1 hok.2 hs
  · exact ⟨wellFormed_init g, fun _ _ => rfl, by simp [Traced.init], by simp [Traced.init]⟩

/-- A 400 whose DLQ record is acknowledged before the offset is committed. -/
def notifiedRun : List Action := relayedRun ++ readBy 0 ++ failedBy 0

theorem notified_run_sends :
    Along (Traced.step {}) OneWorker (Traced.init resetGroup) notifiedRun ∧
    Along (Traced.step {}) Undisturbed (Traced.init resetGroup) notifiedRun ∧
    Throughout (Traced.step {}) NoticesSent (Traced.init resetGroup) notifiedRun ∧
    ∃ notices ∈ (exec (Traced.step {}) (Traced.init resetGroup) notifiedRun).map Traced.notices,
      .failed pendingPartition 0 10 ∈ notices ∧ .committed pendingPartition 1 ∈ notices := by
  have hone : Along (Traced.step {}) OneWorker (Traced.init resetGroup) notifiedRun := by
    apply along_of_forall
    simp [notifiedRun, readBy, failedBy, relayedRun, acceptedRun, OneWorker]
  have hok : Along (Traced.step {}) Undisturbed (Traced.init resetGroup) notifiedRun := by
    apply along_of_forall
    simp [notifiedRun, readBy, failedBy, relayedRun, acceptedRun, Undisturbed]
  exact ⟨hone, hok, notices_sent_of_undisturbed {} resetGroup notifiedRun hone hok,
    by decide +kernel⟩

/-- A 400, a crash before the DLQ record is sent, and the redelivered message, which meets
a FAILED delivery and is skipped. -/
def lostNoticeRun : List Action :=
  relayedRun ++ readBy 0 ++ [.process 0 (answer 2 400), .worker 0 .raised] ++ readBy 0 ++
    [.process 0 (answer 3 400), .worker 0 .returned, .worker 0 (.commit .returned)]

theorem crash_loses_dlq_record :
    ¬ Throughout (Traced.step {}) NoticesSent (Traced.init resetGroup) lostNoticeRun := by
  intro h
  have hnotices : (exec (Traced.step {}) (Traced.init resetGroup) lostNoticeRun).map
      Traced.notices = some [.failed pendingPartition 0 10, .committed pendingPartition 1] := by
    decide +kernel
  obtain ⟨s, hrun, htrace⟩ := Option.map_eq_some_iff.mp hnotices
  have hpast : CommittedPast [.committed pendingPartition 1] pendingPartition 0 :=
    ⟨1, List.mem_singleton_self _, Nat.zero_lt_one⟩
  obtain ⟨record, hack, -⟩ := (h.last hrun).1 [] _ _ _ _ htrace hpast
  cases List.mem_singleton.mp hack

end PartnerHub.Outbound
