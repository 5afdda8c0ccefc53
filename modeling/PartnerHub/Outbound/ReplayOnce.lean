import PartnerHub.Outbound.DeadLetterRecords

/-!
# One replay per failure

A replay checks that the row it read is FAILED and then writes REPLAYING without looking
again. Since a delivery fails once, the number of replays stays within the number of
failures exactly in those runs in which no call commits a replay after another one has
been committed since it read the row.
-/
namespace PartnerHub.Outbound

open PartnerHub.Domain PartnerHub.Lib PartnerHub.Lib.Slots PartnerHub.Lib.System

/-- The outbox rows that put a delivery on the pending topic: the one it was accepted
with and one for each replay. -/
def Tables.pendingRows (t : Tables) (publicId : Uuid) : Nat :=
  t.outbox.countP fun o => o.topic = .outboundPending ∧ o.payload.deliveryId = some publicId

/-- The committed replays of a delivery, as audit rows and as outbox rows, are at most as
many as the times its status became FAILED. -/
structure OneReplayPerFailure (s : Desk) : Prop where
  replays : ∀ d ∈ s.db.tables.deliveries,
    s.db.tables.replays d.publicId ≤ s.history.failures.count d.id
  outbox : ∀ d ∈ s.db.tables.deliveries,
    s.db.tables.pendingRows d.publicId = s.db.tables.replays d.publicId + 1

/-- A call on a FAILED-or-not row either commits one replay or answers
`DeliveryNotReplayableError`, skips the delivery or, for a decided approval, says so, and
leaves the database as it is. -/
def OthersRefused (settings : Settings) (s : Desk) : DeskAction → Prop
  | .proceed c args gate => ∀ call row s', s.calls c = some call → call.row = some row →
      s.step settings (.proceed c args gate) = some s' →
        (s'.db.tables.replays row.1.publicId = s.db.tables.replays row.1.publicId + 1 ∧
          s'.db.tables.pendingRows row.1.publicId = s.db.tables.pendingRows row.1.publicId + 1) ∨
        (s'.db = s.db ∧
          (call.refusal args gate = some (.raised (.deliveryNotReplayable row.1.status.value)) ∨
            (∃ why, call.refusal args gate = some (.skipped why)) ∨
            ∃ approval, call = .approve approval row ∧ approval.status ≠ .pending ∧
              call.refusal args gate =
                some (.raised (.replayApprovalNotPending approval.status.value))))
  | _ => True

/-- The condition on a step: a call that commits a replay does so while no other replay of
the delivery has been committed since it read the row. -/
def NotReplayedSinceRead (s : Desk) : DeskAction → Prop
  | .proceed c args gate => ∀ call row, s.calls c = some call → call.row = some row →
      call.refusal args gate = none →
        s.db.tables.replays row.1.publicId = s.history.seen c
  | _ => True

/-- Every delivery is on the outbox once for its acceptance and once for each replay. -/
def OutboxMatches (t : Tables) : Prop :=
  ∀ p, t.pendingRows p = t.replays p + t.deliveries.countP fun d => d.publicId = p

/-- The replay a call commits, if its refusal is `none`. -/
theorem proceed_replays {s : Desk} {c : Nat} {args : CallArgs} {gate : Gate} {call : Call}
    {row : Delivery × Partner} (hrow : call.row = some row)
    (href : call.refusal args gate = none) :
    ∃ req sess, Replays row.1 req sess ∧
      (s.proceed c args gate call).db = s.db.commitReplay sess := by
  cases call with
  | replay caller row' =>
    obtain rfl := Option.some.inj hrow
    simp only [Call.refusal] at href
    split at href
    · cases href
    · rename_i sess hr
      exact ⟨_, sess, caller_cases hr, by simp only [Desk.proceed, hr]⟩
  | approve approval row' =>
    obtain rfl := Option.some.inj hrow
    simp only [Call.refusal] at href
    split at href
    · cases href
    · rename_i sess hr
      exact ⟨_, sess, (approve_cases hr).2, by simp only [Desk.proceed, hr]⟩
  | approved | reject | acknowledge | purge => cases hrow

/-- A refused call commits nothing. -/
theorem proceed_refused {s : Desk} {c : Nat} {args : CallArgs} {gate : Gate} {call : Call}
    {r : Refusal} (href : call.refusal args gate = some r) :
    (s.proceed c args gate call).db = s.db := by
  cases call with
  | replay caller row =>
    simp only [Call.refusal] at href
    split at href
    · rename_i hr
      simp only [Desk.proceed, hr, Desk.setCall]
    · cases href
  | approve approval row =>
    simp only [Call.refusal] at href
    split at href
    · rename_i hr
      simp only [Desk.proceed, hr, Desk.setCall]
    · cases href
  | approved | reject | acknowledge | purge => cases href

theorem replayDelivery_error {row : Delivery × Partner} {req : ReplayRequest} {e : HubError}
    (h : replayDelivery (some row) req = .error e) :
    e = .deliveryNotReplayable row.1.status.value := by
  obtain ⟨loaded, partner⟩ := row
  unfold replayDelivery at h
  simp only at h
  split at h
  · exact (Except.error.inj h).symm
  · rename_i hf
    rw [not_not.mp hf] at h
    cases h

/-- The answers of a refused call. -/
theorem refusal_cases {args : CallArgs} {gate : Gate} {call : Call} {row : Delivery × Partner}
    {r : Refusal} (hrow : call.row = some row) (href : call.refusal args gate = some r) :
    r = .raised (.deliveryNotReplayable row.1.status.value) ∨ (∃ why, r = .skipped why) ∨
      ∃ approval, call = .approve approval row ∧ approval.status ≠ .pending ∧
        r = .raised (.replayApprovalNotPending approval.status.value) := by
  cases call with
  | replay caller row' =>
    obtain rfl := Option.some.inj hrow
    simp only [Call.refusal] at href
    split at href
    · rename_i r' hr
      obtain rfl := Option.some.inj href
      unfold ReplayCaller.replay at hr
      split at hr
      · exact .inr (.inl ⟨_, (Except.error.inj hr).symm⟩)
      · cases he : replayDelivery (some row') (caller.request args) with
        | ok sess =>
          rw [he] at hr
          cases hr
        | error e =>
          rw [he] at hr
          cases hr
          rw [replayDelivery_error he]
          exact .inl rfl
    · cases href
  | approve approval row' =>
    obtain rfl := Option.some.inj hrow
    simp only [Call.refusal] at href
    split at href
    · rename_i e he
      obtain rfl := Option.some.inj href
      unfold approveReplayApproval at he
      split at he
      · rename_i hp
        obtain rfl := (Except.error.inj he).symm
        exact .inr (.inr ⟨approval, rfl, hp, rfl⟩)
      · rw [replayDelivery_error he]
        exact .inl rfl
    · cases href
  | approved | reject | acknowledge | purge => cases hrow

theorem pendingRows_commitReplay (db : Db) {loaded : Delivery} {req : ReplayRequest}
    {sess : ReplaySession} (hr : Replays loaded req sess) (p : Uuid) :
    (db.commitReplay sess).tables.pendingRows p =
      db.tables.pendingRows p + if p = loaded.publicId then 1 else 0 := by
  change (db.tables.outbox ++ [sess.outboxEvent _]).countP _ = _
  rw [List.countP_append, List.countP_singleton]
  simp [Tables.pendingRows, ReplaySession.outboxEvent, hr.topic_eq, hr.names, eq_comm]

theorem step_proceed {settings : Settings} {s s' : Desk} {c : Nat} {args : CallArgs} {gate : Gate}
    {call : Call} (hcall : s.calls c = some call)
    (hs : s.step settings (.proceed c args gate) = some s') :
    s'.db = (s.proceed c args gate call).db := by
  obtain ⟨t, ht, rfl⟩ := Option.map_eq_some_iff.mp hs
  simp only [Desk.act, hcall, Option.map_some, Option.some.injEq] at ht
  subst ht
  rfl

/-- Every call that does not commit a replay is refused. -/
theorem others_refused (settings : Settings) (s : Desk) (a : DeskAction) :
    OthersRefused settings s a := by
  cases a with
  | proceed c args gate =>
    intro call row s' hcall hrow hs
    have hdb := step_proceed hcall hs
    cases href : call.refusal args gate with
    | none =>
      obtain ⟨req, sess, hr, he⟩ := proceed_replays hrow href
      left
      rw [hdb, he, replays_commitReplay s.db hr, pendingRows_commitReplay s.db hr]
      simp
    | some r =>
      refine .inr ⟨hdb.trans (proceed_refused href), ?_⟩
      rcases refusal_cases hrow href with rfl | ⟨why, rfl⟩ | ⟨approval, hc, hp, rfl⟩
      · exact .inl rfl
      · exact .inr (.inl ⟨why, rfl⟩)
      · exact .inr (.inr ⟨approval, hc, hp, rfl⟩)
  | _ => trivial

/-- Only a call that was not refused adds a replay. -/
theorem replays_step {settings : Settings} {s s' : Desk} {a : DeskAction}
    (hs : s.step settings a = some s') :
    (∃ c args gate call row, a = .proceed c args gate ∧ s.calls c = some call ∧
      call.row = some row ∧ call.refusal args gate = none ∧
      ∀ p, s'.db.tables.replays p =
        s.db.tables.replays p + if p = row.1.publicId then 1 else 0) ∨
    ∀ p, s'.db.tables.replays p = s.db.tables.replays p := by
  cases deskStep_of_step hs with
  | replayed ha hcall hrow href hr hdb hk =>
    refine .inl ⟨_, _, _, _, _, ha, hcall, hrow, href, ?_⟩
    rw [hdb]
    exact replays_commitReplay s.db hr
  | enrolled he hk =>
    right
    intro p
    rw [Tables.replays, he.auditLogs, Tables.replays]
  | processed hctx hv hc hk =>
    right
    intro p
    rw [processed_tables hc]
    rfl
  | noted hn hk =>
    right
    intro p
    obtain ⟨b, hne, haudit⟩ := hn.audit
    rw [Tables.replays, haudit, List.countP_append, Tables.replays]
    simp [hne]
  | read hdb | entered hdb =>
    right
    intro p
    rw [hdb]

theorem outbox_matches_init : OutboxMatches Desk.init.db.tables := fun _ => rfl

/-- An accepted event adds as many outbox rows that name a delivery as deliveries. -/
theorem outbox_matches_enrolled {t t' : Tables} {rows : List Delivery} {events : List OutboxEvent}
    (h : OutboxMatches t) (he : Enrols t t' rows events) : OutboxMatches t' := by
  intro p
  have hevents : (events.countP fun o =>
      o.topic = .outboundPending ∧ o.payload.deliveryId = some p) =
        rows.countP fun d => d.publicId = p := by
    calc (events.countP fun o => o.topic = .outboundPending ∧ o.payload.deliveryId = some p)
        = events.countP fun o => o.payload.deliveryId = some p := by
          apply List.countP_congr
          intro o ho
          simp [he.topic o ho]
      _ = (events.map (·.payload.deliveryId)).countP fun x => x = some p := by
          rw [List.countP_map]
          rfl
      _ = rows.countP fun d => d.publicId = p := by
          rw [he.named, List.countP_map]
          apply List.countP_congr
          intro d _
          simp
  rw [Tables.pendingRows, he.outbox, List.countP_append, hevents, he.deliveries,
    List.countP_append, Tables.replays, he.auditLogs]
  have hp := h p
  rw [Tables.pendingRows, Tables.replays] at hp
  omega

theorem countP_publicId_flush (t : Tables) (loaded mine : Delivery) (p : Uuid) :
    ((t.flush loaded mine).deliveries.countP fun d => d.publicId = p) =
      t.deliveries.countP fun d => d.publicId = p := by
  have hm := Table.map_modify Delivery.id loaded.id (flushDelivery loaded mine) Delivery.publicId
    t.deliveries fun _ => rfl
  have hc := congrArg (List.countP fun q => decide (q = p)) hm
  rw [List.countP_map, List.countP_map] at hc
  exact hc

theorem outbox_matches_step {settings : Settings} {s s' : Desk} {a : DeskAction}
    (h : OutboxMatches s.db.tables) (hs : s.step settings a = some s') :
    OutboxMatches s'.db.tables := by
  cases deskStep_of_step hs with
  | enrolled he hk => exact outbox_matches_enrolled h he
  | @processed w ctx input sess pub out hctx hv hc hk =>
    intro p
    rw [processed_tables hc]
    change s.db.tables.pendingRows p = s.db.tables.replays p + _
    rw [h p]
    exact congrArg _ (countP_publicId_flush _ _ _ _).symm
  | replayed ha hcall hrow href hr hdb hk =>
    intro p
    rw [hdb, pendingRows_commitReplay s.db hr, replays_commitReplay s.db hr, h p]
    change _ = _ + ((s.db.tables.flush _ _).deliveries.countP _)
    rw [countP_publicId_flush]
    omega
  | noted hn hk =>
    intro p
    obtain ⟨b, hne, haudit⟩ := hn.audit
    have hp := h p
    rw [hn.frame]
    simp only [Tables.replays, Tables.pendingRows, haudit, List.countP_append] at hp ⊢
    simpa [hne] using hp
  | read hdb | entered hdb =>
    rw [hdb]
    exact h

theorem countP_publicId {db : Db} {d : Delivery} (hd : d ∈ db.tables.deliveries) :
    (db.tables.deliveries.countP fun d' => d'.publicId = d.publicId) = 1 := by
  have hn := db.consistent.delivery_publicId
  rw [List.countP_eq_length_filter, Table.filter_eq_singleton hn.of_map hd (by simp)]
  · rfl
  · intro d' hd' hp
    exact Table.eq_of_unique hn hd' hd (by simpa using hp)

/-- In a sound desk replays stay within failures exactly when no delivery was replayed
twice: one that was replayed has failed, and none fails twice. -/
theorem one_replay_iff {s : Desk} (h : DeskSound s) (ho : OutboxMatches s.db.tables) :
    OneReplayPerFailure s ↔ ∀ p, s.db.tables.replays p ≤ 1 := by
  constructor
  · intro hone p
    by_cases hz : s.db.tables.replays p = 0
    · omega
    · obtain ⟨d, hd, rfl⟩ := h.known p hz
      exact (hone.replays d hd).trans (List.nodup_iff_count_le_one.mp h.nodup d.id)
  · intro hle
    refine ⟨?_, ?_⟩
    · intro d hd
      by_cases hz : s.db.tables.replays d.publicId = 0
      · omega
      · have hin := (h.replayed d hd hz).1
        exact (hle _).trans (List.count_pos_iff.mpr hin)
    · intro d hd
      rw [ho, countP_publicId hd]

/-- One step keeps replays within failures exactly when it meets the condition. -/
theorem one_replay_step {settings : Settings} {s s' : Desk} {a : DeskAction} (h : DeskSound s)
    (ho : OutboxMatches s.db.tables) (hp : OneReplayPerFailure s)
    (hs : s.step settings a = some s') : OneReplayPerFailure s' ↔ NotReplayedSinceRead s a := by
  have hle := (one_replay_iff h ho).mp hp
  rw [one_replay_iff (sound_step h hs) (outbox_matches_step ho hs)]
  rcases replays_step hs with ⟨c, args, gate, call, row, rfl, hcall, hrow, href, hcount⟩ | hsame
  · obtain ⟨req, sess, hr, -⟩ := proceed_replays (s := s) (c := c) hrow href
    have hzero := ((h.held c row (held_of_call hcall hrow)).failed hr.failed).2
    constructor
    · intro hle' call' row' hcall' hrow' _
      obtain rfl := Option.some.inj (hcall.symm.trans hcall')
      obtain rfl := Option.some.inj (hrow.symm.trans hrow')
      have hone := hle' row.1.publicId
      rw [hcount, if_pos rfl] at hone
      omega
    · intro hcond p
      have hnow := hcond call row hcall hrow href
      rw [hcount]
      split
      · rename_i hpe
        subst hpe
        omega
      · exact hle p
  · refine iff_of_true (fun p => (hsame p).trans_le (hle p)) ?_
    cases a with
    | proceed c args gate =>
      intro call row hcall hrow href
      obtain ⟨req, sess, hr, he⟩ := proceed_replays (s := s) (c := c) hrow href
      have hcount := hsame row.1.publicId
      rw [step_proceed hcall hs, he, replays_commitReplay s.db hr, if_pos rfl] at hcount
      omega
    | _ => trivial

/-- Over every interleaving of replay calls, approvals, executions and administration, the
committed replays of every delivery stay within its failures, with every other call
refused, exactly when no call commits a replay of a delivery that was replayed since the
call read it. -/
theorem one_replay_per_failure_iff (settings : Settings) (as : List DeskAction) :
    (Throughout (Desk.step settings) OneReplayPerFailure Desk.init as ∧
      Along (Desk.step settings) (OthersRefused settings) Desk.init as) ↔
    Along (Desk.step settings) NotReplayedSinceRead Desk.init as := by
  have hothers : Along (Desk.step settings) (OthersRefused settings) Desk.init as :=
    along_of_forall fun a _ s => others_refused settings s a
  rw [and_iff_left hothers]
  apply throughout_iff_along (I := fun s => DeskSound s ∧ OutboxMatches s.db.tables)
  · rintro s a s' ⟨h, ho⟩ _ hs
    exact ⟨sound_step h hs, outbox_matches_step ho hs⟩
  · rintro s a s' ⟨h, ho⟩ hp hs
    exact one_replay_step h ho hp hs
  · intro s a _ _ hs
    cases a with
    | proceed c args gate =>
      intro call row hcall
      simp [Desk.step, Desk.act, hcall] at hs
    | _ => trivial
  · exact ⟨desk_sound_init, outbox_matches_init⟩
  · exact (one_replay_iff desk_sound_init outbox_matches_init).mpr fun p => Nat.zero_le 1

/-- Two operators replay the same FAILED delivery. -/
def twoReplaysRun : List DeskAction :=
  failedDesk ++ [.readReplay 0 (.single false) 10, .readReplay 1 (.single false) 10,
    .proceed 0 opsArgs freeGate, .proceed 1 opsArgs freeGate]

theorem overlapping_replays_both_commit :
    ¬ (Throughout (Desk.step {}) OneReplayPerFailure Desk.init twoReplaysRun ∧
      Along (Desk.step {}) (OthersRefused {}) Desk.init twoReplaysRun) := by
  rintro ⟨h, -⟩
  obtain ⟨s, hs, d, hd, htwo, hone⟩ : ∃ s, exec (Desk.step {}) Desk.init twoReplaysRun = some s ∧
      ∃ d ∈ s.db.tables.deliveries, s.db.tables.replays d.publicId = 2 ∧
        s.history.failures.count d.id = 1 := ⟨_, rfl, by decide +kernel⟩
  have hle := (h.last hs).replays d hd
  omega

end PartnerHub.Outbound
