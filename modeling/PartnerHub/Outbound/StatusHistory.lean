import PartnerHub.Outbound.Transactions

/-!
# The committed status history

The transition table is checked against the status a transaction read, not against the
row it overwrites. Executions that record an attempt are nevertheless safe: attempt
numbers have no gaps, so a stale copy finds its number taken. The branches without an
attempt row, and replays, are safe only while the row has not moved on.
-/
namespace PartnerHub.Outbound

open PartnerHub.Domain PartnerHub.Lib PartnerHub.Lib.Slots PartnerHub.Lib.System

/-- A step changes each committed status along an edge of the state machine, or not
at all. -/
def KeepsHistory (settings : Settings) (s : Txns) (a : TxnAction) : Prop :=
  ∀ s', s.step settings a = some s' → ∀ d ∈ s.db.tables.deliveries,
    ∀ d' ∈ s'.db.tables.deliveries, d'.id = d.id →
      d'.status = d.status ∨ CommittedEdge d.status d'.status

/-- DELIVERING is never committed. -/
def NoneDelivering (s : Txns) : Prop :=
  ∀ d ∈ s.db.tables.deliveries, d.status ≠ .delivering

/-- The condition on a step. A transaction without an attempt row (circuit open, missing
secret) that commits does so while the row is still open, a missing-secret failure
moreover while no other execution has read the delivery; a replay commits while the row
is still FAILED, or REPLAYING already. -/
def Orderly (settings : Settings) (s : Txns) : TxnAction → Prop
  | .commit w input => ∀ ctx sess pub out db', s.workers w = some ctx →
      processDelivery settings ctx input = .ok (.commit sess pub out) →
      s.db.commit sess = .ok db' → sess.attempt = none →
        (∀ d ∈ s.db.tables.deliveries, d.id = ctx.delivery.id → d.status.Open) ∧
        (sess.deadLetter ≠ none → ∀ w' ctx', w' ≠ w → s.workers w' = some ctx' →
          ctx'.delivery.id ≠ ctx.delivery.id)
  | .commitReplay r _ => ∀ row, s.replays r = some row →
      ∀ d ∈ s.db.tables.deliveries, d.id = row.1.id → d.status = .failed ∨ d.status = .replaying
  | _ => True

/-- The attempt numbers of a delivery are 1 to `k`, without gaps. -/
def NumberedTo (t : Tables) (deliveryId k : Nat) : Prop :=
  ∀ n, t.HasAttempt deliveryId n ↔ 1 ≤ n ∧ n ≤ k

/-- The invariant of orderly runs, for one delivery: `k` attempts are recorded, the
counter is at most `k`, and every open copy of it lies behind. -/
structure RowOrderly (s : Txns) (d : Delivery) (k : Nat) : Prop where
  settled : d.status ≠ .delivering
  numbered : NumberedTo s.db.tables d.id k
  count_le : d.attemptCount ≤ k
  copies : ∀ w ctx, s.workers w = some ctx → ctx.delivery.status.Open →
    ctx.delivery.id = d.id → ctx.delivery.attemptCount ≤ k ∧
      (ctx.delivery.attemptCount + 1 ≤ k ∨ d.status.Open)

structure TxnsOrderly (s : Txns) : Prop where
  row : ∀ d ∈ s.db.tables.deliveries, ∃ k, RowOrderly s d k
  copy : ∀ w ctx, s.workers w = some ctx → ∃ d ∈ s.db.tables.deliveries, d.id = ctx.delivery.id

theorem orderly_init : TxnsOrderly Txns.init := by
  constructor <;> simp [Txns.init, Db.empty]

theorem hasAttempt_iff_of_eq {t t' : Tables} (h : t'.attempts = t.attempts) (i n : Nat) :
    t'.HasAttempt i n ↔ t.HasAttempt i n := by
  rw [Tables.HasAttempt, Tables.HasAttempt, h]

section Commit

variable {settings : Settings} {s s' : Txns} {w : Nat} {input : ProcessInput} {ctx : Context}
  {sess : Session} {pub : Option Message} {out : ProcessOutcome}

/-- A commit that records an attempt found its number free: the copy has exactly the
recorded attempts, and the row is still open. -/
theorem attempt_commit {d : Delivery} {k : Nat} (hrow : RowOrderly s d k)
    (hctx : s.workers w = some ctx)
    (hv : processDelivery settings ctx input = .ok (.commit sess pub out))
    (hc : s.db.commit sess = .ok s'.db) (hid : d.id = ctx.delivery.id)
    (ha : sess.attempt ≠ none) : ctx.delivery.attemptCount = k ∧ d.status.Open := by
  obtain ⟨hopen, hdec⟩ := process_decided hv
  obtain ⟨a, hat⟩ := Option.ne_none_iff_exists'.mp ha
  have hn := hdec.numbers hat
  obtain ⟨hle, hor⟩ := hrow.copies w ctx hctx hopen hid.symm
  have hfree : ¬ ctx.delivery.attemptCount + 1 ≤ k := by
    intro hlt
    have htaken := (hrow.numbered (ctx.delivery.attemptCount + 1)).mpr ⟨by omega, hlt⟩
    refine (Db.commit_ok.mp hc).2.2.1 ⟨a, hat, ?_⟩
    rwa [hn.delivery, hn.number, ← hid]
  exact ⟨by omega, hor.resolve_left hfree⟩

/-- Whichever branch commits, the row it overwrites is open. -/
theorem commit_overwrites_open {d : Delivery} {k : Nat} (hrow : RowOrderly s d k)
    (hd : d ∈ s.db.tables.deliveries) (hok : Orderly settings s (.commit w input))
    (hctx : s.workers w = some ctx)
    (hv : processDelivery settings ctx input = .ok (.commit sess pub out))
    (hc : s.db.commit sess = .ok s'.db) (hid : d.id = ctx.delivery.id) : d.status.Open := by
  by_cases ha : sess.attempt = none
  · exact (hok ctx sess pub out _ hctx hv hc ha).1 d hd hid
  · exact (attempt_commit hrow hctx hv hc hid ha).2

/-- The row a commit writes stays orderly. -/
theorem rowOrderly_written {d : Delivery} {k : Nat} (hrow : RowOrderly s d k)
    (hok : Orderly settings s (.commit w input)) (hctx : s.workers w = some ctx)
    (hv : processDelivery settings ctx input = .ok (.commit sess pub out))
    (hc : s.db.commit sess = .ok s'.db) (hw : s'.workers = Function.update s.workers w none)
    (hid : d.id = ctx.delivery.id) :
    ∃ k', RowOrderly s' (flushDelivery ctx.delivery sess.delivery d) k' := by
  obtain ⟨hopen, hdec⟩ := process_decided hv
  have hcopies : ∀ w' ctx', s'.workers w' = some ctx' → s.workers w' = some ctx' ∧ w' ≠ w := by
    intro w' ctx' h
    rw [hw] at h
    exact update_none_some h
  by_cases ha : sess.attempt = none
  · refine ⟨k, ?_, ?_, ?_, ?_⟩
    · rcases hdec.status_cases with he | he | he <;> simp [flushDelivery, he]
    · intro n
      rw [hasAttempt_commit hdec hc]
      simp only [ha, ne_eq, not_true_eq_false, false_and, or_false]
      exact hrow.numbered n
    · rcases hdec.counter_cases with he | ⟨-, hne⟩
      · simpa [flushDelivery, he] using hrow.count_le
      · exact absurd ha hne
    · intro w' ctx' h ho hid'
      obtain ⟨hs, hne⟩ := hcopies w' ctx' h
      refine ⟨(hrow.copies w' ctx' hs ho hid').1, .inr ?_⟩
      rcases hdec.without_attempt ha with he | hletter
      · simp [flushDelivery, he]
      · exact absurd (hid'.trans hid)
          ((hok ctx sess pub out _ hctx hv hc ha).2 hletter w' ctx' hne hs)
  · obtain ⟨hk, -⟩ := attempt_commit hrow hctx hv hc hid ha
    refine ⟨k + 1, ?_, ?_, ?_, ?_⟩
    · rcases hdec.status_cases with he | he | he <;> simp [flushDelivery, he]
    · intro n
      rw [hasAttempt_commit hdec hc]
      change s.db.tables.HasAttempt d.id n ∨ _ ↔ _
      rw [hrow.numbered n]
      simp only [ne_eq, ha, not_false_eq_true, true_and]
      have : (flushDelivery ctx.delivery sess.delivery d).id = ctx.delivery.id := hid
      simp only [this, true_and]
      omega
    · rcases hdec.counter_cases with he | ⟨he, -⟩
      · have := hrow.count_le
        simp only [flushDelivery, he, written_unchanged]
        omega
      · simp [flushDelivery, he, written, hk]
    · intro w' ctx' h ho hid'
      obtain ⟨hs, -⟩ := hcopies w' ctx' h
      have hle := (hrow.copies w' ctx' hs ho hid').1
      exact ⟨by omega, .inl (by omega)⟩

/-- Rows of other deliveries are not concerned. -/
theorem rowOrderly_other {d : Delivery} {k : Nat} (hrow : RowOrderly s d k)
    (hdec : Decided ctx input sess pub) (hc : s.db.commit sess = .ok s'.db)
    (hw : s'.workers = Function.update s.workers w none) (hid : d.id ≠ ctx.delivery.id) :
    RowOrderly s' d k where
  settled := hrow.settled
  numbered := by
    intro n
    rw [hasAttempt_commit hdec hc]
    simp only [hid, false_and, and_false, or_false]
    exact hrow.numbered n
  count_le := hrow.count_le
  copies := by
    intro w' ctx' h
    rw [hw] at h
    exact hrow.copies w' ctx' (update_none_some h).1

theorem orderly_commit (h : TxnsOrderly s) (hok : Orderly settings s (.commit w input))
    (hctx : s.workers w = some ctx)
    (hv : processDelivery settings ctx input = .ok (.commit sess pub out))
    (hc : s.db.commit sess = .ok s'.db) (hw : s'.workers = Function.update s.workers w none) :
    TxnsOrderly s' := by
  obtain ⟨hopen, hdec⟩ := process_decided hv
  refine ⟨?_, ?_⟩
  · intro d' hd'
    obtain ⟨d, hd, rfl⟩ := (mem_commit hdec hc).mp hd'
    obtain ⟨k, hrow⟩ := h.row d hd
    split
    · rename_i hid
      exact rowOrderly_written hrow hok hctx hv hc hw hid
    · rename_i hid
      exact ⟨k, rowOrderly_other hrow hdec hc hw hid⟩
  · intro w' ctx' hw'
    rw [hw] at hw'
    rw [processed_tables hc]
    exact exists_id_flush.mpr (h.copy w' ctx' (update_none_some hw').1)

end Commit

section Replay

variable {s s' : Txns} {row : Delivery × Partner} {req : ReplayRequest} {sess : ReplaySession}

theorem mem_replay (hr : Replays row.1 req sess) (hdb : s'.db = s.db.commitReplay sess)
    {d' : Delivery} : d' ∈ s'.db.tables.deliveries ↔
      ∃ d ∈ s.db.tables.deliveries,
        d' = if d.id = row.1.id then flushDelivery row.1 sess.delivery d else d := by
  rw [hdb, ← hr.loaded_eq]
  exact mem_flush

theorem orderly_replay (h : TxnsOrderly s) (hr : Replays row.1 req sess)
    (hdb : s'.db = s.db.commitReplay sess) (hw : s'.workers = s.workers) : TxnsOrderly s' := by
  have hattempts : s'.db.tables.attempts = s.db.tables.attempts := by
    rw [hdb]
    rfl
  refine ⟨?_, ?_⟩
  · intro d' hd'
    obtain ⟨d, hd, rfl⟩ := (mem_replay hr hdb).mp hd'
    obtain ⟨k, hrow⟩ := h.row d hd
    have hnum : NumberedTo s'.db.tables d.id k := fun n =>
      (hasAttempt_iff_of_eq hattempts d.id n).trans (hrow.numbered n)
    refine ⟨k, ?_⟩
    split
    · refine ⟨by simp [flushDelivery, hr.delivery_eq], hnum, ?_, ?_⟩
      · have hle := hrow.count_le
        simp only [flushDelivery, hr.delivery_eq, written]
        split_ifs <;> omega
      · intro w ctx hctx ho hid
        rw [hw] at hctx
        exact ⟨(hrow.copies w ctx hctx ho hid).1, .inr (by simp [flushDelivery, hr.delivery_eq])⟩
    · refine ⟨hrow.settled, hnum, hrow.count_le, ?_⟩
      rw [hw]
      exact hrow.copies
  · intro w ctx hctx
    rw [hw] at hctx
    rw [hdb]
    exact exists_id_flush.mpr (h.copy w ctx hctx)

end Replay

theorem orderly_atomic {s s' : Txns} {rows : List Delivery} {events : List OutboxEvent}
    (h : TxnsOrderly s) (hw : s'.workers = s.workers)
    (ha : Adds s.db.tables s'.db.tables rows events) : TxnsOrderly s' := by
  refine ⟨?_, ?_⟩
  · intro d hd
    rw [ha.deliveries] at hd
    rcases List.mem_append.mp hd with hold | hnew
    · obtain ⟨k, hrow⟩ := h.row d hold
      refine ⟨k, hrow.settled, ?_, hrow.count_le, hw ▸ hrow.copies⟩
      exact fun n => (hasAttempt_iff_of_eq ha.attempts d.id n).trans (hrow.numbered n)
    · obtain ⟨hpend, hzero⟩ := ha.pending d hnew
      have hlt := ha.fresh d hnew
      refine ⟨0, by simp [hpend], ?_, hzero.le, ?_⟩
      · intro n
        rw [hasAttempt_iff_of_eq ha.attempts]
        refine iff_of_false ?_ (by omega)
        rintro ⟨a, hat, hid, -⟩
        obtain ⟨d₀, hd₀, hi⟩ := s.db.consistent.attempt_delivery a hat
        have hle := s.db.consistent.delivery_seq d₀ hd₀
        omega
      · intro w ctx hctx _ hid
        rw [hw] at hctx
        obtain ⟨d₀, hd₀, hi⟩ := h.copy w ctx hctx
        have hle := s.db.consistent.delivery_seq d₀ hd₀
        omega
  · intro w ctx hctx
    rw [hw] at hctx
    obtain ⟨d, hd, hi⟩ := h.copy w ctx hctx
    exact ⟨d, ha.deliveries ▸ List.mem_append_left _ hd, hi⟩

theorem orderly_read {s s' : Txns} {w : Nat} {ctx : Context} (h : TxnsOrderly s)
    (hdb : s'.db = s.db) (hw : s'.workers = Function.update s.workers w (some ctx))
    (hmem : ctx.delivery ∈ s.db.tables.deliveries) : TxnsOrderly s' := by
  have hcases : ∀ w' ctx', s'.workers w' = some ctx' → s.workers w' = some ctx' ∨ ctx' = ctx := by
    intro w' ctx' h'
    rw [hw] at h'
    by_cases he : w' = w
    · subst he
      simp only [Function.update_self, Option.some.injEq] at h'
      exact .inr h'.symm
    · rw [Function.update_of_ne he] at h'
      exact .inl h'
  refine ⟨?_, ?_⟩
  · intro d hd
    rw [hdb] at hd
    obtain ⟨k, hrow⟩ := h.row d hd
    refine ⟨k, hrow.settled, hdb ▸ hrow.numbered, hrow.count_le, ?_⟩
    intro w' ctx' h' ho hid
    rcases hcases w' ctx' h' with hold | rfl
    · exact hrow.copies w' ctx' hold ho hid
    · obtain rfl := Table.eq_of_unique s.db.consistent.delivery_id hmem hd hid
      exact ⟨hrow.count_le, .inr ho⟩
  · intro w' ctx' h'
    rw [hdb]
    rcases hcases w' ctx' h' with hold | rfl
    · exact h.copy w' ctx' hold
    · exact ⟨ctx'.delivery, hmem, rfl⟩

theorem orderly_idle {s s' : Txns} (h : TxnsOrderly s) (hdb : s'.db = s.db)
    (hw : ∀ w ctx, s'.workers w = some ctx → s.workers w = some ctx) : TxnsOrderly s' := by
  refine ⟨?_, ?_⟩
  · intro d hd
    rw [hdb] at hd
    obtain ⟨k, hrow⟩ := h.row d hd
    exact ⟨k, hrow.settled, hdb ▸ hrow.numbered, hrow.count_le,
      fun w ctx hctx => hrow.copies w ctx (hw w ctx hctx)⟩
  · intro w ctx hctx
    rw [hdb]
    exact h.copy w ctx (hw w ctx hctx)

theorem orderly_step {settings : Settings} {s s' : Txns} {a : TxnAction} (h : TxnsOrderly s)
    (hok : Orderly settings s a) (hs : s.step settings a = some s') : TxnsOrderly s' := by
  cases txnStep_of_step hs with
  | atomic hw ha => exact orderly_atomic h hw ha
  | read hdb hw hmem => exact orderly_read h hdb hw hmem
  | commit hctx hv hc hw => exact orderly_commit h hok hctx hv hc hw
  | replay hrow hr hdb hw => exact orderly_replay h hr hdb hw
  | idle hdb hw => exact orderly_idle h hdb hw

/-- An orderly step changes statuses along the edges only. -/
theorem history_step {settings : Settings} {s : Txns} {a : TxnAction} (h : TxnsOrderly s)
    (hok : Orderly settings s a) : KeepsHistory settings s a := by
  intro s' hs d hd d' hd' hid
  have hsame : d' ∈ s.db.tables.deliveries → d'.status = d.status := fun hmem => by
    rw [Table.eq_of_unique s.db.consistent.delivery_id hmem hd hid]
  cases txnStep_of_step hs with
  | atomic hw ha =>
    rw [ha.deliveries] at hd'
    rcases List.mem_append.mp hd' with hold | hnew
    · exact .inl (hsame hold)
    · have hlt := ha.fresh d' hnew
      have hle := s.db.consistent.delivery_seq d hd
      omega
  | read hdb hw hmem => exact .inl (hsame (hdb ▸ hd'))
  | commit hctx hv hc hw =>
    obtain ⟨-, hdec⟩ := process_decided hv
    obtain ⟨d₀, hd₀, rfl⟩ := (mem_commit hdec hc).mp hd'
    have hkey : d₀.id = d.id := by
      split at hid <;> exact hid
    obtain rfl := Table.eq_of_unique s.db.consistent.delivery_id hd₀ hd hkey
    split
    · rename_i he
      obtain ⟨k, hrow⟩ := h.row d₀ hd
      exact .inr (.inl ⟨commit_overwrites_open hrow hd hok hctx hv hc he, hdec.status_cases⟩)
    · exact .inl rfl
  | @replay r req row sess s' hrow hr hdb hw =>
    obtain ⟨d₀, hd₀, rfl⟩ := (mem_replay hr hdb).mp hd'
    have hkey : d₀.id = d.id := by
      split at hid <;> exact hid
    obtain rfl := Table.eq_of_unique s.db.consistent.delivery_id hd₀ hd hkey
    split
    · rename_i he
      have hto : (flushDelivery row.1 sess.delivery d₀).status = .replaying :=
        congrArg Delivery.status hr.delivery_eq
      rcases hok _ hrow d₀ hd he with hf | hrep
      · exact .inr (.inr ⟨hf, hto⟩)
      · exact .inl (hto.trans hrep.symm)
    · exact .inl rfl
  | idle hdb hw => exact .inl (hsame (hdb ▸ hd'))

/-- No step removes a delivery. -/
theorem delivery_stays {settings : Settings} {s s' : Txns} {a : TxnAction}
    (hs : s.step settings a = some s') {d : Delivery} (hd : d ∈ s.db.tables.deliveries) :
    ∃ d' ∈ s'.db.tables.deliveries, d'.id = d.id := by
  cases txnStep_of_step hs with
  | atomic hw ha => exact ⟨d, ha.deliveries ▸ List.mem_append_left _ hd, rfl⟩
  | read hdb hw hmem => exact ⟨d, hdb ▸ hd, rfl⟩
  | commit hctx hv hc hw =>
    rw [processed_tables hc]
    exact exists_id_flush.mpr ⟨d, hd, rfl⟩
  | replay hrow hr hdb hw =>
    rw [hdb]
    exact exists_id_flush.mpr ⟨d, hd, rfl⟩
  | idle hdb hw => exact ⟨d, hdb ▸ hd, rfl⟩

/-- From DELIVERED no edge leads anywhere. -/
theorem delivered_step {settings : Settings} {s s' : Txns} {a : TxnAction} {n : Nat}
    (h : ∃ d ∈ s.db.tables.deliveries, d.id = n ∧ d.status = .delivered)
    (hk : KeepsHistory settings s a) (hs : s.step settings a = some s') :
    ∃ d ∈ s'.db.tables.deliveries, d.id = n ∧ d.status = .delivered := by
  obtain ⟨d, hd, rfl, hdel⟩ := h
  obtain ⟨d', hd', hid⟩ := delivery_stays hs hd
  refine ⟨d', hd', hid, ?_⟩
  rcases hk s' hs d hd d' hd' hid with he | hedge
  · exact he.trans hdel
  · rw [hdel] at hedge
    rcases hedge with ⟨ho, -⟩ | ⟨hf, -⟩
    · simp at ho
    · cases hf

/-- In every run whose steps are orderly, every committed change of a status is an edge
of the state machine, DELIVERING is never committed, and a delivery that is DELIVERED
at some point of the run is DELIVERED from then on. -/
theorem status_history_respected (settings : Settings) (as : List TxnAction)
    (hok : Along (Txns.step settings) (Orderly settings) Txns.init as) :
    Along (Txns.step settings) (KeepsHistory settings) Txns.init as ∧
    Throughout (Txns.step settings) NoneDelivering Txns.init as ∧
    ∀ pre post s s' n, as = pre ++ post → exec (Txns.step settings) Txns.init pre = some s →
      exec (Txns.step settings) s post = some s' →
      (∃ d ∈ s.db.tables.deliveries, d.id = n ∧ d.status = .delivered) →
      ∃ d ∈ s'.db.tables.deliveries, d.id = n ∧ d.status = .delivered := by
  have hkeep : Along (Txns.step settings) (KeepsHistory settings) Txns.init as :=
    along_of_invariant TxnsOrderly (fun _ _ _ h hok hs => orderly_step h hok hs)
      (fun _ _ h hok => history_step h hok) orderly_init hok
  refine ⟨hkeep, ?_, ?_⟩
  · refine throughout_of_invariant TxnsOrderly (fun _ _ _ h hok hs => orderly_step h hok hs) ?_
      orderly_init hok
    intro s h d hd
    obtain ⟨k, hrow⟩ := h.row d hd
    exact hrow.settled
  · intro pre post s s' n he hpre hpost hdel
    subst he
    exact exec_invariant (fun s => ∃ d ∈ s.db.tables.deliveries, d.id = n ∧ d.status = .delivered)
      (fun _ _ _ h hk hs => delivered_step h hk hs) hdel ((along_append hkeep).2 s hpre) hpost

/-- Two executions read the same PENDING row. -/
def bothReadRun : List TxnAction :=
  acceptedRun.map .operation ++ [.read 0 10, .read 1 10]

/-- Overlapping executions that both record an attempt are orderly: the second one
finds its number taken. -/
theorem overlapping_attempts_orderly :
    Along (Txns.step {}) (Orderly {}) Txns.init
      (bothReadRun ++ [.commit 0 (answer 1 200), .commit 1 (answer 2 503)]) ∧
    Along (Txns.step {}) (KeepsHistory {}) Txns.init
      (bothReadRun ++ [.commit 0 (answer 1 200), .commit 1 (answer 2 503)]) := by
  have hok : Along (Txns.step {}) (Orderly {}) Txns.init
      (bothReadRun ++ [.commit 0 (answer 1 200), .commit 1 (answer 2 503)]) := by
    refine .cons trivial rfl (.cons trivial rfl (.cons trivial rfl (.cons trivial rfl
      (.cons trivial rfl (.cons ?_ rfl (.cons ?_ rfl trivial))))))
    all_goals
      intro ctx sess pub out db' hctx hv hc ha
      cases hctx
      cases hv
      cases ha
  exact ⟨hok, (status_history_respected {} _ hok).1⟩

/-- The second execution meets an open circuit. -/
def deferred : ProcessInput := { answer 2 200 with allowOutbound := false }

/-- It puts a DELIVERED delivery back to RETRYING. -/
theorem stale_defer_reopens_delivered :
    ¬ Along (Txns.step {}) (KeepsHistory {}) Txns.init
      (bothReadRun ++ [.commit 0 (answer 1 200), .commit 1 deferred]) := by
  intro h
  obtain ⟨s, hs, s', hs', d, hd, d', hd', hid, hdel, hret⟩ :
      ∃ s, exec (Txns.step {}) Txns.init (bothReadRun ++ [.commit 0 (answer 1 200)]) = some s ∧
        ∃ s', s.step {} (.commit 1 deferred) = some s' ∧
        ∃ d ∈ s.db.tables.deliveries, ∃ d' ∈ s'.db.tables.deliveries, d'.id = d.id ∧
          d.status = .delivered ∧ d'.status = .retrying :=
    ⟨_, rfl, _, rfl, by decide +kernel⟩
  rw [List.append_cons] at h
  have hlast := ((along_append h).2 s hs).1 s' hs' d hd d' hd' hid
  rw [hdel, hret] at hlast
  revert hlast
  decide

end PartnerHub.Outbound
