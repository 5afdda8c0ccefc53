import PartnerHub.Outbound.StatusHistory

/-!
# SLA facts are written once

`apply_first_success` guards the timestamp against the value it read, which may be old.
What keeps the facts is the attempt row: numbers have no gaps, no counter passes the last
number, and once a success is recorded every counter lies strictly below it, so that each
later attempt repeats a number and its transaction is rolled back as a whole.
-/
namespace PartnerHub.Outbound

open PartnerHub.Domain PartnerHub.Lib PartnerHub.Lib.Slots PartnerHub.Lib.System

/-- The attempt got an answer with a 2xx status. -/
def Succeeded (a : DeliveryAttempt) : Prop :=
  ∃ code ∈ a.httpStatusCode, 200 ≤ code ∧ code < 300

instance (a : DeliveryAttempt) : Decidable (Succeeded a) :=
  inferInstanceAs (Decidable (∃ code ∈ a.httpStatusCode, 200 ≤ code ∧ code < 300))

def Tables.successes (t : Tables) (deliveryId : Nat) : List DeliveryAttempt :=
  (t.attemptsOf deliveryId).filter Succeeded

/-- Two states of a delivery, one after the other: the time of the first success and the
breach flag, once there, stay. -/
structure FactsKept (d d' : Delivery) : Prop where
  firstSuccessAt : d.firstSuccessAt ≠ none → d'.firstSuccessAt = d.firstSuccessAt
  slaBreached : d.slaBreached = true → d'.slaBreached = true

theorem FactsKept.refl (d : Delivery) : FactsKept d d := ⟨fun _ => rfl, fun h => h⟩

theorem FactsKept.trans {d d' d'' : Delivery} (h : FactsKept d d') (h' : FactsKept d' d'') :
    FactsKept d d'' := by
  refine ⟨?_, fun hb => h'.slaBreached (h.slaBreached hb)⟩
  intro hne
  have he := h.firstSuccessAt hne
  exact (h'.firstSuccessAt (he ▸ hne)).trans he

/-- A 2xx row is exactly a row the processor classifies as a success. -/
theorem succeeded_iff_class {ctx : Context} {input : ProcessInput} {post : OutboundPostResult}
    (h : postOutbound input.reply input.durationMs = .ok post) :
    Succeeded (attemptRow ctx input post) ↔
      ctx.classOf (attemptRow ctx input post) = .success := by
  unfold postOutbound at h
  split at h
  · obtain rfl := Except.ok.inj h
    simp only [Succeeded, attemptRow, Context.classOf, networkErrorFromResult, classifyHttpOutcome,
      Option.mem_some_iff, exists_eq_left']
    split_ifs <;> simp_all
  all_goals cases h
  · simp [Succeeded, attemptRow, Context.classOf, networkErrorFromResult, classifyHttpOutcome]
  · simp [Succeeded, attemptRow, Context.classOf, networkErrorFromResult, classifyHttpOutcome]
  · simp only [Succeeded, attemptRow, Context.classOf, networkErrorFromResult]
    split_ifs <;> simp [classifyHttpOutcome]

/-- No execution or row has a counter at or above `k`. -/
def CountersBelow (s : Txns) (d : Delivery) (k : Nat) : Prop :=
  d.attemptCount < k ∧
    ∀ w ctx, s.workers w = some ctx → ctx.delivery.id = d.id → ctx.delivery.attemptCount < k

theorem CountersBelow.mono {s : Txns} {d : Delivery} {m n : Nat} (h : CountersBelow s d m)
    (hle : m ≤ n) : CountersBelow s d n :=
  ⟨h.1.trans_le hle, fun w ctx hctx hid => (h.2 w ctx hctx hid).trans_le hle⟩

/-- The invariant of one delivery with `k` recorded attempts. -/
structure FactsGuarded (s : Txns) (d : Delivery) (k : Nat) : Prop where
  numbered : NumberedTo s.db.tables d.id k
  counters : CountersBelow s d (k + 1)
  closed : ∀ a ∈ s.db.tables.attemptsOf d.id, Succeeded a → CountersBelow s d k
  facts : d.firstSuccessAt ≠ none ∨ d.slaBreached = true →
    ∃ a ∈ s.db.tables.attemptsOf d.id, Succeeded a
  once : (s.db.tables.successes d.id).length ≤ 1

structure TxnsGuarded (s : Txns) : Prop where
  row : ∀ d ∈ s.db.tables.deliveries, ∃ k, FactsGuarded s d k
  copy : ∀ w ctx, s.workers w = some ctx → ∃ d ∈ s.db.tables.deliveries, d.id = ctx.delivery.id

theorem guarded_init : TxnsGuarded Txns.init := by
  constructor <;> simp [Txns.init, Db.empty]

/-- A row keeps its guard when its attempts, its counter and its facts stay and no new
copy of it is above the counter. -/
theorem FactsGuarded.frame {s s' : Txns} {d d' : Delivery} {k : Nat} (h : FactsGuarded s d k)
    (hid : d'.id = d.id) (ha : s'.db.tables.attemptsOf d.id = s.db.tables.attemptsOf d.id)
    (hc : ∀ m, CountersBelow s d m → CountersBelow s' d' m)
    (hf : d'.firstSuccessAt = d.firstSuccessAt) (hb : d'.slaBreached = d.slaBreached) :
    FactsGuarded s' d' k where
  numbered := by
    intro n
    rw [hid, hasAttempt_iff_mem, ha, ← hasAttempt_iff_mem]
    exact h.numbered n
  counters := hc _ h.counters
  closed := by
    rw [hid, ha]
    exact fun a hmem hs => hc _ (h.closed a hmem hs)
  facts := by
    rw [hid, ha, hf, hb]
    exact h.facts
  once := by
    rw [Tables.successes, hid, ha]
    exact h.once

section Commit

variable {settings : Settings} {s s' : Txns} {w : Nat} {input : ProcessInput} {ctx : Context}
  {sess : Session} {pub : Option Message} {out : ProcessOutcome}

/-- A success leaves the counter as it was. -/
theorem Decided.success_counter (h : Decided ctx input sess pub) {a : DeliveryAttempt}
    (ha : sess.attempt = some a) (hc : ctx.classOf a = .success) :
    sess.delivery.attemptCount = ctx.delivery.attemptCount := by
  cases h with
  | missingSecret hsecret hd | circuitOpen hd | success hn hc' hat hf hd | poison hn hc' hd =>
    rw [hd]
  | retry hn hc' hlt hd | exhausted hn hc' hge hd =>
    cases ha
    rw [hc] at hc'
    cases hc'

/-- Only a success changes the SLA facts. -/
theorem Decided.facts_unchanged (h : Decided ctx input sess pub)
    (hn : ∀ a, sess.attempt = some a → ctx.classOf a ≠ .success) :
    sess.delivery.firstSuccessAt = ctx.delivery.firstSuccessAt ∧
      sess.delivery.slaBreached = ctx.delivery.slaBreached := by
  cases h with
  | missingSecret hsecret hd | circuitOpen hd | poison hn' hc hd | retry hn' hc hlt hd
  | exhausted hn' hc hge hd => simp [hd]
  | success hn' hc hat hf hd => exact absurd hc (hn _ rfl)

theorem flush_facts_unchanged (hdec : Decided ctx input sess pub)
    (hn : ∀ a, sess.attempt = some a → ctx.classOf a ≠ .success) (d : Delivery) :
    (flushDelivery ctx.delivery sess.delivery d).firstSuccessAt = d.firstSuccessAt ∧
      (flushDelivery ctx.delivery sess.delivery d).slaBreached = d.slaBreached := by
  obtain ⟨hf, hb⟩ := hdec.facts_unchanged hn
  simp [flushDelivery, hf, hb]

/-- A commit that records an attempt worked on a copy with all recorded attempts, none
of which succeeded. -/
theorem FactsGuarded.attempt_free {d : Delivery} {k : Nat} (h : FactsGuarded s d k)
    (hctx : s.workers w = some ctx) (hdec : Decided ctx input sess pub)
    (hc : s.db.commit sess = .ok s'.db) (hid : d.id = ctx.delivery.id)
    {a : DeliveryAttempt} (ha : sess.attempt = some a) :
    ctx.delivery.attemptCount = k ∧
      ∀ b ∈ s.db.tables.attemptsOf d.id, ¬ Succeeded b := by
  have hn := hdec.numbers ha
  have hlt := h.counters.2 w ctx hctx hid.symm
  have hfree : ¬ ctx.delivery.attemptCount + 1 ≤ k := by
    intro hle
    have htaken := (h.numbered (ctx.delivery.attemptCount + 1)).mpr ⟨by omega, hle⟩
    refine (Db.commit_ok.mp hc).2.2.1 ⟨a, ha, ?_⟩
    rwa [hn.delivery, hn.number, ← hid]
  refine ⟨by omega, ?_⟩
  intro b hb hs
  have hbelow := (h.closed b hb hs).2 w ctx hctx hid.symm
  omega

/-- The copies that are left after a commit were there before. -/
theorem countersBelow_commit {d d' : Delivery} {m : Nat} (h : CountersBelow s d m)
    (hw : s'.workers = Function.update s.workers w none) (hid : d'.id = d.id)
    (hc : d'.attemptCount < m) : CountersBelow s' d' m := by
  refine ⟨hc, ?_⟩
  intro w' ctx' hctx' hid'
  rw [hw] at hctx'
  exact h.2 w' ctx' (update_none_some hctx').1 (hid'.trans hid)

/-- Without an attempt row neither the counter nor the facts change. -/
theorem guarded_without_attempt {d : Delivery} {k : Nat} (h : FactsGuarded s d k)
    (hdec : Decided ctx input sess pub) (hc : s.db.commit sess = .ok s'.db)
    (hw : s'.workers = Function.update s.workers w none) (ha : sess.attempt = none) :
    FactsGuarded s' (flushDelivery ctx.delivery sess.delivery d) k ∧
      FactsKept d (flushDelivery ctx.delivery sess.delivery d) := by
  have hnone : ∀ a, sess.attempt = some a → ctx.classOf a ≠ .success := by simp [ha]
  obtain ⟨hf, hb⟩ := flush_facts_unchanged hdec hnone d
  have hcount : (flushDelivery ctx.delivery sess.delivery d).attemptCount = d.attemptCount := by
    rcases hdec.counter_cases with he | ⟨-, hne⟩
    · simp [flushDelivery, he]
    · exact absurd ha hne
  have hattempts : s'.db.tables.attemptsOf d.id = s.db.tables.attemptsOf d.id := by
    rw [attemptsOf_processed hdec hc, ha]
    simp
  refine ⟨h.frame rfl hattempts ?_ hf hb, ?_⟩
  · intro m hm
    exact countersBelow_commit hm hw rfl (hcount ▸ hm.1)
  · exact ⟨fun _ => hf, fun hset => hb.trans hset⟩

/-- The attempt row takes the next number. -/
theorem numbered_with_attempt {d : Delivery} {k : Nat} (h : NumberedTo s.db.tables d.id k)
    (hdec : Decided ctx input sess pub) (hc : s.db.commit sess = .ok s'.db)
    (hid : d.id = ctx.delivery.id) (hk : ctx.delivery.attemptCount = k)
    (ha : sess.attempt ≠ none) : NumberedTo s'.db.tables d.id (k + 1) := by
  intro n
  rw [hasAttempt_commit hdec hc, h n]
  simp only [ha, ne_eq, not_false_eq_true, hid, true_and]
  omega

/-- The counter goes up by one at most. -/
theorem counter_with_attempt {d : Delivery} {k : Nat} (hdec : Decided ctx input sess pub)
    (hk : ctx.delivery.attemptCount = k) (hlt : d.attemptCount < k + 1) :
    (flushDelivery ctx.delivery sess.delivery d).attemptCount < k + 1 + 1 := by
  rcases hdec.counter_cases with he | ⟨he, -⟩
  · simp only [flushDelivery, he, written_unchanged]
    omega
  · simp only [flushDelivery, he, written, hk]
    split <;> omega

/-- A commit with an attempt row found no success: it closes the delivery when it is one,
and leaves the facts alone when it is none. -/
theorem guarded_with_attempt {d : Delivery} {k : Nat} (h : FactsGuarded s d k)
    (hctx : s.workers w = some ctx)
    (hv : processDelivery settings ctx input = .ok (.commit sess pub out))
    (hc : s.db.commit sess = .ok s'.db) (hw : s'.workers = Function.update s.workers w none)
    (hid : d.id = ctx.delivery.id) {a : DeliveryAttempt} (ha : sess.attempt = some a) :
    FactsGuarded s' (flushDelivery ctx.delivery sess.delivery d) (k + 1) ∧
      FactsKept d (flushDelivery ctx.delivery sess.delivery d) := by
  obtain ⟨hopen, hdec⟩ := process_decided hv
  obtain ⟨hk, hnone⟩ := h.attempt_free hctx hdec hc hid ha
  have hclass : Succeeded a ↔ ctx.classOf a = .success := by
    obtain ⟨post, hpost, rfl⟩ := process_attempt hv ha
    exact succeeded_iff_class hpost
  have hattempts : s'.db.tables.attemptsOf d.id = s.db.tables.attemptsOf d.id ++ [a] := by
    rw [attemptsOf_processed hdec hc, if_pos hid, ha]
    rfl
  have hclear : ¬ (d.firstSuccessAt ≠ none ∨ d.slaBreached = true) := by
    intro hset
    obtain ⟨b, hb, hs⟩ := h.facts hset
    exact hnone b hb hs
  refine ⟨⟨?_, ?_, ?_, ?_, ?_⟩, ?_⟩
  · exact numbered_with_attempt h.numbered hdec hc hid hk (by simp [ha])
  · have hcount := counter_with_attempt hdec hk h.counters.1
    exact countersBelow_commit (h.counters.mono (Nat.le_succ _)) hw rfl hcount
  · intro b hb hs
    rw [show (flushDelivery ctx.delivery sess.delivery d).id = d.id from rfl, hattempts] at hb
    rcases List.mem_append.mp hb with hold | hnew
    · exact absurd hs (hnone b hold)
    · obtain rfl := List.mem_singleton.mp hnew
      have he := hdec.success_counter ha (hclass.mp hs)
      refine countersBelow_commit h.counters hw rfl ?_
      simp only [flushDelivery, he, written_unchanged]
      exact h.counters.1
  · intro hset
    change ∃ b ∈ s'.db.tables.attemptsOf d.id, _
    refine ⟨a, by simp [hattempts], ?_⟩
    by_contra hfail
    have hun : ∀ b, sess.attempt = some b → ctx.classOf b ≠ .success := by
      intro b hb
      obtain rfl := Option.some.inj (ha.symm.trans hb)
      exact fun hcl => hfail (hclass.mpr hcl)
    obtain ⟨hf, hb⟩ := flush_facts_unchanged hdec hun d
    rw [hf, hb] at hset
    exact hclear hset
  · have hnil : (s.db.tables.attemptsOf d.id).filter Succeeded = [] := by
      rw [List.filter_eq_nil_iff]
      simpa using hnone
    change (s'.db.tables.successes d.id).length ≤ 1
    rw [Tables.successes, hattempts, List.filter_append, hnil, List.nil_append]
    exact List.length_filter_le _ _
  · rw [not_or] at hclear
    exact ⟨fun hne => absurd hne hclear.1, fun hb => absurd hb hclear.2⟩

/-- Rows of other deliveries are not concerned. -/
theorem guarded_other {d : Delivery} {k : Nat} (h : FactsGuarded s d k)
    (hdec : Decided ctx input sess pub) (hc : s.db.commit sess = .ok s'.db)
    (hw : s'.workers = Function.update s.workers w none) (hid : d.id ≠ ctx.delivery.id) :
    FactsGuarded s' d k := by
  have hattempts : s'.db.tables.attemptsOf d.id = s.db.tables.attemptsOf d.id := by
    rw [attemptsOf_processed hdec hc, if_neg hid, List.append_nil]
  exact h.frame rfl hattempts (fun m hm => countersBelow_commit hm hw rfl hm.1) rfl rfl

end Commit

/-- What a step leaves of the row `d'`: it is an old row with its facts kept, or new. -/
def GuardedRow (s s' : Txns) (d' : Delivery) : Prop :=
  (∃ k, FactsGuarded s' d' k) ∧
    ((∃ d ∈ s.db.tables.deliveries, d'.id = d.id ∧ FactsKept d d') ∨
      ∀ d ∈ s.db.tables.deliveries, d.id ≠ d'.id)

theorem guardedRow_commit {settings : Settings} {s s' : Txns} {w : Nat} {input : ProcessInput}
    {ctx : Context} {sess : Session} {pub : Option Message} {out : ProcessOutcome}
    (h : TxnsGuarded s) (hctx : s.workers w = some ctx)
    (hv : processDelivery settings ctx input = .ok (.commit sess pub out))
    (hc : s.db.commit sess = .ok s'.db) (hw : s'.workers = Function.update s.workers w none)
    {d' : Delivery} (hd' : d' ∈ s'.db.tables.deliveries) : GuardedRow s s' d' := by
  obtain ⟨-, hdec⟩ := process_decided hv
  obtain ⟨d, hd, rfl⟩ := (mem_commit hdec hc).mp hd'
  obtain ⟨k, hrow⟩ := h.row d hd
  split
  · rename_i hid
    cases ha : sess.attempt with
    | none =>
      obtain ⟨hg, hk⟩ := guarded_without_attempt hrow hdec hc hw ha
      exact ⟨⟨k, hg⟩, .inl ⟨d, hd, rfl, hk⟩⟩
    | some a =>
      obtain ⟨hg, hk⟩ := guarded_with_attempt hrow hctx hv hc hw hid ha
      exact ⟨⟨k + 1, hg⟩, .inl ⟨d, hd, rfl, hk⟩⟩
  · rename_i hid
    exact ⟨⟨k, guarded_other hrow hdec hc hw hid⟩, .inl ⟨d, hd, rfl, .refl d⟩⟩

/-- A replay may clear the counter; it touches neither attempts nor facts. -/
theorem guardedRow_replay {s s' : Txns} {row : Delivery × Partner} {req : ReplayRequest}
    {sess : ReplaySession} (h : TxnsGuarded s) (hr : Replays row.1 req sess)
    (hdb : s'.db = s.db.commitReplay sess) (hw : s'.workers = s.workers) {d' : Delivery}
    (hd' : d' ∈ s'.db.tables.deliveries) : GuardedRow s s' d' := by
  have hattempts : ∀ i, s'.db.tables.attemptsOf i = s.db.tables.attemptsOf i := by
    intro i
    rw [hdb]
    rfl
  obtain ⟨d, hd, rfl⟩ := (mem_replay hr hdb).mp hd'
  obtain ⟨k, hrow⟩ := h.row d hd
  split
  · have hf : (flushDelivery row.1 sess.delivery d).firstSuccessAt = d.firstSuccessAt := by
      simp [flushDelivery, hr.delivery_eq]
    have hb : (flushDelivery row.1 sess.delivery d).slaBreached = d.slaBreached := by
      simp [flushDelivery, hr.delivery_eq]
    refine ⟨⟨k, hrow.frame rfl (hattempts d.id) ?_ hf hb⟩,
      .inl ⟨d, hd, rfl, fun _ => hf, fun hset => hb.trans hset⟩⟩
    intro m hm
    refine ⟨?_, hw ▸ hm.2⟩
    have hlt := hm.1
    simp only [flushDelivery, hr.delivery_eq, written]
    split_ifs <;> omega
  · exact ⟨⟨k, hrow.frame rfl (hattempts d.id) (fun m hm => ⟨hm.1, hw ▸ hm.2⟩) rfl rfl⟩,
      .inl ⟨d, hd, rfl, .refl d⟩⟩

/-- A delivery that an atomic operation adds has no SLA facts yet. -/
theorem atomic_facts (settings : Settings) {db : Db} {op : Op} (hop : op.isAtomic = true)
    {d : Delivery} (hd : d ∈ (db.apply settings op).tables.deliveries) :
    d ∈ db.tables.deliveries ∨ (d.firstSuccessAt = none ∧ d.slaBreached = false) := by
  have hch := apply_change settings db op
  revert hch hd
  generalize db.apply settings op = db'
  intro hd hch
  cases hch with
  | keep => exact .inl hd
  | admin partners endpoints he =>
    rw [he] at hd
    exact .inl hd
  | accepted ha he =>
    rw [he] at hd
    rcases List.mem_append.mp hd with hold | hnew
    · exact .inl hold
    · obtain ⟨e, -, publicId, hb⟩ := ha.built d hnew
      rw [hb]
      exact .inr ⟨rfl, rfl⟩
  | processed | replayed => cases hop
  | deadLetter hw =>
    rw [hw.frame] at hd
    exact .inl hd

theorem guardedRow_atomic {s s' : Txns} {rows : List Delivery} {events : List OutboxEvent}
    (h : TxnsGuarded s) (hw : s'.workers = s.workers)
    (ha : Adds s.db.tables s'.db.tables rows events) {d' : Delivery}
    (hd' : d' ∈ s'.db.tables.deliveries)
    (hfacts : d' ∈ s.db.tables.deliveries ∨ (d'.firstSuccessAt = none ∧ d'.slaBreached = false)) :
    GuardedRow s s' d' := by
  have hattempts : ∀ i, s'.db.tables.attemptsOf i = s.db.tables.attemptsOf i := by
    intro i
    rw [Tables.attemptsOf, ha.attempts, Tables.attemptsOf]
  by_cases hold : d' ∈ s.db.tables.deliveries
  · obtain ⟨k, hrow⟩ := h.row d' hold
    exact ⟨⟨k, hrow.frame rfl (hattempts d'.id) (fun m hm => ⟨hm.1, hw ▸ hm.2⟩) rfl rfl⟩,
      .inl ⟨d', hold, rfl, .refl d'⟩⟩
  · obtain ⟨hf, hb⟩ := hfacts.resolve_left hold
    rw [ha.deliveries] at hd'
    have hnew := (List.mem_append.mp hd').resolve_left hold
    obtain ⟨-, hzero⟩ := ha.pending d' hnew
    have hfresh : ∀ d ∈ s.db.tables.deliveries, d.id ≠ d'.id := by
      intro d hd
      have hle := s.db.consistent.delivery_seq d hd
      have hlt := ha.fresh d' hnew
      omega
    have hnil : s'.db.tables.attemptsOf d'.id = [] := by
      rw [hattempts, Tables.attemptsOf, List.filter_eq_nil_iff]
      intro a hat
      obtain ⟨d, hd, hi⟩ := s.db.consistent.attempt_delivery a hat
      simpa [← hi] using hfresh d hd
    refine ⟨⟨0, ?_, ⟨by omega, ?_⟩, by simp [hnil], by simp [hf, hb], by simp [Tables.successes, hnil]⟩,
      .inr hfresh⟩
    · intro n
      rw [hasAttempt_iff_mem, hnil]
      refine iff_of_false (by simp) (by omega)
    · intro w ctx hctx hid
      rw [hw] at hctx
      obtain ⟨d, hd, hi⟩ := h.copy w ctx hctx
      exact absurd (hi.trans hid) (hfresh d hd)

/-- A copy that is read has the counter of the row. -/
theorem guardedRow_read {s s' : Txns} {w : Nat} {ctx : Context} (h : TxnsGuarded s)
    (hdb : s'.db = s.db) (hw : s'.workers = Function.update s.workers w (some ctx))
    (hmem : ctx.delivery ∈ s.db.tables.deliveries) {d' : Delivery}
    (hd' : d' ∈ s'.db.tables.deliveries) : GuardedRow s s' d' := by
  rw [hdb] at hd'
  obtain ⟨k, hrow⟩ := h.row d' hd'
  refine ⟨⟨k, hrow.frame rfl (by rw [hdb]) ?_ rfl rfl⟩, .inl ⟨d', hd', rfl, .refl d'⟩⟩
  intro m hm
  refine ⟨hm.1, ?_⟩
  intro w' ctx' hctx' hid
  rw [hw] at hctx'
  rcases update_some_cases hctx' with ⟨-, hnew⟩ | ⟨-, hold⟩
  · obtain rfl := Option.some.inj hnew
    rw [Table.eq_of_unique s.db.consistent.delivery_id hmem hd' hid]
    exact hm.1
  · exact hm.2 w' ctx' hold hid

theorem guardedRow_step {settings : Settings} {s s' : Txns} {a : TxnAction} (h : TxnsGuarded s)
    (hs : s.step settings a = some s') {d' : Delivery} (hd' : d' ∈ s'.db.tables.deliveries) :
    GuardedRow s s' d' := by
  cases txnStep_of_step hs with
  | @atomic op rows events _ hw ha =>
    simp only [Txns.step] at hs
    split at hs
    · rename_i hop
      obtain rfl := Option.some.inj hs
      exact guardedRow_atomic h hw ha hd' (atomic_facts settings hop hd')
    · cases hs
  | read hdb hw hmem => exact guardedRow_read h hdb hw hmem hd'
  | commit hctx hv hc hw => exact guardedRow_commit h hctx hv hc hw hd'
  | replay hrow hr hdb hw => exact guardedRow_replay h hr hdb hw hd'
  | idle hdb hw =>
    rw [hdb] at hd'
    obtain ⟨k, hrow⟩ := h.row d' hd'
    refine ⟨⟨k, hrow.frame rfl (by rw [hdb]) ?_ rfl rfl⟩, .inl ⟨d', hd', rfl, .refl d'⟩⟩
    exact fun m hm => ⟨hm.1, fun w ctx hctx => hm.2 w ctx (hw w ctx hctx)⟩

theorem copy_step {settings : Settings} {s s' : Txns} {a : TxnAction}
    (h : ∀ w ctx, s.workers w = some ctx → ∃ d ∈ s.db.tables.deliveries, d.id = ctx.delivery.id)
    (hs : s.step settings a = some s') {w : Nat} {ctx : Context} (hctx : s'.workers w = some ctx) :
    ∃ d ∈ s'.db.tables.deliveries, d.id = ctx.delivery.id := by
  have hstays : (∃ d ∈ s.db.tables.deliveries, d.id = ctx.delivery.id) →
      ∃ d ∈ s'.db.tables.deliveries, d.id = ctx.delivery.id := by
    rintro ⟨d, hd, hi⟩
    obtain ⟨d', hd', hi'⟩ := delivery_stays hs hd
    exact ⟨d', hd', hi'.trans hi⟩
  apply hstays
  cases txnStep_of_step hs with
  | atomic hw ha | replay hrow hr hdb hw => exact h w ctx (hw ▸ hctx)
  | read hdb hw hmem =>
    rw [hw] at hctx
    rcases update_some_cases hctx with ⟨-, hnew⟩ | ⟨-, hold⟩
    · obtain rfl := Option.some.inj hnew
      exact ⟨_, hmem, rfl⟩
    · exact h w ctx hold
  | commit hctx' hv hc hw =>
    rw [hw] at hctx
    exact h w ctx (update_none_some hctx).1
  | idle hdb hw => exact h w ctx (hw w ctx hctx)

theorem guarded_step {settings : Settings} {s s' : Txns} {a : TxnAction} (h : TxnsGuarded s)
    (hs : s.step settings a = some s') : TxnsGuarded s' :=
  ⟨fun _ hd' => (guardedRow_step h hs hd').1, fun _ _ hctx => copy_step h.copy hs hctx⟩

theorem facts_kept_step {settings : Settings} {s s' : Txns} {a : TxnAction} (h : TxnsGuarded s)
    (hs : s.step settings a = some s') {d d' : Delivery} (hd : d ∈ s.db.tables.deliveries)
    (hd' : d' ∈ s'.db.tables.deliveries) (hid : d'.id = d.id) : FactsKept d d' := by
  rcases (guardedRow_step h hs hd').2 with ⟨d₀, hd₀, hid₀, hk⟩ | hfresh
  · rwa [Table.eq_of_unique s.db.consistent.delivery_id hd hd₀ (hid.symm.trans hid₀)]
  · exact absurd hid.symm (hfresh d hd)

theorem guarded_run {settings : Settings} {as : List TxnAction} {s s' : Txns}
    (h : TxnsGuarded s) (hrun : exec (Txns.step settings) s as = some s') : TxnsGuarded s' := by
  have hok : Along (Txns.step settings) (fun _ _ => True) s as := along_of_forall fun _ _ _ => trivial
  exact exec_invariant TxnsGuarded (fun _ _ _ hi _ hs => guarded_step hi hs) h hok hrun

theorem facts_kept_run {settings : Settings} {as : List TxnAction} {s s' : Txns}
    (h : TxnsGuarded s) (hrun : exec (Txns.step settings) s as = some s') {d d' : Delivery}
    (hd : d ∈ s.db.tables.deliveries) (hd' : d' ∈ s'.db.tables.deliveries) (hid : d'.id = d.id) :
    FactsKept d d' := by
  induction as generalizing s d with
  | nil =>
    obtain rfl := Option.some.inj hrun
    rw [Table.eq_of_unique s.db.consistent.delivery_id hd' hd hid]
    exact .refl d
  | cons a as ih =>
    obtain ⟨t, hst, hrest⟩ := Option.bind_eq_some_iff.mp hrun
    obtain ⟨e, he, hei⟩ := delivery_stays hst hd
    exact (facts_kept_step h hst hd he hei).trans
      (ih (guarded_step h hst) hrest he (hid.trans hei.symm))

/-- In every interleaving of executions and replays, each on a copy that may be old, a
delivery never has two 2xx attempts, and between any two committed states its first
success time does not change once it is set and its breach flag is not cleared. -/
theorem sla_facts_write_once (settings : Settings) (before after : List TxnAction) (s s' : Txns)
    (hs : exec (Txns.step settings) Txns.init before = some s)
    (hs' : exec (Txns.step settings) s after = some s') (d : Delivery)
    (hd : d ∈ s.db.tables.deliveries) :
    (s.db.tables.successes d.id).length ≤ 1 ∧
      ∀ d' ∈ s'.db.tables.deliveries, d'.id = d.id →
        (d.firstSuccessAt ≠ none → d'.firstSuccessAt = d.firstSuccessAt) ∧
        (d.slaBreached = true → d'.slaBreached = true) := by
  have hg := guarded_run guarded_init hs
  obtain ⟨k, hrow⟩ := hg.row d hd
  refine ⟨hrow.once, ?_⟩
  intro d' hd' hid
  have hk := facts_kept_run hg hs' hd hd' hid
  exact ⟨hk.firstSuccessAt, hk.slaBreached⟩

/-- Two executions have read the same row and both get a 200; the second one changes
neither the late first success nor the flag. -/
theorem second_success_rolled_back :
    ∃ s s' d, exec (Txns.step {}) Txns.init (bothReadRun ++ [.commit 0 (answer 100 200)]) = some s ∧
      exec (Txns.step {}) s [.commit 1 (answer 2 200)] = some s' ∧
      d ∈ s.db.tables.deliveries ∧ d.firstSuccessAt = some 100 ∧ d.slaBreached = true ∧
      (s.db.tables.successes d.id).length ≤ 1 ∧
      ∀ d' ∈ s'.db.tables.deliveries, d'.id = d.id →
        (d.firstSuccessAt ≠ none → d'.firstSuccessAt = d.firstSuccessAt) ∧
        (d.slaBreached = true → d'.slaBreached = true) := by
  obtain ⟨s, hs, s', hs', d, hd, hf, hb⟩ :
      ∃ s, exec (Txns.step {}) Txns.init (bothReadRun ++ [.commit 0 (answer 100 200)]) = some s ∧
        ∃ s', exec (Txns.step {}) s [.commit 1 (answer 2 200)] = some s' ∧
        ∃ d ∈ s.db.tables.deliveries, d.firstSuccessAt = some 100 ∧ d.slaBreached = true :=
    ⟨_, rfl, _, rfl, by decide +kernel⟩
  exact ⟨s, s', d, hs, hs', hd, hf, hb, sla_facts_write_once {} _ _ s s' hs hs' d hd⟩

end PartnerHub.Outbound
