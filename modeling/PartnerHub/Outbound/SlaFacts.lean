import PartnerHub.Outbound.DeadLetterRounds

/-!
# SLA facts and the analytics that read them

`sla_breached` is written only where a success is recorded. A clock is put next to
the database, every operation is taken at the clock's time, and the figures of
`analytics_service.py` are compared with what the timestamps say.
-/
namespace PartnerHub.Outbound

open PartnerHub.Domain PartnerHub.Lib PartnerHub.Lib.System

/-- `_TERMINAL_STATUSES`. -/
def terminalStatuses : List DeliveryStatus := [.delivered, .failed]

structure PartnerWindowStats where
  delivered : Nat
  failed : Nat
  slaBreaches : Nat
  slaNotBreached : Nat
  deriving DecidableEq, Repr

/-- The body of the loop of `_stats_from_terminal_rows`. -/
def PartnerWindowStats.count (s : PartnerWindowStats) (row : DeliveryStatus × Bool) :
    PartnerWindowStats where
  delivered := if row.1 = .delivered then s.delivered + 1 else s.delivered
  failed := if row.1 = .failed then s.failed + 1 else s.failed
  slaBreaches := if row.2 then s.slaBreaches + 1 else s.slaBreaches
  slaNotBreached := if row.2 then s.slaNotBreached else s.slaNotBreached + 1

/-- `_stats_from_terminal_rows`. -/
def statsFromTerminalRows (rows : List (DeliveryStatus × Bool)) : PartnerWindowStats :=
  rows.foldl PartnerWindowStats.count ⟨0, 0, 0, 0⟩

/-- The WHERE clause of `fetch_partner_terminal_rows`. -/
def InWindow (partnerId : Nat) (windowStart : Time) (d : Delivery) : Prop :=
  d.partnerId = partnerId ∧ windowStart ≤ d.createdAt ∧ d.status ∈ terminalStatuses

instance (partnerId : Nat) (windowStart : Time) (d : Delivery) :
    Decidable (InWindow partnerId windowStart d) :=
  inferInstanceAs (Decidable (_ ∧ _))

/-- `fetch_partner_terminal_rows`. -/
def Tables.fetchPartnerTerminalRows (t : Tables) (partnerId : Nat) (windowStart : Time) :
    List (DeliveryStatus × Bool) :=
  (t.deliveries.filter fun d => InWindow partnerId windowStart d).map fun d =>
    (d.status, d.slaBreached)

theorem foldl_notBreached (rows : List (DeliveryStatus × Bool)) (s : PartnerWindowStats) :
    (rows.foldl PartnerWindowStats.count s).slaNotBreached =
      s.slaNotBreached + rows.countP fun r => !r.2 := by
  induction rows generalizing s with
  | nil => rfl
  | cons r rows ih =>
    rw [List.foldl_cons, ih, List.countP_cons]
    cases hr : r.2 with
    | false =>
      simp only [PartnerWindowStats.count, hr]
      simp
      omega
    | true => simp [PartnerWindowStats.count, hr]

/-- The figure is the number of terminal rows of the window whose flag is clear. -/
theorem notBreached_eq (t : Tables) (partnerId : Nat) (windowStart : Time) :
    (statsFromTerminalRows (t.fetchPartnerTerminalRows partnerId windowStart)).slaNotBreached =
      t.deliveries.countP fun d => InWindow partnerId windowStart d && !d.slaBreached := by
  rw [statsFromTerminalRows, foldl_notBreached, Tables.fetchPartnerTerminalRows, List.countP_map,
    List.countP_filter, Nat.zero_add]
  apply List.countP_congr
  intro d _
  simp [and_comm]

/-- The delivery had its first success at or before the deadline. -/
def TimelySuccess (d : Delivery) : Prop :=
  ∃ t ∈ d.firstSuccessAt, t ≤ d.slaDeadlineAt

instance (d : Delivery) : Decidable (TimelySuccess d) :=
  inferInstanceAs (Decidable (∃ t ∈ d.firstSuccessAt, t ≤ d.slaDeadlineAt))

/-- The database with the wall clock. -/
structure Clocked where
  db : Db
  clock : Time

/-- The same operation, with its clock reading `now`. -/
def Op.takenAt (now : Time) : Op → Op
  | .enqueue partner endpoints req => .enqueue partner endpoints { req with now := now }
  | .process i input => .process i { input with now := now }
  | .replay i req => .replay i { req with scheduledAt := now }
  | op => op

/-- Some time passes, then an operation may be taken. -/
structure Tick where
  elapsed : ℚ≥0
  op : Option Op

def Clocked.now (s : Clocked) (a : Tick) : Time := s.clock + a.elapsed

def Clocked.step (settings : Settings) (s : Clocked) (a : Tick) : Option Clocked :=
  match a.op with
  | none => some ⟨s.db, s.now a⟩
  | some op => some ⟨s.db.apply settings (op.takenAt (s.now a)), s.now a⟩

/-- The completeness of the facts at the clock's time: every overdue terminal delivery
without a timely success is flagged, and what the analytics count as not breached
succeeded in time or is not due yet. -/
def SlaFactsComplete (s : Clocked) : Prop :=
  (∀ d ∈ s.db.tables.deliveries, d.status ∈ terminalStatuses → d.slaDeadlineAt < s.clock →
    ¬ TimelySuccess d → d.slaBreached = true) ∧
  ∀ partnerId windowStart,
    (statsFromTerminalRows (s.db.tables.fetchPartnerTerminalRows partnerId
      windowStart)).slaNotBreached ≤
    s.db.tables.deliveries.countP fun d => InWindow partnerId windowStart d &&
      decide (TimelySuccess d ∨ s.clock ≤ d.slaDeadlineAt)

/-- The SLA facts the code keeps at time `now`. -/
structure SlaRecord (now : Time) (d : Delivery) : Prop where
  delivered : d.status = .delivered →
    ∃ t, d.firstSuccessAt = some t ∧ t ≤ now ∧ (d.slaBreached = true ↔ d.slaDeadlineAt < t)
  undelivered : d.status ≠ .delivered → d.firstSuccessAt = none ∧ d.slaBreached = false

theorem SlaRecord.mono {now now' : Time} {d : Delivery} (h : SlaRecord now d) (hle : now ≤ now') :
    SlaRecord now' d := by
  refine ⟨?_, h.undelivered⟩
  intro hd
  obtain ⟨t, ht, hn, hb⟩ := h.delivered hd
  exact ⟨t, ht, hn.trans hle, hb⟩

/-- Given its record, a delivery is flagged when overdue unless it FAILED. -/
theorem SlaRecord.flagged_iff {now : Time} {d : Delivery} (h : SlaRecord now d) :
    (d.status ∈ terminalStatuses → d.slaDeadlineAt < now → ¬ TimelySuccess d →
      d.slaBreached = true) ↔ (d.status = .failed → now ≤ d.slaDeadlineAt) := by
  by_cases hdel : d.status = .delivered
  · obtain ⟨t, ht, -, hb⟩ := h.delivered hdel
    refine iff_of_true ?_ (by simp [hdel])
    intro _ _ hlate
    rw [hb]
    by_contra hle
    exact hlate ⟨t, ht, not_lt.mp hle⟩
  · obtain ⟨hnone, hclear⟩ := h.undelivered hdel
    have hlate : ¬ TimelySuccess d := by simp [TimelySuccess, hnone]
    simp [terminalStatuses, hdel, hclear, hlate]

/-- The records of all deliveries, and the joint states of `dead_letters`. -/
structure SlaRecords (s : Clocked) : Prop where
  record : ∀ d ∈ s.db.tables.deliveries, SlaRecord s.clock d
  rounds : Rounds s.db.tables

/-- With the records the code keeps, the facts are complete exactly when no delivery
is FAILED past its deadline. -/
theorem complete_iff_no_late_failure {s : Clocked} (h : SlaRecords s) :
    SlaFactsComplete s ↔
      ∀ d ∈ s.db.tables.deliveries, d.status = .failed → s.clock ≤ d.slaDeadlineAt := by
  constructor
  · intro hc d hd
    exact (h.record d hd).flagged_iff.mp (hc.1 d hd)
  · intro hn
    have hflag := fun d hd => (h.record d hd).flagged_iff.mpr (hn d hd)
    refine ⟨hflag, ?_⟩
    intro partnerId windowStart
    rw [notBreached_eq]
    apply List.countP_mono_left
    intro d hd hrow
    simp only [Bool.and_eq_true, decide_eq_true_eq, Bool.not_eq_true'] at hrow ⊢
    obtain ⟨hw, hclear⟩ := hrow
    refine ⟨hw, ?_⟩
    by_contra hnot
    rw [not_or, not_le] at hnot
    have hset := hflag d hd hw.2.2 hnot.2 hnot.1
    rw [hclear] at hset
    cases hset

/-- A success keeps the record: it is the first one, made now. -/
theorem record_decided {ctx : Context} {input : ProcessInput} {s : Session} {pub : Option Message}
    (hdec : Decided ctx input s pub) (ho : ctx.delivery.status.Open)
    (h : SlaRecord input.now ctx.delivery) : SlaRecord input.now s.delivery := by
  have hne : ctx.delivery.status ≠ .delivered := by
    intro he
    simp [he] at ho
  obtain ⟨hnone, hclear⟩ := h.undelivered hne
  cases hdec with
  | missingSecret hsecret hd | circuitOpen hd | poison hn hc hd | retry hn hc hlt hd
  | exhausted hn hc hge hd =>
    rw [hd]
    exact ⟨by simp, fun _ => ⟨hnone, hclear⟩⟩
  | success hn hc hat hf hd =>
    rw [hd]
    simp only [applyFirstSuccess, hnone, hclear, Bool.false_or, Prod.mk.injEq] at hf
    obtain ⟨rfl, rfl⟩ := hf
    exact ⟨fun _ => ⟨_, rfl, le_rfl, by simp⟩, by simp⟩

theorem takenAt_process {op : Op} {now : Time} {i : Uuid} {input : ProcessInput}
    (h : op.takenAt now = .process i input) :
    ∃ input₀, op = .process i input₀ ∧ input = { input₀ with now := now } := by
  cases op with
  | process j input₀ =>
    cases h
    exact ⟨input₀, rfl, rfl⟩
  | _ => cases h

theorem takenAt_replay {op : Op} {now : Time} {i : Uuid} {req : ReplayRequest}
    (h : op.takenAt now = .replay i req) : ∃ req₀, op = .replay i req₀ := by
  cases op with
  | replay j req₀ =>
    cases h
    exact ⟨req₀, rfl⟩
  | _ => cases h

/-- Every operation taken at `now` keeps the records. -/
theorem records_change {settings : Settings} {db db' : Db} {op : Op} {clock now : Time}
    (h : SlaRecords ⟨db, clock⟩) (hle : clock ≤ now)
    (hch : Change settings db (op.takenAt now) db') : SlaRecords ⟨db', now⟩ := by
  refine ⟨?_, rounds_change hch h.rounds⟩
  have hold : ∀ d ∈ db.tables.deliveries, SlaRecord now d := fun d hd => (h.record d hd).mono hle
  generalize hop : op.takenAt now = op' at hch
  intro d hd
  cases hch with
  | keep => exact hold d hd
  | admin partners endpoints he =>
    simp only [he] at hd
    exact hold d hd
  | accepted ha he =>
    simp only [he] at hd
    rcases List.mem_append.mp hd with hin | hnew
    · exact hold d hin
    · obtain ⟨e, -, publicId, hb⟩ := ha.built d hnew
      rw [hb]
      exact ⟨by simp [buildPendingDelivery], fun _ => ⟨rfl, rfl⟩⟩
  | processed hp hc =>
    obtain ⟨input₀, -, hin⟩ := takenAt_process hop
    have hnow := congrArg ProcessInput.now hin
    simp only at hnow
    rcases (processed_mem hp hc).mp hd with rfl | ⟨hmem, -⟩
    · rw [← hnow]
      refine record_decided hp.decided hp.isOpen ?_
      rw [hnow]
      exact hold _ (fetchContext_some hp.found).1
    · exact hold d hmem
  | replayed hl hi hr =>
    rcases (replayed_mem hl hr).mp hd with rfl | ⟨hmem, -⟩
    · have hrec := (hold _ hl).undelivered (by simp [hr.failed])
      rw [hr.delivery_eq]
      exact ⟨by simp, fun _ => hrec⟩
    · exact hold d hmem
  | deadLetter hw =>
    simp only at hd
    rw [hw.frame] at hd
    exact hold d hd

theorem records_step {settings : Settings} {s s' : Clocked} {a : Tick} (h : SlaRecords s)
    (hs : s.step settings a = some s') : SlaRecords s' := by
  have hle : s.clock ≤ s.now a := le_add_of_nonneg_right a.elapsed.2
  unfold Clocked.step at hs
  split at hs
  · obtain rfl := Option.some.inj hs
    exact ⟨fun d hd => (h.record d hd).mono hle, h.rounds⟩
  · obtain rfl := Option.some.inj hs
    exact records_change h hle (apply_change _ _ _)

/-- The operation gives up on a delivery that was never replayed: it is open, and the
execution finds no secret, an answer that is not retried or a retryable one at the last
attempt, and texts that can be stored. -/
structure GivesUp (db : Db) (op : Op) (i : Uuid) (ctx : Context) (input : ProcessInput) : Prop where
  op_eq : op = .process i input
  found : db.tables.fetchDeliveryContext i = some ctx
  isOpen : ctx.delivery.status.Open
  notReplayed : ¬ Replayed db.tables i
  ends : EndsFailed ctx input
  recordable : input.Recordable

/-- A delivery that is FAILED after an operation either was before or is one the
operation gives up on. -/
theorem failed_after {settings : Settings} {db db' : Db} {op : Op} (h : Rounds db.tables)
    (hch : Change settings db op db') {d : Delivery} (hd : d ∈ db'.tables.deliveries)
    (hf : d.status = .failed) :
    d ∈ db.tables.deliveries ∨ ∃ ctx input, GivesUp db op d.publicId ctx input ∧
      ctx.delivery.slaDeadlineAt = d.slaDeadlineAt := by
  cases hch with
  | keep => exact .inl hd
  | admin partners endpoints he =>
    rw [he] at hd
    exact .inl hd
  | accepted ha he =>
    rw [he] at hd
    rcases List.mem_append.mp hd with hin | hnew
    · exact .inl hin
    · rw [ha.pending hnew] at hf
      cases hf
  | processed hp hc =>
    rcases (processed_mem hp hc).mp hd with rfl | ⟨hin, -⟩
    · have hreach := hp.reachesMarkFailed hf
      have hrec := (failureRecorded_iff_commit hreach).mpr ⟨_, hc⟩
      obtain ⟨hnr, hstored⟩ := (recorded_iff_of_rounds h hreach).mp hrec
      have hends := (ends_failed_iff settings hp.isOpen).mp ⟨_, _, hreach.verdict⟩
      rw [hp.decided.id_eq.2, (fetchContext_some hp.found).2]
      exact .inr ⟨_, _, ⟨rfl, hp.found, hp.isOpen, hnr, hends, hstored⟩,
        hp.decided.deadline_eq.symm⟩
    · exact .inl hin
  | replayed hl hi hr =>
    rcases (replayed_mem hl hr).mp hd with rfl | ⟨hin, -⟩
    · rw [hr.delivery_eq] at hf
      cases hf
    · exact .inl hin
  | deadLetter hw =>
    rw [hw.frame] at hd
    exact .inl hd

/-- The delivery an operation gives up on is FAILED afterwards. -/
theorem GivesUp.failed (settings : Settings) {db : Db} {op : Op} {i : Uuid} {ctx : Context}
    {input : ProcessInput} (h : GivesUp db op i ctx input) (hrounds : Rounds db.tables) :
    ∃ d ∈ (db.apply settings op).tables.deliveries, d.publicId = i ∧ d.status = .failed ∧
      d.slaDeadlineAt = ctx.delivery.slaDeadlineAt := by
  obtain rfl := h.op_eq
  obtain ⟨s, pub, hv⟩ := (ends_failed_iff settings h.isOpen).mpr h.ends
  have hreach : ReachesMarkFailed settings db i input ctx s pub := ⟨h.found, hv⟩
  obtain ⟨db', hc⟩ := (failureRecorded_iff_commit hreach).mp
    ((recorded_iff_of_rounds hrounds hreach).mpr ⟨h.notReplayed, h.recordable⟩)
  have hdb : db.apply settings (.process i input) = db' := by
    simp only [Db.apply, Db.processOutboundMessage, h.found, hv, hc]
    rfl
  have hdec := hreach.processes.decided
  refine ⟨s.delivery, ?_, ?_, hreach.failed, hdec.deadline_eq⟩
  · rw [hdb]
    exact (processed_mem hreach.processes hc).mpr (.inl rfl)
  · exact hdec.id_eq.2.trans (fetchContext_some h.found).2

/-- A replayed delivery is FAILED no longer. -/
theorem not_failed_after_replay (settings : Settings) {db : Db} {d : Delivery}
    {req : ReplayRequest} (hd : d ∈ db.tables.deliveries) (hf : d.status = .failed) :
    d ∉ (db.apply settings (.replay d.publicId req)).tables.deliveries := by
  obtain ⟨s, hr, he⟩ := apply_replay_failed settings req hd hf
  rw [he, replayed_mem hd hr]
  rintro (rfl | ⟨-, hne⟩)
  · rw [hr.delivery_eq] at hf
    cases hf
  · exact hne rfl

/-- A FAILED delivery stays FAILED in every operation but its replay. -/
theorem failed_stays {settings : Settings} {db db' : Db} {op : Op}
    (hch : Change settings db op db') {d : Delivery} (hd : d ∈ db.tables.deliveries)
    (hf : d.status = .failed) (hop : ∀ req, op ≠ .replay d.publicId req) :
    d ∈ db'.tables.deliveries := by
  cases hch with
  | keep => exact hd
  | admin partners endpoints he =>
    rw [he]
    exact hd
  | accepted ha he =>
    rw [he]
    exact List.mem_append_left _ hd
  | processed hp hc =>
    refine (processed_mem hp hc).mpr (.inr ⟨hd, ?_⟩)
    intro hid
    have ho := hp.isOpen
    rw [← Table.eq_of_unique db.consistent.delivery_id hd (fetchContext_some hp.found).1 hid] at ho
    simp [hf] at ho
  | replayed hl hi hr =>
    refine (replayed_mem hl hr).mpr (.inr ⟨hd, ?_⟩)
    intro hid
    obtain rfl := Table.eq_of_unique db.consistent.delivery_id hd hl hid
    exact hop _ (by rw [hi])
  | deadLetter hw =>
    rw [hw.frame]
    exact hd

/-- The tick gives up on the delivery. -/
def Tick.GivesUp (s : Clocked) (a : Tick) (i : Uuid) (ctx : Context) (input : ProcessInput) : Prop :=
  ∃ op, a.op = some op ∧ Outbound.GivesUp s.db (op.takenAt (s.now a)) i ctx input

def Tick.Replays (a : Tick) (i : Uuid) : Prop := ∃ req, a.op = some (.replay i req)

/-- At some tick of the run the code gives up on a delivery whose deadline then passes, at
that tick or at a later one, before the delivery is replayed. -/
def MissesDeadline (settings : Settings) (s₀ : Clocked) (ticks : List Tick) : Prop :=
  ∃ pre a mid post s i ctx input, ticks = (pre ++ a :: mid) ++ post ∧
    exec (Clocked.step settings) s₀ pre = some s ∧ a.GivesUp s i ctx input ∧
    (∀ b ∈ mid, ¬ b.Replays i) ∧
    ctx.delivery.slaDeadlineAt < s.now a + (mid.map fun b => (b.elapsed : ℚ)).sum

section Ticks

variable {settings : Settings} {s s' : Clocked} {ticks : List Tick} {i : Uuid}

/-- A step moves the clock and applies its operation, if it has one. -/
theorem clocked_step {a : Tick} (hs : s.step settings a = some s') :
    s'.clock = s.now a ∧ (a.op = none ∧ s'.db = s.db ∨
      ∃ op, a.op = some op ∧ s'.db = s.db.apply settings (op.takenAt (s.now a))) := by
  unfold Clocked.step at hs
  split at hs
  · rename_i hop
    obtain rfl := Option.some.inj hs
    exact ⟨rfl, .inl ⟨hop, rfl⟩⟩
  · rename_i op hop
    obtain rfl := Option.some.inj hs
    exact ⟨rfl, .inr ⟨op, hop, rfl⟩⟩

theorem exec_clocked (settings : Settings) (s : Clocked) (ticks : List Tick) :
    ∃ s', exec (Clocked.step settings) s ticks = some s' := by
  induction ticks generalizing s with
  | nil => exact ⟨s, rfl⟩
  | cons a ticks ih =>
    cases hop : a.op with
    | none => simpa [Clocked.step, hop] using ih _
    | some op => simpa [Clocked.step, hop] using ih _

theorem clock_exec (hrun : exec (Clocked.step settings) s ticks = some s') :
    s'.clock = s.clock + (ticks.map fun b => (b.elapsed : ℚ)).sum := by
  induction ticks generalizing s with
  | nil =>
    obtain rfl := Option.some.inj hrun
    simp
  | cons a ticks ih =>
    obtain ⟨t, ht, hrest⟩ := Option.bind_eq_some_iff.mp hrun
    rw [ih hrest, (clocked_step ht).1, Clocked.now, List.map_cons, List.sum_cons, add_assoc]

theorem records_exec (h : SlaRecords s) (hrun : exec (Clocked.step settings) s ticks = some s') :
    SlaRecords s' := by
  have hall : Along (Clocked.step settings) (fun _ _ => True) s ticks :=
    along_of_forall fun _ _ _ => trivial
  exact exec_invariant SlaRecords (fun _ _ _ h _ hs => records_step h hs) h hall hrun

/-- Until it is replayed, a FAILED delivery stays as it is. -/
theorem failed_stays_exec {d : Delivery} (hd : d ∈ s.db.tables.deliveries)
    (hf : d.status = .failed) (hno : ∀ b ∈ ticks, ¬ b.Replays d.publicId)
    (hrun : exec (Clocked.step settings) s ticks = some s') : d ∈ s'.db.tables.deliveries := by
  induction ticks generalizing s with
  | nil =>
    obtain rfl := Option.some.inj hrun
    exact hd
  | cons a ticks ih =>
    obtain ⟨t, ht, hrest⟩ := Option.bind_eq_some_iff.mp hrun
    refine ih ?_ (fun b hb => hno b (List.mem_cons_of_mem _ hb)) hrest
    obtain ⟨-, ⟨-, hdb⟩ | ⟨op, hop, hdb⟩⟩ := clocked_step ht
    · rwa [hdb]
    · rw [hdb]
      refine failed_stays (apply_change _ _ _) hd hf ?_
      intro req he
      obtain ⟨req₀, rfl⟩ := takenAt_replay he
      exact hno a List.mem_cons_self ⟨req₀, hop⟩

/-- Every FAILED delivery of a run was given up at some tick and not replayed since. -/
theorem failed_history (h : SlaRecords s) (hempty : s.db.tables.deliveries = []) {d : Delivery}
    (hrun : exec (Clocked.step settings) s ticks = some s') (hd : d ∈ s'.db.tables.deliveries)
    (hf : d.status = .failed) :
    ∃ pre a mid t ctx input, ticks = pre ++ a :: mid ∧
      exec (Clocked.step settings) s pre = some t ∧ a.GivesUp t d.publicId ctx input ∧
      (∀ b ∈ mid, ¬ b.Replays d.publicId) ∧ ctx.delivery.slaDeadlineAt = d.slaDeadlineAt := by
  induction ticks using List.reverseRecOn generalizing s' with
  | nil =>
    obtain rfl := Option.some.inj hrun
    rw [hempty] at hd
    cases hd
  | append_singleton ticks b ih =>
    rw [exec_append] at hrun
    obtain ⟨t, ht, hb⟩ := Option.bind_eq_some_iff.mp hrun
    obtain ⟨u, hu, hend⟩ := Option.bind_eq_some_iff.mp hb
    obtain rfl := Option.some.inj hend
    have hlater : d ∈ t.db.tables.deliveries → ¬ b.Replays d.publicId →
        ∃ pre a mid t ctx input, ticks ++ [b] = pre ++ a :: mid ∧
          exec (Clocked.step settings) s pre = some t ∧ a.GivesUp t d.publicId ctx input ∧
          (∀ b ∈ mid, ¬ b.Replays d.publicId) ∧
          ctx.delivery.slaDeadlineAt = d.slaDeadlineAt := by
      intro hin hnot
      obtain ⟨pre, a, mid, v, ctx, input, rfl, hv, hg, hmid, hdl⟩ := ih ht hin
      refine ⟨pre, a, mid ++ [b], v, ctx, input, by simp, hv, hg, ?_, hdl⟩
      intro c hc
      rcases List.mem_append.mp hc with hc | hc
      · exact hmid c hc
      · exact List.mem_singleton.mp hc ▸ hnot
    obtain ⟨-, ⟨hop, hdb⟩ | ⟨op, hop, hdb⟩⟩ := clocked_step hu
    · rw [hdb] at hd
      refine hlater hd ?_
      rintro ⟨req, he⟩
      rw [hop] at he
      cases he
    · have hch := apply_change settings t.db (op.takenAt (t.now b))
      rw [hdb] at hd
      rcases failed_after (records_exec h ht).rounds hch hd hf with hin | ⟨ctx, input, hg, hdl⟩
      · refine hlater hin ?_
        rintro ⟨req, he⟩
        obtain rfl := Option.some.inj (hop.symm.trans he)
        exact not_failed_after_replay settings hin hf hd
      · exact ⟨ticks, b, [], t, ctx, input, rfl, ht, ⟨op, hop, hg⟩, by simp, hdl⟩

end Ticks

/-- Over every run of operations with a clock that never goes back, the SLA facts are
complete in every state exactly when the code gives up on no delivery whose deadline passes
before its replay. -/
theorem sla_facts_complete_iff (settings : Settings) (start : Time) (ticks : List Tick) :
    Throughout (Clocked.step settings) SlaFactsComplete ⟨Db.empty, start⟩ ticks ↔
      ¬ MissesDeadline settings ⟨Db.empty, start⟩ ticks := by
  have hinit : SlaRecords ⟨Db.empty, start⟩ := ⟨by simp [Db.empty], rounds_empty⟩
  rw [throughout_iff_splits]
  constructor
  · rintro hall ⟨pre, a, mid, post, s, i, ctx, input, heq, hpre, ⟨op, hop, hg⟩, hmid, hlate⟩
    obtain ⟨t, ht⟩ := exec_clocked settings s [a]
    obtain ⟨u, hu⟩ := exec_clocked settings t mid
    obtain ⟨t', ht', hend⟩ := Option.bind_eq_some_iff.mp ht
    obtain rfl := Option.some.inj hend
    have hrun : exec (Clocked.step settings) ⟨Db.empty, start⟩ (pre ++ a :: mid) = some u := by
      rw [exec_append, hpre, Option.bind_some, exec_cons, ht']
      exact hu
    obtain ⟨d, hd, rfl, hf, hdl⟩ := hg.failed settings (records_exec hinit hpre).rounds
    have hmem : d ∈ t'.db.tables.deliveries := by
      obtain ⟨-, ⟨hnone, -⟩ | ⟨op', hop', hdb⟩⟩ := clocked_step ht'
      · rw [hop] at hnone
        cases hnone
      · obtain rfl := Option.some.inj (hop.symm.trans hop')
        rw [hdb]
        exact hd
    have hstays := failed_stays_exec hmem hf hmid hu
    have htimely := (complete_iff_no_late_failure (records_exec hinit hrun)).mp
      (hall _ post u heq hrun) d hstays hf
    rw [clock_exec hu, (clocked_step ht').1, hdl] at htimely
    exact absurd hlate (not_lt.mpr htimely)
  · intro hno bs cs t heq hrun
    rw [complete_iff_no_late_failure (records_exec hinit hrun)]
    intro d hd hf
    by_contra hlate
    obtain ⟨pre, a, mid, s, ctx, input, rfl, hpre, hg, hmid, hdl⟩ :=
      failed_history hinit rfl hrun hd hf
    refine hno ⟨pre, a, mid, cs, s, d.publicId, ctx, input, heq, hpre, hg, hmid, ?_⟩
    have hclock : t.clock = s.now a + (mid.map fun b => (b.elapsed : ℚ)).sum := by
      rw [clock_exec hrun, List.map_append, List.sum_append, List.map_cons, List.sum_cons,
        ← add_assoc, ← add_assoc, ← clock_exec hpre]
      rfl
    rw [hdl, ← hclock]
    exact not_le.mp hlate

/-- A 400 forty seconds after the deadline: FAILED, overdue, and not flagged. -/
def lateFailureRun : List Tick :=
  acceptedRun.map (fun op => ⟨0, some op⟩) ++ [⟨100, some (.process 10 (answer 100 400))⟩]

theorem late_failure_not_flagged :
    ¬ Throughout (Clocked.step {}) SlaFactsComplete ⟨Db.empty, 0⟩ lateFailureRun := by
  intro h
  obtain ⟨s, hrun, hd⟩ : ∃ s, exec (Clocked.step {}) ⟨Db.empty, 0⟩ lateFailureRun = some s ∧
      ∃ d ∈ s.db.tables.deliveries, d.status ∈ terminalStatuses ∧ d.slaDeadlineAt < s.clock ∧
        ¬ TimelySuccess d ∧ d.slaBreached = false := ⟨_, rfl, by decide +kernel⟩
  obtain ⟨d, hmem, hterm, hlate, hnot, hclear⟩ := hd
  have hset := (h.last hrun).1 d hmem hterm hlate hnot
  rw [hclear] at hset
  cases hset

end PartnerHub.Outbound
