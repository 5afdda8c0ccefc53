import PartnerHub.Outbound.Consumer

/-!
# Waiting for `scheduled_at`

The consumer loop with its clock. A message of a retry topic is handed to
`process_outbound_message` when its `scheduled_at` has come; until then the worker sleeps
in chunks of five seconds and looks at the shutdown flag between them. Time passes in
steps of any length, and a sleep lasts at least as long as was asked for.
-/
namespace PartnerHub.Outbound

open PartnerHub.Domain PartnerHub.Lib PartnerHub.Lib.PartitionLog PartnerHub.Lib.Slots
  PartnerHub.Lib.System

def scheduledSleepChunkSeconds : ℚ := 5

/-- One turn of the loop in `wait_until_scheduled`: it returns, or asks for a sleep. -/
def waitTurn (scheduledAt now : Time) (shutdown : Bool) : Option ℚ :=
  if shutdown then none
  else
    let remaining := scheduledAt - now
    if remaining ≤ 0 then none else some (min remaining scheduledSleepChunkSeconds)

/-- `envelope["scheduled_at"]`. -/
def Group.scheduledAt (g : Group) (tp : TopicPartition) (offset : Nat) : Option Time :=
  (g.log tp)[offset]?.bind fun m =>
    match m.value with
    | .outbound e => some e.scheduledAt
    | _ => none

/-- A call of `wait_until_scheduled`: when it began, how often it slept, and when the
sleep it is in is over. -/
structure Wait where
  since : Time
  sleeps : Nat
  wake : Time

/-- A call of `process_outbound_message`. -/
structure Start where
  tp : TopicPartition
  offset : Nat
  time : Time
  deriving DecidableEq, Repr

structure Timed where
  group : Group
  now : Time
  waits : Nat → Wait
  started : List Start

def Timed.initial (g : GroupOffsets) (now : Time) : Timed where
  group := Group.initial g
  now := now
  waits := fun _ => ⟨now, 0, now⟩
  started := []

inductive TimedAction where
  | tick (dt : ℚ)
  | group (a : ConsumerAction)
  | turn (w : Nat)

/-- `_handle_message` begins: with the wait, or with the call. -/
def Timed.entered (s : Timed) (w : Nat) (g : Group) : Timed :=
  match g.workers w with
  | none => { s with group := g }
  | some x =>
    match x.control, x.batch with
    | .handling .waiting, _ =>
      { s with group := g, waits := Function.update s.waits w ⟨s.now, 0, s.now⟩ }
    | .handling .processing, (tp, offset :: _) :: _ =>
      { s with group := g, started := s.started ++ [⟨tp, offset, s.now⟩] }
    | _, _ => { s with group := g }

/-- The loop of worker `w` once its sleep is over. A message without `scheduled_at` raises
`KeyError`. -/
def Timed.turn (s : Timed) (w : Nat) (x : Worker) : Option Timed :=
  match x.batch with
  | (tp, offset :: _) :: _ =>
    match s.group.scheduledAt tp offset with
    | none => (s.group.step (.worker w .raised)).map fun g => { s with group := g }
    | some due =>
      match waitTurn due s.now x.shutdown with
      | some seconds =>
        let wait : Wait := ⟨(s.waits w).since, (s.waits w).sleeps + 1, s.now + seconds⟩
        some { s with waits := Function.update s.waits w wait }
      | none =>
        (s.group.step (.worker w .waited)).map fun g =>
          { s with
            group := g
            started := if x.shutdown then s.started else s.started ++ [⟨tp, offset, s.now⟩] }
  | _ => none

def Timed.step (s : Timed) : TimedAction → Option Timed
  | .tick dt => if 0 ≤ dt then some { s with now := s.now + dt } else none
  | .group a =>
    match a with
    | .worker _ .waited => none
    | .worker w .next => (s.group.step (.worker w .next)).map (s.entered w)
    | a => (s.group.step a).map fun g => { s with group := g }
  | .turn w =>
    match s.group.workers w with
    | some x =>
      if x.control = .handling .waiting ∧ (s.waits w).wake ≤ s.now then s.turn w x else none
    | none => none

/-- A worker waits for a message that is due at `due`. -/
structure Timed.WaitsFor (s : Timed) (w : Nat) (x : Worker) (due : Time) : Prop where
  worker : s.group.workers w = some x
  control : x.control = .handling .waiting
  message : ∃ tp offset offsets rest, x.batch = (tp, offset :: offsets) :: rest ∧
    s.group.scheduledAt tp offset = some due

/-- What the waiting keeps. -/
structure Punctual (s : Timed) : Prop where
  never_early : ∀ x ∈ s.started, x.time ≤ s.now ∧ (x.tp.topic ≠ .outboundPending →
    ∃ due, s.group.scheduledAt x.tp x.offset = some due ∧ due ≤ x.time)
  few_sleeps : ∀ w x due, s.WaitsFor w x due →
    (s.waits w).sleeps ≤ ⌈(due - (s.waits w).since) / scheduledSleepChunkSeconds⌉₊
  short_sleeps : ∀ w x due, s.WaitsFor w x due →
    (s.waits w).wake ≤ s.now + scheduledSleepChunkSeconds ∧
      ((s.waits w).sleeps ≠ 0 → (s.waits w).wake ≤ due)
  stops : ∀ w x due, s.WaitsFor w x due → x.shutdown = true → (s.waits w).wake ≤ s.now →
    ∃ s', s.step (.turn w) = some s' ∧ s'.started = s.started ∧
      s'.group.workers w = some x.handled
  starts : ∀ w x due, s.WaitsFor w x due → x.shutdown = false → (s.waits w).wake ≤ s.now →
    due ≤ s.now → ∃ s', s.step (.turn w) = some s' ∧
      s'.group.workers w = some { x with control := .handling .processing }

section Workers

variable {g g' : Group} {a : ConsumerAction} {w : Nat} {x' : Worker}

/-- A stored message stays what it is. -/
theorem scheduledAt_step (hs : g.step a = some g') {tp : TopicPartition} {offset : Nat}
    {due : Time} (hd : g.scheduledAt tp offset = some due) :
    g'.scheduledAt tp offset = some due := by
  obtain ⟨m, hm, hv⟩ := Option.bind_eq_some_iff.mp hd
  refine Option.bind_eq_some_iff.mpr ⟨m, ?_, hv⟩
  cases a with
  | append tp' m' =>
    cases hs
    exact getElem_append hm
  | start v =>
    simp only [Group.step] at hs
    split at hs
    · cases hs
      exact hm
    · cases hs
  | worker v b =>
    obtain ⟨x, -, hw⟩ := Option.bind_eq_some_iff.mp hs
    cases b with
    | revoke | requestShutdown | raised =>
      cases hw
      exact hm
    | assign | loop | getmany | waited =>
      simp only [Group.workerStep] at hw
      split at hw
      · cases hw
        exact hm
      · cases hw
    | next =>
      simp only [Group.workerStep] at hw
      split at hw
      · obtain ⟨y, -, rfl⟩ := Option.map_eq_some_iff.mp hw
        exact hm
      · cases hw
    | returned | commit =>
      simp only [Group.workerStep] at hw
      split at hw
      · cases hw
        exact hm
      · cases hw

/-- Only `next` lets a worker begin to wait; while it waits it keeps its batch. -/
theorem waiting_step (hs : g.step a = some g') (hn : ∀ v, a ≠ .worker v .next)
    (hx' : g'.workers w = some x') (hc : x'.control = .handling .waiting) :
    ∃ x, g.workers w = some x ∧ x.control = .handling .waiting ∧ x.batch = x'.batch := by
  have hset : ∀ {v : Nat} {y : Option Worker}, (∀ z, y = some z → z.control = .handling .waiting →
      ∃ x, g.workers v = some x ∧ x.control = .handling .waiting ∧ x.batch = z.batch) →
      Function.update g.workers v y w = some x' →
      ∃ x, g.workers w = some x ∧ x.control = .handling .waiting ∧ x.batch = x'.batch := by
    intro v y hy hup
    rcases update_some_cases hup with ⟨rfl, hsome⟩ | ⟨-, hold⟩
    · exact hy x' hsome hc
    · exact ⟨x', hold, hc, rfl⟩
  cases a with
  | append tp m =>
    cases hs
    exact ⟨x', hx', hc, rfl⟩
  | start v =>
    simp only [Group.step] at hs
    split at hs
    · cases hs
      refine hset ?_ hx'
      rintro _ ⟨⟩ hw
      cases hw
    · cases hs
  | worker v b =>
    obtain ⟨x, hx, hw⟩ := Option.bind_eq_some_iff.mp hs
    cases b with
    | assign tp =>
      simp only [Group.workerStep] at hw
      split at hw
      · cases hw
        refine hset ?_ hx'
        rintro _ ⟨⟩ hw
        exact ⟨x, hx, hw, rfl⟩
      · cases hw
    | revoke | requestShutdown =>
      cases hw
      refine hset ?_ hx'
      rintro _ ⟨⟩ hw
      exact ⟨x, hx, hw, rfl⟩
    | loop =>
      simp only [Group.workerStep] at hw
      split at hw
      · cases hw
        refine hset ?_ hx'
        intro z hz hw
        split at hz
        · cases hz
        · cases hz
          cases hw
      · cases hw
    | getmany counts =>
      simp only [Group.workerStep] at hw
      split at hw
      · cases hw
        refine hset ?_ hx'
        rintro _ ⟨⟩ hw
        cases hw
      · cases hw
    | next => exact absurd rfl (hn v)
    | waited =>
      simp only [Group.workerStep] at hw
      split at hw
      · cases hw
        refine hset ?_ hx'
        intro z hz hw
        split at hz
        · cases hz
          cases hw
        · cases hz
          cases hw
      · cases hw
    | returned =>
      simp only [Group.workerStep] at hw
      split at hw
      · cases hw
        refine hset ?_ hx'
        rintro _ ⟨⟩ hw
        cases hw
      · cases hw
    | commit outcome =>
      simp only [Group.workerStep] at hw
      split at hw
      · cases hw
        refine hset ?_ hx'
        intro z hz hw
        split at hz
        · cases hz
          cases hw
        · cases hz
      · cases hw
    | raised =>
      cases hw
      refine hset ?_ hx'
      rintro _ ⟨⟩

end Workers

/-- The sleeps of a wait for `due`: whole chunks, and at the end what remains. -/
structure Wait.Fits (wait : Wait) (due : Time) : Prop where
  chunks : min (wait.since + wait.sleeps * scheduledSleepChunkSeconds) due ≤ wait.wake
  slept : wait.sleeps ≠ 0 → wait.wake ≤ due ∧
    wait.since + (wait.sleeps - 1) * scheduledSleepChunkSeconds < due

/-- The wait of worker `x`; a message without `scheduled_at` has not been slept for. -/
structure Wait.Serves (wait : Wait) (now : Time) (g : Group) (x : Worker) : Prop where
  begun : wait.since ≤ now
  soon : wait.wake ≤ now + scheduledSleepChunkSeconds
  message : ∃ tp offset offsets rest, x.batch = (tp, offset :: offsets) :: rest ∧
    tp.topic ≠ .outboundPending ∧
    ∀ due, (∀ d, g.scheduledAt tp offset = some d → d = due) → wait.Fits due

structure OnTime (s : Timed) : Prop where
  started : ∀ x ∈ s.started, x.time ≤ s.now ∧ (x.tp.topic ≠ .outboundPending →
    ∃ due, s.group.scheduledAt x.tp x.offset = some due ∧ due ≤ x.time)
  waiting : ∀ w x, s.group.workers w = some x → x.control = .handling .waiting →
    (s.waits w).Serves s.now s.group x

theorem waitTurn_some {due now seconds : ℚ} {shutdown : Bool}
    (h : waitTurn due now shutdown = some seconds) :
    shutdown = false ∧ now < due ∧ seconds = min (due - now) scheduledSleepChunkSeconds := by
  unfold waitTurn at h
  cases shutdown with
  | true => cases h
  | false =>
    rw [if_neg Bool.false_ne_true] at h
    by_cases hr : due - now ≤ 0
    · rw [if_pos hr] at h
      cases h
    · rw [if_neg hr] at h
      exact ⟨rfl, by linarith, (Option.some.inj h).symm⟩

theorem waitTurn_none {due now : ℚ} {shutdown : Bool} :
    waitTurn due now shutdown = none ↔ shutdown = true ∨ due ≤ now := by
  unfold waitTurn
  cases shutdown with
  | true => simp
  | false =>
    by_cases hr : due - now ≤ 0
    · simp [hr, sub_nonpos.mp hr]
    · simp [hr, show ¬ due ≤ now from fun h => hr (sub_nonpos.mpr h)]

theorem fits_begun (now due : Time) : Wait.Fits ⟨now, 0, now⟩ due where
  chunks := by simp
  slept := fun h => absurd rfl h

/-- Another sleep begins only when all before it were whole chunks. -/
theorem Wait.Fits.again {wait : Wait} {due now : Time} (h : wait.Fits due)
    (hw : wait.wake ≤ now) (hd : now < due) :
    Wait.Fits ⟨wait.since, wait.sleeps + 1, now + min (due - now) scheduledSleepChunkSeconds⟩
      due := by
  have hchunks : wait.since + wait.sleeps * scheduledSleepChunkSeconds ≤ now := by
    rcases min_le_iff.mp (h.chunks.trans hw) with hle | hle
    · exact hle
    · exact absurd hle hd.not_ge
  refine ⟨?_, ?_⟩
  · push_cast
    rcases le_total (due - now) scheduledSleepChunkSeconds with hle | hle
    · rw [min_eq_left hle]
      exact (min_le_right _ _).trans (by linarith)
    · rw [min_eq_right hle]
      exact (min_le_left _ _).trans (by linarith)
  · intro _
    refine ⟨?_, ?_⟩
    · linarith [min_le_left (due - now) scheduledSleepChunkSeconds]
    · push_cast
      linarith

theorem Wait.Fits.few {wait : Wait} {due : Time} (h : wait.Fits due) :
    wait.sleeps ≤ ⌈(due - wait.since) / scheduledSleepChunkSeconds⌉₊ := by
  by_cases h0 : wait.sleeps = 0
  · rw [h0]
    exact Nat.zero_le _
  · have hlast := (h.slept h0).2
    have hpos : (0 : ℚ) < scheduledSleepChunkSeconds := by norm_num [scheduledSleepChunkSeconds]
    have hlt : (wait.sleeps : ℚ) - 1 < (due - wait.since) / scheduledSleepChunkSeconds := by
      rw [lt_div_iff₀ hpos]
      linarith
    have hceil := Nat.le_ceil ((due - wait.since) / scheduledSleepChunkSeconds)
    have hnat : (wait.sleeps : ℚ) < ⌈(due - wait.since) / scheduledSleepChunkSeconds⌉₊ + 1 := by
      linarith
    exact Nat.lt_succ_iff.mp (by exact_mod_cast hnat)

theorem Wait.Serves.later {wait : Wait} {now now' : Time} {g : Group} {x : Worker}
    (h : wait.Serves now g x) (hle : now ≤ now') : wait.Serves now' g x where
  begun := h.begun.trans hle
  soon := by linarith [h.soon]
  message := h.message

section Steps

variable {s s' : Timed} {g' : Group} {a : ConsumerAction} {w : Nat} {x x' : Worker}

theorem Wait.Serves.step {wait : Wait} {now : Time} {g : Group} (h : wait.Serves now g x)
    (hs : g.step a = some g') (hb : x.batch = x'.batch) : wait.Serves now g' x' where
  begun := h.begun
  soon := h.soon
  message := by
    obtain ⟨tp, offset, offsets, rest, hbatch, htopic, hfits⟩ := h.message
    refine ⟨tp, offset, offsets, rest, hb ▸ hbatch, htopic, ?_⟩
    intro due hdue
    exact hfits due fun d hd => hdue d (scheduledAt_step hs hd)

theorem OnTime.started_step (h : OnTime s) (hs : s.group.step a = some g') :
    ∀ y ∈ s.started, y.time ≤ s.now ∧ (y.tp.topic ≠ .outboundPending →
      ∃ due, g'.scheduledAt y.tp y.offset = some due ∧ due ≤ y.time) := by
  intro y hy
  obtain ⟨hnow, hdue⟩ := h.started y hy
  refine ⟨hnow, ?_⟩
  intro htopic
  obtain ⟨due, hd, hle⟩ := hdue htopic
  exact ⟨due, scheduledAt_step hs hd, hle⟩

theorem OnTime.grouped (h : OnTime s) (hs : s.group.step a = some g')
    (hn : ∀ v, a ≠ .worker v .next) : OnTime { s with group := g' } where
  started := h.started_step hs
  waiting := by
    intro w x' hx' hc
    obtain ⟨x, hx, hcx, hb⟩ := waiting_step hs hn hx' hc
    exact (h.waiting w x hx hcx).step hs hb

/-- The message `_handle_message` is called for. -/
theorem next_cases (hx : x.control = .iterating) (h : x.next = some x') :
    x'.control = .iterating ∨ ∃ tp offset offsets rest,
      x'.batch = (tp, offset :: offsets) :: rest ∧
        x'.control = .handling (firstStage tp.topic) := by
  unfold Worker.next at h
  split at h
  · cases h
  · cases h
    exact .inl hx
  · rename_i hbatch
    split at h
    · cases h
      exact .inl hx
    · cases h
      exact .inr ⟨_, _, _, _, hbatch, rfl⟩

theorem next_step (hs : s.group.step (.worker w .next) = some g') :
    ∃ x x', s.group.workers w = some x ∧ x.control = .iterating ∧ x.next = some x' ∧
      g' = s.group.setWorker w (some x') := by
  obtain ⟨x, hx, hw⟩ := Option.bind_eq_some_iff.mp hs
  simp only [Group.workerStep] at hw
  split at hw
  · rename_i hc
    obtain ⟨x', hn, rfl⟩ := Option.map_eq_some_iff.mp hw
    exact ⟨x, x', hx, hc, hn, rfl⟩
  · cases hw

theorem firstStage_waiting {topic : Topic} (h : firstStage topic = .waiting) :
    topic ≠ .outboundPending := by
  rintro rfl
  cases h

theorem firstStage_processing {topic : Topic} (h : firstStage topic = .processing) :
    topic = .outboundPending := by
  by_contra hne
  rw [firstStage, if_neg hne] at h
  cases h

/-- The other workers' waits stand when `w` is given another one. -/
theorem OnTime.waiting_other (h : OnTime s) (hs : s.group.step a = some g')
    (hw : g' = s.group.setWorker w (some x')) {v : Nat} {y : Worker} (hv : v ≠ w)
    (hy : g'.workers v = some y) (hc : y.control = .handling .waiting) :
    (s.waits v).Serves s.now g' y := by
  subst hw
  have hold : s.group.workers v = some y := (Function.update_of_ne hv _ _).symm.trans hy
  exact (h.waiting v y hold hc).step hs rfl

theorem OnTime.entered (h : OnTime s) (hs : s.group.step (.worker w .next) = some g') :
    OnTime (s.entered w g') := by
  obtain ⟨x, x', hx, hc, hn, hg⟩ := next_step hs
  have hx' : g'.workers w = some x' := by
    rw [hg]
    exact Function.update_self ..
  have hother := fun v y => h.waiting_other (v := v) (y := y) hs hg
  have hgrouped : x'.control ≠ .handling .waiting → ∀ v y, g'.workers v = some y →
      y.control = .handling .waiting → (s.waits v).Serves s.now g' y := by
    intro hne v y hy hcy
    by_cases hv : v = w
    · subst hv
      obtain rfl := Option.some.inj (hx'.symm.trans hy)
      exact absurd hcy hne
    · exact hother v y hv hy hcy
  unfold Timed.entered
  rw [hx']
  rcases next_cases hc hn with hi | ⟨tp, offset, offsets, rest, hbatch, hstage⟩
  · simp only [hi]
    exact ⟨h.started_step hs, hgrouped (by rw [hi]; intro h; cases h)⟩
  · cases hfirst : firstStage tp.topic with
    | waiting =>
      rw [hfirst] at hstage
      simp only [hstage]
      refine ⟨h.started_step hs, ?_⟩
      intro v y hy hcy
      by_cases hv : v = w
      · subst hv
        obtain rfl := Option.some.inj (hx'.symm.trans hy)
        simp only [Function.update_self]
        exact ⟨le_rfl, by norm_num [scheduledSleepChunkSeconds], tp, offset, offsets, rest, hbatch,
          firstStage_waiting hfirst, fun due _ => fits_begun s.now due⟩
      · simp only [Function.update_of_ne hv]
        exact hother v y hv hy hcy
    | processing =>
      rw [hfirst] at hstage
      simp only [hstage, hbatch]
      refine ⟨?_, hgrouped (by rw [hstage]; intro h; cases h)⟩
      intro y hy
      rcases List.mem_append.mp hy with hold | hnew
      · exact h.started_step hs y hold
      · obtain rfl := List.mem_singleton.mp hnew
        exact ⟨le_rfl, fun hne => absurd (firstStage_processing hfirst) hne⟩
    | committing =>
      unfold firstStage at hfirst
      split at hfirst <;> cases hfirst

theorem OnTime.turn (h : OnTime s) (hx : s.group.workers w = some x)
    (hc : x.control = .handling .waiting) (hwake : (s.waits w).wake ≤ s.now)
    (hs : s.turn w x = some s') : OnTime s' := by
  obtain ⟨hbegun, hsoon, tp, offset, offsets, rest, hbatch, htopic, hfits⟩ := h.waiting w x hx hc
  simp only [Timed.turn, hbatch] at hs
  cases hd : s.group.scheduledAt tp offset with
  | none =>
    rw [hd] at hs
    obtain ⟨g, hg, rfl⟩ := Option.map_eq_some_iff.mp hs
    refine h.grouped hg ?_
    rintro v ⟨⟩
  | some due =>
    simp only [hd] at hs
    have hfit : (s.waits w).Fits due := by
      refine hfits due ?_
      intro d hdd
      exact (Option.some.inj (hd.symm.trans hdd)).symm
    cases hturn : waitTurn due s.now x.shutdown with
    | some seconds =>
      rw [hturn] at hs
      obtain rfl := Option.some.inj hs
      obtain ⟨-, hlt, hsec⟩ := waitTurn_some hturn
      refine ⟨h.started, ?_⟩
      intro v y hy hcy
      by_cases hv : v = w
      · subst hv
        obtain rfl := Option.some.inj (hx.symm.trans hy)
        simp only [Function.update_self]
        refine ⟨hbegun, ?_, tp, offset, offsets, rest, hbatch, htopic, ?_⟩
        · rw [hsec]
          linarith [min_le_right (due - s.now) scheduledSleepChunkSeconds]
        · intro d hall
          obtain rfl := hall due hd
          rw [hsec]
          exact hfit.again hwake hlt
      · simp only [Function.update_of_ne hv]
        exact h.waiting v y hy hcy
    | none =>
      simp only [hturn] at hs
      obtain ⟨g, hg, rfl⟩ := Option.map_eq_some_iff.mp hs
      have hkept : OnTime { s with group := g } := by
        refine h.grouped hg ?_
        rintro v ⟨⟩
      refine ⟨?_, hkept.waiting⟩
      intro y hy
      cases hshut : x.shutdown with
      | true =>
        rw [hshut, if_pos rfl] at hy
        exact hkept.started y hy
      | false =>
        rw [hshut, if_neg Bool.false_ne_true] at hy
        rcases List.mem_append.mp hy with hold | hnew
        · exact hkept.started y hold
        · obtain rfl := List.mem_singleton.mp hnew
          refine ⟨le_rfl, fun _ => ⟨due, scheduledAt_step hg hd, ?_⟩⟩
          rcases waitTurn_none.mp hturn with htrue | hle
          · rw [hshut] at htrue
            cases htrue
          · exact hle

theorem onTime_step (h : OnTime s) {b : TimedAction} (hs : s.step b = some s') : OnTime s' := by
  cases b with
  | tick dt =>
    simp only [Timed.step] at hs
    split at hs
    · rename_i hdt
      cases hs
      have hle : s.now ≤ s.now + dt := by linarith
      exact ⟨fun y hy => ⟨(h.started y hy).1.trans hle, (h.started y hy).2⟩,
        fun v y hy hc => (h.waiting v y hy hc).later hle⟩
    · cases hs
  | group a =>
    simp only [Timed.step] at hs
    split at hs
    · cases hs
    · obtain ⟨g, hg, rfl⟩ := Option.map_eq_some_iff.mp hs
      exact h.entered hg
    · rename_i hnext
      obtain ⟨g, hg, rfl⟩ := Option.map_eq_some_iff.mp hs
      exact h.grouped hg hnext
  | turn v =>
    simp only [Timed.step] at hs
    split at hs
    · rename_i y hy
      split at hs
      · rename_i hready
        exact h.turn hy hready.1 hready.2 hs
      · cases hs
    · cases hs

end Steps

theorem onTime_initial (g : GroupOffsets) (now : Time) : OnTime (Timed.initial g now) where
  started := fun _ h => absurd h List.not_mem_nil
  waiting := by
    rintro w x ⟨⟩

section Turns

variable {s : Timed} {w : Nat} {x : Worker} {due : Time}

/-- The wait ends by the step of the group. -/
theorem turn_ends (h : s.WaitsFor w x due) (hw : (s.waits w).wake ≤ s.now)
    (ht : waitTurn due s.now x.shutdown = none) :
    ∃ s', s.step (.turn w) = some s' ∧
      s'.group.workers w = some
        (if x.shutdown then x.handled else { x with control := .handling .processing }) ∧
      (x.shutdown = true → s'.started = s.started) := by
  obtain ⟨tp, offset, offsets, rest, hbatch, hd⟩ := h.message
  simp only [Timed.step, h.worker, h.control, hw, and_self, if_true, Timed.turn, hbatch, hd, ht,
    Group.step, Option.bind_some, Group.workerStep, Option.map_some]
  refine ⟨_, rfl, Function.update_self .., ?_⟩
  intro hshut
  simp only [hshut, if_true]

theorem OnTime.fits (h : OnTime s) (hw : s.WaitsFor w x due) :
    (s.waits w).Fits due ∧ (s.waits w).wake ≤ s.now + scheduledSleepChunkSeconds := by
  obtain ⟨tp, offset, offsets, rest, hbatch, hd⟩ := hw.message
  obtain ⟨-, hsoon, tp', offset', offsets', rest', hbatch', -, hfits⟩ :=
    h.waiting w x hw.worker hw.control
  obtain ⟨⟨rfl, ⟨rfl, -⟩⟩, -⟩ : (tp = tp' ∧ offset = offset' ∧ offsets = offsets') ∧
      rest = rest' := by
    simpa using hbatch.symm.trans hbatch'
  refine ⟨hfits due ?_, hsoon⟩
  intro d hdd
  exact (Option.some.inj (hd.symm.trans hdd)).symm

end Turns

theorem OnTime.punctual {s : Timed} (h : OnTime s) : Punctual s where
  never_early := h.started
  few_sleeps := fun _ _ _ hw => (h.fits hw).1.few
  short_sleeps := fun _ _ _ hw => ⟨(h.fits hw).2, fun h0 => ((h.fits hw).1.slept h0).1⟩
  stops := by
    intro w x due hw hshut hwake
    obtain ⟨s', hs, hx', hst⟩ := turn_ends hw hwake (waitTurn_none.mpr (.inl hshut))
    rw [hshut, if_pos rfl] at hx'
    exact ⟨s', hs, hst hshut, hx'⟩
  starts := by
    intro w x due hw hshut hwake hdue
    obtain ⟨s', hs, hx', -⟩ := turn_ends hw hwake (waitTurn_none.mpr (.inr hdue))
    refine ⟨s', hs, ?_⟩
    rw [hx', if_neg (by rw [hshut]; exact Bool.false_ne_true)]

/-- In every run, whatever the workers, the shutdowns and the passing of time: no retry is
processed before its `scheduled_at`, and the wait for it ends at the turn it is due. -/
theorem scheduled_messages_punctual (g : GroupOffsets) (now : Time) (as : List TimedAction) :
    Throughout Timed.step Punctual (Timed.initial g now) as := by
  have hok : Along Timed.step (fun _ _ => True) (Timed.initial g now) as :=
    along_of_forall fun _ _ _ => trivial
  exact throughout_of_invariant OnTime (fun s b s' h _ hs => onTime_step h hs)
    (fun s h => h.punctual) (onTime_initial g now) hok

end PartnerHub.Outbound
