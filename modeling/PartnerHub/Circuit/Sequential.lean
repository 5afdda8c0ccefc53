import PartnerHub.Circuit.Breaker

/-!
# One call at a time

`allow_outbound`, `record_failure` and `record_success` on keys that nobody else touches
meanwhile, with a Redis that answers. Time may pass inside a call as well as between two
calls. Each call is one function of the keys and of the times at which its parts run, and
this function is what its commands compute when no other call runs in between.
-/
namespace PartnerHub.Circuit

open PartnerHub.Domain PartnerHub.Lib.System

/-- When the parts of a call run: the clock reading of `get_circuit_state`, the first command
that depends on an expiry (SET NX or INCR), the EXPIRE, and the clock reading stored as
`opened_at`. -/
structure Readings where
  look : Time
  command : Time
  expire : Time
  stamp : Time
  look_le : look ≤ command
  command_le : command ≤ expire
  expire_le : expire ≤ stamp

/-- All parts of a call at one time. -/
def Readings.instant (now : Time) : Readings := ⟨now, now, now, now, le_rfl, le_rfl, le_rfl⟩

theorem Readings.look_le_stamp (r : Readings) : r.look ≤ r.stamp :=
  r.look_le.trans (r.command_le.trans r.expire_le)

def allowOutbound (settings : Settings) (k : Keys) (times : Readings) : Keys × Bool :=
  match getCircuitState settings k times.look with
  | .closed => (k, true)
  | .opened => (k, false)
  | .halfOpen =>
    let k := if k.state = some .opened then { k with state := some .halfOpen } else k
    if k.ProbeFree times.command then
      ({ k with probe := some (times.command + settings.hubCircuitOpenSeconds) }, true)
    else (k, false)

/-- INCR and, for the first failure, EXPIRE. -/
def Keys.countFailure (settings : Settings) (k : Keys) (times : Readings) : Keys :=
  let count := (k.incremented times.command).count
  let k := Pc.increment.write settings times.command k
  if count = 1 then (Pc.expire count).write settings times.expire k else k

def recordFailure (settings : Settings) (k : Keys) (times : Readings) : Keys × CircuitState :=
  match getCircuitState settings k times.look with
  | .halfOpen =>
    ({ k with state := some .opened, openedAt := some times.stamp, probe := none }, .opened)
  | _ =>
    let count := (k.incremented times.command).count
    let k := k.countFailure settings times
    if settings.hubCircuitFailureThreshold ≤ count then
      ({ k with state := some .opened, openedAt := some times.stamp }, .opened)
    else (k, .closed)

def recordSuccess (k : Keys) : Keys × CircuitState :=
  ({ k with failures := none, probe := none, openedAt := none, state := some .closed }, .closed)

/-- A call and when it runs. -/
structure Visit where
  op : Operation
  times : Readings

def Keys.visit (settings : Settings) (k : Keys) (v : Visit) : Keys × Answer :=
  match v.op with
  | .allowOutbound =>
    let (k, allowed) := allowOutbound settings k v.times
    (k, .allow allowed)
  | .recordFailure =>
    let (k, state) := recordFailure settings k v.times
    (k, .state state)
  | .recordSuccess =>
    let (k, state) := recordSuccess k
    (k, .state state)

variable {settings : Settings} {k : Keys} {times : Readings}

theorem found_halfOpen {now : Time} (h : getCircuitState settings k now = .halfOpen) :
    k.state = some .opened ∨ k.state = some .halfOpen := by
  cases hstate : k.state with
  | none => simp [getCircuitState, hstate] at h
  | some state =>
    cases state with
    | opened => exact .inl rfl
    | halfOpen => exact .inr rfl
    | closed => simp [getCircuitState, hstate] at h

/-- A call that finds HALF_OPEN leaves it stored and is granted the probe if that is free. -/
theorem allowOutbound_halfOpen (h : getCircuitState settings k times.look = .halfOpen) :
    allowOutbound settings k times =
      if k.ProbeFree times.command then
        ({ k with
          state := some .halfOpen
          probe := some (times.command + settings.hubCircuitOpenSeconds) }, true)
      else ({ k with state := some .halfOpen }, false) := by
  have hkeys : (if k.state = some .opened then { k with state := some .halfOpen } else k) =
      { k with state := some .halfOpen } := by
    rcases found_halfOpen h with hstate | hstate
    · rw [if_pos hstate]
    · rw [if_neg (by rw [hstate]; exact nofun), ← hstate]
  rw [allowOutbound, h]
  simp only [hkeys]
  rfl

theorem recordFailure_halfOpen (h : getCircuitState settings k times.look = .halfOpen) :
    recordFailure settings k times =
      ({ k with state := some .opened, openedAt := some times.stamp, probe := none }, .opened) := by
  rw [recordFailure, h]

theorem recordFailure_counted (h : getCircuitState settings k times.look ≠ .halfOpen) :
    recordFailure settings k times =
      if settings.hubCircuitFailureThreshold ≤ (k.incremented times.command).count then
        ({ k.countFailure settings times with
          state := some .opened, openedAt := some times.stamp }, .opened)
      else (k.countFailure settings times, .closed) := by
  unfold recordFailure
  split
  · rename_i hhalf
    exact absurd hhalf h
  · rfl

/-! ## The calls as runs of commands -/

/-- A call at a program point can finish alone: it runs its commands, and time passes. -/
inductive Finishes (settings : Settings) : Pc → Keys → Time → Keys → Answer → Time → Prop
  | tick {pc : Pc} {k k' : Keys} {now later t : Time} {a : Answer} (hle : now ≤ later)
      (h : Finishes settings pc k later k' a t) : Finishes settings pc k now k' a t
  | goto {pc pc' : Pc} {k k' : Keys} {now t : Time} {a : Answer}
      (hnext : pc.next settings now k = .goto pc')
      (h : Finishes settings pc' (pc.write settings now k) now k' a t) :
      Finishes settings pc k now k' a t
  | finish {pc : Pc} {k : Keys} {now : Time} {a : Answer}
      (hnext : pc.next settings now k = .finish a) :
      Finishes settings pc k now (pc.write settings now k) a now

/-- What finishes alone is a run of the breaker with the other calls standing still. -/
theorem Finishes.exec {pc : Pc} {k k' : Keys} {now t : Time} {a : Answer}
    (h : Finishes settings pc k now k' a t) {s : Breaker} {w seen : Nat} (hk : s.keys = k)
    (hnow : s.now = now) (hw : s.calls w = some ⟨pc, seen⟩) :
    ∃ as s', exec (Breaker.step settings) s as = some s' ∧ s'.keys = k' ∧ s'.now = t ∧
      s'.calls = Function.update s.calls w none ∧
      s'.history.getLast? = some (.returned a t) := by
  induction h generalizing s seen with
  | @tick pc k k' now later t a hle _ ih =>
    obtain ⟨as, s', hrun, hrest⟩ := ih (s := { s with now := later }) hk rfl hw
    refine ⟨.tick later :: as, s', ?_, hrest⟩
    have hstep : s.step settings (.tick later) = some { s with now := later } := by
      rw [Breaker.step, hnow, if_pos hle]
    rw [exec_cons, hstep]
    exact hrun
  | @goto pc pc' k k' now t a hnext _ ih =>
    have hstep : s.step settings (.run w .answered) =
        some ((s.execute settings ⟨pc, seen⟩).advance w (s.lookedAt ⟨pc, seen⟩) (.goto pc')) := by
      rw [Breaker.step, hw, ← hnext, ← hk, ← hnow]
      rfl
    obtain ⟨as, s', hrun, hkeys, ht, hcalls, hlast⟩ := ih
      (s := (s.execute settings ⟨pc, seen⟩).advance w (s.lookedAt ⟨pc, seen⟩) (.goto pc'))
      (by rw [advance_keys, ← hk, ← hnow]; rfl) (by rw [advance_now]; exact hnow)
      (Function.update_self ..)
    refine ⟨.run w .answered :: as, s', ?_, hkeys, ht, ?_, hlast⟩
    · rw [exec_cons, hstep]
      exact hrun
    · rw [hcalls]
      exact Function.update_idem ..
  | @finish pc k now a hnext =>
    have hstep : s.step settings (.run w .answered) =
        some ((s.execute settings ⟨pc, seen⟩).advance w (s.lookedAt ⟨pc, seen⟩) (.finish a)) := by
      rw [Breaker.step, hw, ← hnext, ← hk, ← hnow]
      rfl
    refine ⟨[.run w .answered],
      (s.execute settings ⟨pc, seen⟩).advance w (s.lookedAt ⟨pc, seen⟩) (.finish a),
      ?_, ?_, ?_, rfl, ?_⟩
    · rw [exec_cons, hstep]
      rfl
    · rw [advance_keys, ← hk, ← hnow]
      rfl
    · rw [advance_now]
      exact hnow
    · rw [← hnow]
      exact List.getLast?_concat

/-- A continuation finishes alone. -/
def Next.Finishes (settings : Settings) (k : Keys) (now : Time) (k' : Keys) (a : Answer)
    (t : Time) : Next → Prop
  | .goto pc => Circuit.Finishes settings pc k now k' a t
  | .finish b => k' = k ∧ a = b ∧ t = now

theorem Finishes.of_next {pc : Pc} {k' : Keys} {now t : Time} {a : Answer}
    (h : (pc.next settings now k).Finishes settings (pc.write settings now k) now k' a t) :
    Finishes settings pc k now k' a t := by
  cases hnext : pc.next settings now k with
  | goto pc' =>
    rw [hnext] at h
    exact .goto hnext h
  | finish b =>
    rw [hnext] at h
    obtain ⟨rfl, rfl, rfl⟩ := h
    exact .finish hnext

/-- `get_circuit_state` as its commands compute it. -/
theorem finishes_getState {caller : Caller} {k' : Keys} {now t : Time} {a : Answer}
    (h : (caller.classified (getCircuitState settings k now)).Finishes settings k now k' a t) :
    Finishes settings (.getState caller) k now k' a t := by
  apply Finishes.of_next
  unfold getCircuitState at h
  cases hstate : k.state with
  | none =>
    simp only [hstate] at h
    simpa only [Pc.next, hstate, Pc.write] using h
  | some state =>
    cases state with
    | closed =>
      simp only [hstate] at h
      simpa only [Pc.next, hstate, Pc.write] using h
    | halfOpen =>
      simp only [hstate] at h
      simpa only [Pc.next, hstate, Pc.write] using h
    | opened =>
      simp only [hstate] at h
      simp only [Pc.next, hstate]
      apply Finishes.of_next
      cases hopened : k.openedAt with
      | none =>
        simp only [hopened] at h
        simpa only [Pc.next, hopened, Pc.write] using h
      | some openedAt =>
        simp only [hopened] at h
        simp only [Pc.next, hopened, Pc.write]
        exact Finishes.of_next h

theorem finishes_allowOutbound (settings : Settings) (k : Keys) (times : Readings) :
    ∃ t, t ≤ times.stamp ∧ Finishes settings Operation.allowOutbound.entry k times.look
      (allowOutbound settings k times).1 (.allow (allowOutbound settings k times).2) t := by
  have hcommand : times.command ≤ times.stamp := times.command_le.trans times.expire_le
  cases hfound : getCircuitState settings k times.look with
  | closed =>
    have hcall : allowOutbound settings k times = (k, true) := by
      rw [allowOutbound, hfound]
    refine ⟨times.look, times.look_le_stamp, finishes_getState ?_⟩
    rw [hfound, hcall]
    exact ⟨rfl, rfl, rfl⟩
  | opened =>
    have hcall : allowOutbound settings k times = (k, false) := by
      rw [allowOutbound, hfound]
    refine ⟨times.look, times.look_le_stamp, finishes_getState ?_⟩
    rw [hfound, hcall]
    exact ⟨rfl, rfl, rfl⟩
  | halfOpen =>
    refine ⟨times.command, hcommand, finishes_getState ?_⟩
    rw [hfound]
    -- both branches reach the SET NX with HALF_OPEN stored
    have hprobe : Finishes settings .setProbe { k with state := some .halfOpen } times.look
        (allowOutbound settings k times).1 (.allow (allowOutbound settings k times).2)
        times.command := by
      refine .tick times.look_le (Finishes.of_next ?_)
      rw [allowOutbound_halfOpen hfound]
      by_cases hfree : k.ProbeFree times.command
      · have hfree' : ({ k with state := some .halfOpen } : Keys).ProbeFree times.command := hfree
        simp [Pc.next, Pc.write, Next.Finishes, hfree, hfree']
      · have hfree' : ¬ ({ k with state := some .halfOpen } : Keys).ProbeFree times.command := hfree
        simp [Pc.next, Pc.write, Next.Finishes, hfree, hfree']
    show Finishes settings .getStored k times.look _ _ _
    apply Finishes.of_next
    rcases found_halfOpen hfound with hstate | hstate
    · have hnext : Pc.getStored.next settings times.look k = .goto .setHalfOpen := by
        simp [Pc.next, hstate]
      rw [hnext]
      exact Finishes.of_next hprobe
    · have hnext : Pc.getStored.next settings times.look k = .goto .setProbe := by
        simp [Pc.next, hstate]
      have hkeys : ({ k with state := some .halfOpen } : Keys) = k := by rw [← hstate]
      rw [hkeys] at hprobe
      rw [hnext]
      exact hprobe

/-- `record_failure` behind the counter. -/
theorem finishes_counted (settings : Settings) (k : Keys) (count : Nat) {now stamp : Time}
    (hle : now ≤ stamp) :
    ∃ t, t ≤ stamp ∧ (counted settings count).Finishes settings k now
      (if settings.hubCircuitFailureThreshold ≤ count then
        { k with state := some .opened, openedAt := some stamp } else k)
      (.state (if settings.hubCircuitFailureThreshold ≤ count then .opened else .closed)) t := by
  unfold counted
  split
  · refine ⟨stamp, le_rfl, .tick hle (Finishes.of_next ?_)⟩
    show Finishes settings (.setOpen false stamp) k stamp _ _ _
    apply Finishes.of_next
    show Finishes settings (.setOpenedAt false stamp) { k with state := some .opened } stamp _ _ _
    apply Finishes.of_next
    exact ⟨rfl, rfl, rfl⟩
  · exact ⟨now, hle, rfl, rfl, rfl⟩

theorem finishes_recordFailure (settings : Settings) (k : Keys) (times : Readings) :
    ∃ t, t ≤ times.stamp ∧ Finishes settings Operation.recordFailure.entry k times.look
      (recordFailure settings k times).1 (.state (recordFailure settings k times).2) t := by
  have hexpire : times.command ≤ times.stamp := times.command_le.trans times.expire_le
  by_cases hhalf : getCircuitState settings k times.look = .halfOpen
  · refine ⟨times.stamp, le_rfl, finishes_getState ?_⟩
    rw [hhalf, recordFailure_halfOpen hhalf]
    refine .tick times.look_le_stamp (Finishes.of_next ?_)
    show Finishes settings (.setOpen true times.stamp) k times.stamp _ _ _
    apply Finishes.of_next
    show Finishes settings (.setOpenedAt true times.stamp) { k with state := some .opened }
      times.stamp _ _ _
    apply Finishes.of_next
    show Finishes settings .deleteProbe _ times.stamp _ _ _
    apply Finishes.of_next
    exact ⟨rfl, rfl, rfl⟩
  · have hclass : Caller.recordFailure.classified (getCircuitState settings k times.look) =
        .goto .increment := by
      cases hfound : getCircuitState settings k times.look with
      | halfOpen => exact absurd hfound hhalf
      | closed => rfl
      | opened => rfl
    have hresult : recordFailure settings k times =
        (if settings.hubCircuitFailureThreshold ≤ (k.incremented times.command).count then
          { k.countFailure settings times with
            state := some .opened, openedAt := some times.stamp }
          else k.countFailure settings times,
        if settings.hubCircuitFailureThreshold ≤ (k.incremented times.command).count then .opened
          else .closed) := by
      rw [recordFailure_counted hhalf]
      split <;> rfl
    have hincrement : ∃ t, t ≤ times.stamp ∧ Finishes settings .increment k times.command
        (recordFailure settings k times).1 (.state (recordFailure settings k times).2) t := by
      rw [hresult]
      by_cases hone : (k.incremented times.command).count = 1
      · have hcount : k.countFailure settings times =
            (Pc.expire (k.incremented times.command).count).write settings times.expire
              (Pc.increment.write settings times.command k) := by
          rw [Keys.countFailure, if_pos hone]
        have hnext : Pc.increment.next settings times.command k =
            .goto (.expire (k.incremented times.command).count) := by
          simp only [Pc.next, if_pos hone]
        obtain ⟨t, ht, hfin⟩ := finishes_counted settings
          (k.countFailure settings times) (k.incremented times.command).count times.expire_le
        refine ⟨t, ht, .goto hnext (.tick times.command_le (Finishes.of_next ?_))⟩
        rw [hcount] at hfin ⊢
        exact hfin
      · have hcount : k.countFailure settings times =
            Pc.increment.write settings times.command k := by
          rw [Keys.countFailure, if_neg hone]
        have hnext : Pc.increment.next settings times.command k =
            counted settings (k.incremented times.command).count := by
          simp only [Pc.next, if_neg hone]
        obtain ⟨t, ht, hfin⟩ := finishes_counted settings
          (k.countFailure settings times) (k.incremented times.command).count hexpire
        refine ⟨t, ht, Finishes.of_next ?_⟩
        rw [hnext, ← hcount]
        exact hfin
    obtain ⟨t, ht, hfin⟩ := hincrement
    refine ⟨t, ht, finishes_getState ?_⟩
    rw [hclass]
    exact .tick times.look_le hfin

/-- A call alone is a run of the commands of the breaker: the same keys and the same answer. -/
theorem visit_refines (settings : Settings) (s : Breaker) (w : Nat) (hw : s.calls w = none)
    (v : Visit) (hnow : s.now ≤ v.times.look) :
    ∃ as s' t, exec (Breaker.step settings) s as = some s' ∧ s'.calls = s.calls ∧
      s'.keys = (s.keys.visit settings v).1 ∧ s'.now ≤ v.times.stamp ∧
      s'.history.getLast? = some (.returned (s.keys.visit settings v).2 t) := by
  have hfin : ∃ t, t ≤ v.times.stamp ∧ Finishes settings v.op.entry s.keys v.times.look
      (s.keys.visit settings v).1 (s.keys.visit settings v).2 t := by
    unfold Keys.visit
    cases v.op with
    | allowOutbound => exact finishes_allowOutbound settings s.keys v.times
    | recordFailure => exact finishes_recordFailure settings s.keys v.times
    | recordSuccess =>
      refine ⟨v.times.look, v.times.look_le_stamp, Finishes.of_next ?_⟩
      show Finishes settings .setClosed _ v.times.look _ _ _
      apply Finishes.of_next
      exact ⟨rfl, rfl, rfl⟩
  obtain ⟨t, ht, hfin⟩ := hfin
  let started : Breaker :=
    { s with calls := Function.update s.calls w (some ⟨v.op.entry, s.history.length⟩) }
  have hstart : s.step settings (.start w v.op) = some started := by
    rw [Breaker.step, hw]
  obtain ⟨as, s', hrun, hkeys, hend, hcalls, hlast⟩ :=
    (Finishes.tick hnow hfin).exec (s := started) rfl rfl (Function.update_self ..)
  refine ⟨.start w v.op :: as, s', t, ?_, ?_, hkeys, hend.le.trans ht, hlast⟩
  · rw [exec_cons, hstart]
    exact hrun
  · rw [hcalls, Function.update_idem, ← hw, Function.update_eq_self]

end PartnerHub.Circuit
