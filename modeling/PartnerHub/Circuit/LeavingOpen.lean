import PartnerHub.Circuit.Breaker

/-!
# Leaving OPEN

`record_failure` writes the state before the timestamp, and `record_success` deletes the
timestamp before it writes the state. Between the two commands the stored state may be OPEN
without a timestamp; if the worker dies or Redis fails there, the circuit stays open for
good. The pair is complete throughout a run exactly when no command of these two kinds finds
the other key in the wrong state.
-/
namespace PartnerHub.Circuit

open PartnerHub.Domain PartnerHub.Lib.System

/-- An open circuit has a timestamp from which `get_circuit_state` finds its way out. -/
def CanLeaveOpen (settings : Settings) (s : Breaker) : Prop :=
  s.keys.state = some .opened → ∃ t, s.keys.openedAt = some t ∧ t ≤ s.now ∧
    ∀ later, t + settings.hubCircuitOpenSeconds ≤ later →
      getCircuitState settings s.keys later = .halfOpen

def Keys.Paired (k : Keys) (now : Time) : Prop :=
  k.state = some .opened → ∃ t, k.openedAt = some t ∧ t ≤ now

/-- The state is set to OPEN only beside a timestamp, and a timestamp is deleted only while
the state is not OPEN. -/
def Pc.KeepsPair (k : Keys) : Pc → Prop
  | .setOpen _ _ => k.openedAt ≠ none
  | .deleteKeys => k.state ≠ some .opened
  | _ => True

def KeepsPair (s : Breaker) : BreakerAction → Prop
  | .run w reply => ∀ c, s.calls w = some c → reply.executed = true → c.pc.KeepsPair s.keys
  | _ => True

theorem canLeaveOpen_iff (settings : Settings) (s : Breaker) :
    CanLeaveOpen settings s ↔ s.keys.Paired s.now := by
  constructor
  · intro h hopen
    obtain ⟨t, ht, hle, -⟩ := h hopen
    exact ⟨t, ht, hle⟩
  · intro h hopen
    obtain ⟨t, ht, hle⟩ := h hopen
    refine ⟨t, ht, hle, ?_⟩
    intro later hlater
    have helapsed : (settings.hubCircuitOpenSeconds : Time) ≤ later - t := by linarith
    unfold getCircuitState
    rw [hopen, ht]
    exact if_pos helapsed

/-! ## Timestamps are not in the future -/

/-- The timestamp a call is going to write. -/
def Pc.stamp : Pc → Option Time
  | .setOpen _ t => some t
  | .setOpenedAt _ t => some t
  | _ => none

structure Timely (s : Breaker) : Prop where
  stored : ∀ t, s.keys.openedAt = some t → t ≤ s.now
  carried : ∀ w c, s.calls w = some c → ∀ t, c.pc.stamp = some t → t ≤ s.now

theorem timely_init (now : Time) : Timely (Breaker.init now) where
  stored := fun _ h => nomatch h
  carried := fun _ _ h => nomatch h

theorem write_openedAt {settings : Settings} {now : Time} {k : Keys} {pc : Pc} {t : Time}
    (h : (pc.write settings now k).openedAt = some t) :
    k.openedAt = some t ∨ pc.stamp = some t := by
  cases pc with
  | setOpenedAt reopen t' => exact .inr h
  | setProbe =>
    unfold Pc.write at h
    simp only at h
    split at h <;> exact .inl h
  | deleteKeys => cases h
  | _ => exact .inl h

theorem classified_stamp {caller : Caller} {state : CircuitState} {pc : Pc}
    (h : caller.classified state = .goto pc) : pc.stamp = none := by
  cases caller <;> cases state <;> cases h <;> rfl

theorem counted_stamp {settings : Settings} {count : Nat} {pc : Pc}
    (h : counted settings count = .goto pc) : pc.stamp = none := by
  unfold counted at h
  split at h <;> cases h
  rfl

/-- A timestamp is a reading of the clock and is passed on. -/
theorem next_stamp {settings : Settings} {now : Time} {k : Keys} {pc pc' : Pc}
    (hn : pc.next settings now k = .goto pc') :
    pc'.stamp = none ∨ pc'.stamp = some now ∨ pc'.stamp = pc.stamp := by
  cases pc with
  | getState caller =>
    left
    unfold Pc.next at hn
    simp only at hn
    split at hn
    · exact classified_stamp hn
    · cases hn
      rfl
    · exact classified_stamp hn
  | getOpenedAt caller =>
    left
    unfold Pc.next at hn
    simp only at hn
    split at hn
    · exact classified_stamp hn
    · cases hn
      rfl
  | compare caller openedAt => exact .inl (classified_stamp hn)
  | getStored =>
    left
    unfold Pc.next at hn
    simp only at hn
    split at hn <;> cases hn <;> rfl
  | readClock reopen =>
    cases hn
    exact .inr (.inl rfl)
  | setOpen reopen t =>
    cases hn
    exact .inr (.inr rfl)
  | setOpenedAt reopen t =>
    cases reopen <;> cases hn
    exact .inl rfl
  | increment =>
    left
    unfold Pc.next at hn
    simp only at hn
    split at hn
    · cases hn
      rfl
    · exact counted_stamp hn
  | expire count => exact .inl (counted_stamp hn)
  | setHalfOpen | deleteKeys =>
    cases hn
    exact .inl rfl
  | setProbe | deleteProbe | setClosed => cases hn

theorem onError_stamp {pc pc' : Pc} (hn : pc.onError = some (.goto pc')) : pc'.stamp = none := by
  cases pc with
  | getState caller => exact classified_stamp (Option.some.inj hn)
  | getOpenedAt caller => exact classified_stamp (Option.some.inj hn)
  | _ => cases hn

theorem Timely.execute {settings : Settings} {s : Breaker} (h : Timely s) {w : Nat} {c : Call}
    (hw : s.calls w = some c) : Timely (s.execute settings c) where
  stored := by
    intro t ht
    rcases write_openedAt ht with ht | ht
    · exact h.stored t ht
    · exact h.carried w c hw t ht
  carried := h.carried

theorem Timely.advance {s : Breaker} (h : Timely s) {w seen : Nat} {next : Next}
    (hn : ∀ pc, next = .goto pc → ∀ t, pc.stamp = some t → t ≤ s.now) :
    Timely (s.advance w seen next) where
  stored := by
    rw [advance_keys, advance_now]
    exact h.stored
  carried := by
    intro w' c hc t ht
    rw [advance_now]
    rcases advance_calls hc with ⟨-, hgoto, -⟩ | hc
    · exact hn c.pc hgoto t ht
    · exact h.carried w' c hc t ht

theorem Timely.step {settings : Settings} {s s' : Breaker} {a : BreakerAction} (h : Timely s)
    (hs : s.step settings a = some s') : Timely s' := by
  cases breakerStep_of_step hs with
  | @start w op hw =>
    refine ⟨h.stored, ?_⟩
    intro w' c hc t ht
    rcases Lib.Slots.update_some_cases hc with ⟨-, he⟩ | ⟨-, hc⟩
    · obtain rfl := Option.some.inj he
      cases op <;> cases ht
    · exact h.carried w' c hc t ht
  | @answered w c hw =>
    refine (h.execute hw).advance ?_
    intro pc hgoto t ht
    rcases next_stamp hgoto with hst | hst | hst
    · rw [hst] at ht
      cases ht
    · rw [hst] at ht
      exact le_of_eq (Option.some.inj ht).symm
    · exact h.carried w c hw t (hst ▸ ht)
  | @raised w c next executed hw hn =>
    have hexec : Timely (if executed then s.execute settings c else s) := by
      split
      · exact h.execute hw
      · exact h
    refine hexec.advance ?_
    rintro pc rfl t ht
    rw [onError_stamp hn] at ht
    cases ht
  | die hw => exact ⟨h.stored, fun w' c hc => h.carried w' c (Lib.Slots.update_none_some hc).1⟩
  | tick hle =>
    exact ⟨fun t ht => (h.stored t ht).trans hle, fun w c hc t ht => (h.carried w c hc t ht).trans hle⟩

/-! ## The pair of keys -/

/-- An executed command leaves the pair complete exactly when it meets its condition. -/
theorem paired_write_iff {settings : Settings} {now : Time} {k : Keys} {pc : Pc}
    (hk : k.Paired now) (hstored : ∀ t, k.openedAt = some t → t ≤ now)
    (hstamp : ∀ t, pc.stamp = some t → t ≤ now) :
    (pc.write settings now k).Paired now ↔ pc.KeepsPair k := by
  cases pc with
  | setOpen reopen t =>
    constructor
    · intro hp
      obtain ⟨t', ht', -⟩ := hp rfl
      change k.openedAt = some t' at ht'
      change k.openedAt ≠ none
      rw [ht']
      exact Option.some_ne_none t'
    · intro hne _
      obtain ⟨t', ht'⟩ := Option.ne_none_iff_exists'.mp hne
      exact ⟨t', ht', hstored t' ht'⟩
  | setOpenedAt reopen t => exact iff_of_true (fun _ => ⟨t, rfl, hstamp t rfl⟩) trivial
  | deleteKeys =>
    constructor
    · intro hp hopen
      obtain ⟨t, ht, -⟩ := hp hopen
      cases ht
    · intro hne hopen
      exact absurd hopen hne
  | setHalfOpen | setClosed => exact iff_of_true (fun hopen => nomatch hopen) trivial
  | setProbe =>
    refine iff_of_true ?_ trivial
    unfold Pc.write
    simp only
    split <;> exact hk
  | _ => exact iff_of_true hk trivial

theorem paired_step_iff {settings : Settings} {s s' : Breaker} {a : BreakerAction} (h : Timely s)
    (hp : s.keys.Paired s.now) (hs : s.step settings a = some s') :
    s'.keys.Paired s'.now ↔ KeepsPair s a := by
  -- what an executed command of a call means for the action that runs it
  have hexec : ∀ {w : Nat} {c : Call} {reply : Reply}, s.calls w = some c → reply.executed = true →
      ((s.execute settings c).keys.Paired s.now ↔ KeepsPair s (.run w reply)) := by
    intro w c reply hw hr
    refine (paired_write_iff hp h.stored (h.carried w c hw)).trans ?_
    constructor
    · intro hk c' hw' _
      obtain rfl := Option.some.inj (hw.symm.trans hw')
      exact hk
    · intro hall
      exact hall c hw hr
  cases breakerStep_of_step hs with
  | start hw => exact iff_of_true hp trivial
  | answered hw =>
    rw [advance_keys, advance_now]
    exact hexec hw rfl
  | @raised w c next executed hw hn =>
    rw [advance_keys, advance_now]
    cases executed with
    | true => exact hexec hw rfl
    | false => exact iff_of_true hp fun _ _ hr => nomatch hr
  | die hw => exact iff_of_true hp trivial
  | tick hle =>
    refine iff_of_true ?_ trivial
    intro hopen
    obtain ⟨t, ht, hlet⟩ := hp hopen
    exact ⟨t, ht, hlet.trans hle⟩

theorem keepsPair_of_disabled {settings : Settings} {s : Breaker} {a : BreakerAction}
    (hs : s.step settings a = none) : KeepsPair s a := by
  cases a with
  | run w reply =>
    intro c hw _
    simp only [Breaker.step, hw] at hs
    -- only a clock reading that raises is not enabled
    cases reply with
    | answered => cases hs
    | raised executed =>
      have hnone : c.pc.onError = none := Option.map_eq_none_iff.mp hs
      cases hpc : c.pc with
      | compare caller openedAt => trivial
      | readClock reopen => trivial
      | _ =>
        rw [hpc] at hnone
        cases hnone
  | _ => trivial

/-- In every state of a run an open circuit has a usable timestamp exactly when, in that run,
no state is set to OPEN without a timestamp and no timestamp is deleted under OPEN. -/
theorem can_leave_open_iff (settings : Settings) (now : Time) (as : List BreakerAction) :
    Throughout (Breaker.step settings) (CanLeaveOpen settings) (Breaker.init now) as ↔
      Along (Breaker.step settings) KeepsPair (Breaker.init now) as := by
  refine throughout_iff_along (I := Timely) (fun _ _ _ h _ hs => h.step hs) ?_
    (fun _ _ _ _ hs => keepsPair_of_disabled hs) (timely_init now) (fun hopen => nomatch hopen)
  intro s a s' h hp hs
  rw [canLeaveOpen_iff] at hp ⊢
  exact paired_step_iff h hp hs

/-- The tenth failure sets the state to OPEN and its worker dies. -/
def diesWhileOpening : List BreakerAction :=
  nineFailures ++ callOf 0 .recordFailure 4 ++ [.die 0]

theorem open_for_good :
    ∃ s, exec (Breaker.step {}) (Breaker.init 0) diesWhileOpening = some s ∧
      (∀ later, getCircuitState {} s.keys later = .opened) ∧ ¬ CanLeaveOpen {} s := by
  have hrun : (exec (Breaker.step {}) (Breaker.init 0) diesWhileOpening).map
      (fun s => (s.keys.state, s.keys.openedAt)) = some (some .opened, none) := by
    decide +kernel
  obtain ⟨s, hs, he⟩ := Option.map_eq_some_iff.mp hrun
  obtain ⟨hstate, hopened⟩ := Prod.mk.inj he
  refine ⟨s, hs, ?_, ?_⟩
  · intro later
    unfold getCircuitState
    rw [hstate, hopened]
  · intro hleave
    obtain ⟨t, ht, -⟩ := hleave hstate
    rw [hopened] at ht
    cases ht

end PartnerHub.Circuit
