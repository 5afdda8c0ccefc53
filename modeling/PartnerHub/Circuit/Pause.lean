import PartnerHub.Circuit.Breaker

/-!
# The pause of an opened circuit

With a Redis that never errors, a call of `allow_outbound` that takes the circuit for half
open may be overtaken by a `record_failure` that re-opens it: its next command overwrites the
new state or takes the probe. The pause is kept in every run in which this does not happen,
the state is still OPEN when `record_failure` writes the timestamp, and no timestamp
replaces a later one.
-/
namespace PartnerHub.Circuit

open PartnerHub.Domain PartnerHub.Lib.System

/-- Runs in which no command raises. -/
def reliable (settings : Settings) (s : Breaker) : BreakerAction → Option Breaker
  | .run _ (.raised _) => none
  | a => s.step settings a

/-- After the circuit was opened at `t`, an outbound call is allowed before the pause is over
only if a `record_success` completed in between, counted from the clock reading of the
`record_failure`. -/
def KeepsPauses (settings : Settings) (history : List Event) : Prop :=
  ∀ (j : Nat) (now : Time), history[j]? = some (.returned (.allow true) now) →
    ∀ (t : Time) (since : Nat), .opened t since ∈ history.take j → t ≤ now →
      now < t + settings.hubCircuitOpenSeconds → .closed ∈ (history.take j).drop since

/-- A circuit opened at `t` that no `record_success` has closed since. -/
def InForce (history : List Event) (t : Time) : Prop :=
  ∃ since, .opened t since ∈ history ∧ .closed ∉ history.drop since

def Paused (settings : Settings) (history : List Event) (now : Time) : Prop :=
  ∃ t : Time, InForce history t ∧ now < t + settings.hubCircuitOpenSeconds

/-- A `record_failure` has opened the circuit after the first `n` events. -/
def OpenedSince (history : List Event) (n : Nat) : Prop :=
  ∃ (t : Time) (since : Nat), .opened t since ∈ history.drop n

/-- The condition on the next command of a call. A call that took the circuit for half open
does not go on under a pause that began after its look; the timestamp completes an OPEN state
and is not older than one of a pause in force. -/
def Pc.Orderly (settings : Settings) (s : Breaker) (seen : Nat) : Pc → Prop
  | .setHalfOpen => OpenedSince s.history seen → ¬ Paused settings s.history s.now
  | .setProbe => s.keys.ProbeFree s.now → OpenedSince s.history seen →
      ¬ Paused settings s.history s.now
  | .setOpenedAt _ t => (s.keys.state = some .opened ∨ .closed ∈ s.history.drop seen) ∧
      ∀ t' : Time, InForce s.history t' → s.now < t' + settings.hubCircuitOpenSeconds → t' ≤ t
  | _ => True

def Orderly (settings : Settings) (s : Breaker) : BreakerAction → Prop
  | .run w _ => ∀ c, s.calls w = some c → c.pc.Orderly settings s c.seen
  | _ => True

/-! ## Evaluating the condition -/

/-- The timestamps of the pauses in force. -/
def pausesInForce (settings : Settings) (history : List Event) (now : Time) : List Time :=
  history.filterMap fun
    | .opened t since =>
      if .closed ∉ history.drop since ∧ now < t + settings.hubCircuitOpenSeconds then some t
      else none
    | _ => none

theorem mem_pausesInForce {settings : Settings} {history : List Event} {now t : Time} :
    t ∈ pausesInForce settings history now ↔
      InForce history t ∧ now < t + settings.hubCircuitOpenSeconds := by
  unfold pausesInForce
  rw [List.mem_filterMap]
  constructor
  · rintro ⟨e, he, hsome⟩
    cases e with
    | opened t' since =>
      simp only [Option.ite_none_right_eq_some] at hsome
      obtain ⟨⟨hclosed, hlt⟩, ht⟩ := hsome
      obtain rfl := Option.some.inj ht
      exact ⟨⟨since, he, hclosed⟩, hlt⟩
    | closed => cases hsome
    | returned answer u => cases hsome
  · rintro ⟨⟨since, he, hclosed⟩, hlt⟩
    exact ⟨_, he, if_pos ⟨hclosed, hlt⟩⟩

instance (settings : Settings) (history : List Event) (now : Time) :
    Decidable (Paused settings history now) :=
  decidable_of_iff (∃ t ∈ pausesInForce settings history now, True) (by
    simp only [mem_pausesInForce, and_true]
    rfl)

def Event.isOpened : Event → Bool
  | .opened _ _ => true
  | _ => false

instance (history : List Event) (n : Nat) : Decidable (OpenedSince history n) :=
  decidable_of_iff (∃ e ∈ history.drop n, e.isOpened = true) (by
    constructor
    · rintro ⟨e, he, ho⟩
      cases e with
      | opened t since => exact ⟨t, since, he⟩
      | closed => cases ho
      | returned answer u => cases ho
    · rintro ⟨t, since, he⟩
      exact ⟨_, he, rfl⟩)

instance (settings : Settings) (history : List Event) (now t : Time) :
    Decidable (∀ t' : Time, InForce history t' → now < t' + settings.hubCircuitOpenSeconds →
      t' ≤ t) :=
  decidable_of_iff (∀ t' ∈ pausesInForce settings history now, t' ≤ t) (by
    simp only [mem_pausesInForce, and_imp])

instance (settings : Settings) (s : Breaker) (seen : Nat) (pc : Pc) :
    Decidable (pc.Orderly settings s seen) :=
  match pc with
  | .setHalfOpen => inferInstanceAs (Decidable (_ → ¬ Paused settings s.history s.now))
  | .setProbe => inferInstanceAs (Decidable (_ → _ → ¬ Paused settings s.history s.now))
  | .setOpenedAt _ t => inferInstanceAs (Decidable (_ ∧ ∀ t' : Time, InForce s.history t' →
      s.now < t' + settings.hubCircuitOpenSeconds → t' ≤ t))
  | .getState _ | .getOpenedAt _ | .compare _ _ | .getStored | .readClock _ | .setOpen _ _
  | .deleteProbe | .increment | .expire _ | .deleteKeys | .setClosed => .isTrue trivial

instance (settings : Settings) (s : Breaker) (a : BreakerAction) :
    Decidable (Orderly settings s a) :=
  match a with
  | .run w _ =>
    match h : s.calls w with
    | none => .isTrue fun c hc => by rw [h] at hc; cases hc
    | some c => decidable_of_iff (c.pc.Orderly settings s c.seen)
        ⟨fun ho c' hc' => Option.some.inj (h.symm.trans hc') ▸ ho, fun ho => ho c h⟩
  | .start _ _ => .isTrue trivial
  | .die _ => .isTrue trivial
  | .tick _ => .isTrue trivial

/-! ## Histories -/

theorem inForce_append {history events : List Event} {t : Time}
    (h : InForce (history ++ events) t) :
    (∃ since, .opened t since ∈ events ∧ .closed ∉ history.drop since) ∨ InForce history t := by
  obtain ⟨since, hmem, hclosed⟩ := h
  rw [List.drop_append, List.mem_append, not_or] at hclosed
  rcases List.mem_append.mp hmem with hmem | hmem
  · exact .inr ⟨since, hmem, hclosed.1⟩
  · exact .inl ⟨since, hmem, hclosed.1⟩

/-- Events that open nothing put no pause in force. -/
theorem inForce_of_append {history events : List Event} {t : Time}
    (he : ∀ (t : Time) (since : Nat), .opened t since ∉ events) (h : InForce (history ++ events) t) :
    InForce history t := by
  rcases inForce_append h with ⟨since, hmem, -⟩ | h
  · exact absurd hmem (he t since)
  · exact h

theorem openedSince_append {history events : List Event} {n : Nat}
    (h : OpenedSince history n) : OpenedSince (history ++ events) n := by
  obtain ⟨t, since, hmem⟩ := h
  refine ⟨t, since, ?_⟩
  rw [List.drop_append]
  exact List.mem_append_left _ hmem

theorem openedSince_opened {history : List Event} {n : Nat} (hn : n ≤ history.length) (t : Time)
    (since : Nat) : OpenedSince (history ++ [.opened t since]) n := by
  refine ⟨t, since, ?_⟩
  rw [List.drop_append_of_le_length hn]
  exact List.mem_append_right _ (List.mem_singleton_self _)

/-- A completed `record_success` ends every pause. -/
theorem not_inForce_closed {history : List Event}
    (hsince : ∀ (t : Time) (since : Nat), .opened t since ∈ history → since ≤ history.length) (t : Time) :
    ¬ InForce (history ++ [.closed]) t := by
  rintro ⟨since, hmem, hclosed⟩
  rcases List.mem_append.mp hmem with hmem | hmem
  · rw [List.drop_append_of_le_length (hsince t since hmem)] at hclosed
    exact hclosed (List.mem_append_right _ (List.mem_singleton_self _))
  · cases List.mem_singleton.mp hmem

theorem KeepsPauses.append {settings : Settings} {history : List Event} {e : Event}
    (h : KeepsPauses settings history)
    (he : ∀ now : Time, e = .returned (.allow true) now →
      ∀ (t : Time) (since : Nat), .opened t since ∈ history → now < t + settings.hubCircuitOpenSeconds →
        .closed ∈ history.drop since) : KeepsPauses settings (history ++ [e]) := by
  intro j now hj t since hmem hle hlt
  have hlen : j < (history ++ [e]).length := (List.getElem?_eq_some_iff.mp hj).1
  rw [List.length_append, List.length_singleton] at hlen
  rw [List.take_append_of_le_length (by omega)] at hmem ⊢
  rcases Nat.lt_or_ge j history.length with hlt' | hge
  · rw [List.getElem?_append_left hlt'] at hj
    exact h j now hj t since hmem hle hlt
  · have hj' : j = history.length := by omega
    subst hj'
    rw [List.getElem?_append_right le_rfl, Nat.sub_self] at hj
    rw [List.take_length] at hmem ⊢
    exact he now (Option.some.inj hj) t since hmem hlt

/-! ## What the keys and the calls know -/

/-- What a call has found out, if the circuit was not opened since it looked. -/
def Pc.Knows (settings : Settings) (history : List Event) (now : Time) : Pc → Prop
  | .compare _ openedAt => ∀ t : Time, InForce history t → now < t + settings.hubCircuitOpenSeconds →
      t ≤ openedAt
  | .getStored => ¬ Paused settings history now
  | .setHalfOpen => ¬ Paused settings history now
  | .setProbe => ¬ Paused settings history now
  | _ => True

theorem Pc.Knows.mono {settings : Settings} {history history' : List Event} {now now' : Time}
    {pc : Pc} (h : pc.Knows settings history now)
    (hf : ∀ t : Time, InForce history' t → InForce history t) (hle : now ≤ now') :
    pc.Knows settings history' now' := by
  have hpause : Paused settings history' now' → Paused settings history now := by
    rintro ⟨t, ht, hlt⟩
    exact ⟨t, hf t ht, hle.trans_lt hlt⟩
  cases pc with
  | compare caller openedAt => exact fun t ht hlt => h t (hf t ht) (hle.trans_lt hlt)
  | getStored | setHalfOpen | setProbe => exact fun hp => h (hpause hp)
  | _ => trivial

/-- A pause in force shows in the keys, and every call that looked since the last opening
knows that there is none. -/
structure Watched (settings : Settings) (s : Breaker) : Prop where
  since : ∀ (t : Time) (n : Nat), .opened t n ∈ s.history → n ≤ s.history.length
  seen : ∀ w c, s.calls w = some c → c.seen ≤ s.history.length
  keys : ∀ t : Time, InForce s.history t → s.now < t + settings.hubCircuitOpenSeconds →
    s.keys.state = some .opened ∧ ∀ openedAt, s.keys.openedAt = some openedAt → t ≤ openedAt
  calls : ∀ w c, s.calls w = some c → ¬ OpenedSince s.history c.seen →
    c.pc.Knows settings s.history s.now
  pauses : KeepsPauses settings s.history

theorem watched_init (settings : Settings) (now : Time) : Watched settings (Breaker.init now) where
  since := fun _ _ h => absurd h List.not_mem_nil
  seen := fun _ _ h => nomatch h
  keys := by
    rintro t ⟨since, hmem, -⟩
    exact absurd hmem List.not_mem_nil
  calls := fun _ _ h => nomatch h
  pauses := fun _ _ h => nomatch h

theorem Watched.not_paused {settings : Settings} {s : Breaker} (h : Watched settings s)
    (hstate : s.keys.state ≠ some .opened) : ¬ Paused settings s.history s.now := by
  rintro ⟨t, ht, hlt⟩
  exact hstate (h.keys t ht hlt).1

/-! ## Running a command -/

theorem Watched.execute_since {settings : Settings} {s : Breaker} (h : Watched settings s)
    {w : Nat} {c : Call} (hw : s.calls w = some c) :
    ∀ (t : Time) (n : Nat), .opened t n ∈ (s.execute settings c).history →
      n ≤ (s.execute settings c).history.length := by
  intro t n hmem
  have hle : s.history.length ≤ (s.execute settings c).history.length :=
    (List.sublist_append_left _ _).length_le
  rcases List.mem_append.mp hmem with hmem | hmem
  · exact (h.since t n hmem).trans hle
  · have hn : n = c.seen := by
      cases hpc : c.pc with
      | setOpenedAt reopen t' =>
        rw [hpc] at hmem
        cases List.mem_singleton.mp hmem
        rfl
      | setClosed =>
        rw [hpc] at hmem
        cases List.mem_singleton.mp hmem
      | _ =>
        rw [hpc] at hmem
        exact absurd hmem List.not_mem_nil
    rw [hn]
    exact (h.seen w c hw).trans hle

/-- The call knows that there is no pause, or the run's condition says so. -/
theorem Watched.unpaused {settings : Settings} {s : Breaker} (h : Watched settings s) {w : Nat}
    {c : Call} (hw : s.calls w = some c)
    (hok : OpenedSince s.history c.seen → ¬ Paused settings s.history s.now)
    (hpc : c.pc = .setHalfOpen ∨ c.pc = .setProbe) : ¬ Paused settings s.history s.now := by
  by_cases ho : OpenedSince s.history c.seen
  · exact hok ho
  · have hknows := h.calls w c hw ho
    rcases hpc with hpc | hpc
    · rwa [hpc] at hknows
    · rwa [hpc] at hknows

/-- Only `record_failure` puts a pause in force, with its timestamp. -/
theorem inForce_execute {settings : Settings} {s : Breaker} {c : Call} {t : Time}
    (h : InForce (s.execute settings c).history t) :
    (∃ reopen, c.pc = .setOpenedAt reopen t ∧ .closed ∉ s.history.drop c.seen) ∨
      InForce s.history t := by
  rcases inForce_append h with ⟨since, hmem, hclosed⟩ | h
  · left
    cases hpc : c.pc with
    | setOpenedAt reopen t' =>
      rw [hpc] at hmem
      cases List.mem_singleton.mp hmem
      exact ⟨reopen, rfl, hclosed⟩
    | setClosed =>
      rw [hpc] at hmem
      cases List.mem_singleton.mp hmem
    | _ =>
      rw [hpc] at hmem
      exact absurd hmem List.not_mem_nil
  · exact .inr h

theorem Watched.execute_keys {settings : Settings} {s : Breaker} (h : Watched settings s)
    {w : Nat} {c : Call} (hw : s.calls w = some c) (hok : c.pc.Orderly settings s c.seen) :
    ∀ t : Time, InForce (s.execute settings c).history t →
      s.now < t + settings.hubCircuitOpenSeconds →
        (s.execute settings c).keys.state = some .opened ∧
          ∀ openedAt, (s.execute settings c).keys.openedAt = some openedAt → t ≤ openedAt := by
  intro t ht hlt
  rcases inForce_execute ht with ⟨reopen, hpc, hclosed⟩ | hold
  · rw [hpc] at hok
    unfold Breaker.execute
    rw [hpc]
    refine ⟨hok.1.resolve_right hclosed, ?_⟩
    intro openedAt he
    exact le_of_eq (Option.some.inj he)
  · obtain ⟨hstate, hstamp⟩ := h.keys t hold hlt
    unfold Breaker.execute at ht ⊢
    cases hpc : c.pc with
    | setHalfOpen =>
      rw [hpc] at hok
      exact absurd ⟨t, hold, hlt⟩ (h.unpaused hw hok (.inl hpc))
    | setOpen reopen t' => exact ⟨rfl, hstamp⟩
    | setOpenedAt reopen t' =>
      rw [hpc] at hok
      refine ⟨hstate, ?_⟩
      intro openedAt he
      rw [← Option.some.inj he]
      exact hok.2 t hold hlt
    | deleteKeys => exact ⟨hstate, fun _ he => nomatch he⟩
    | setClosed =>
      rw [hpc] at ht
      exact absurd ht (not_inForce_closed h.since t)
    | setProbe =>
      unfold Pc.write
      simp only
      split <;> exact ⟨hstate, hstamp⟩
    | _ => exact ⟨hstate, hstamp⟩

/-- After an opening every call has looked before it; otherwise no pause is new. -/
theorem execute_knows {settings : Settings} {s : Breaker} (c : Call) {pc : Pc} {seen : Nat}
    (hseen : seen ≤ s.history.length)
    (hknows : ¬ OpenedSince s.history seen → pc.Knows settings s.history s.now)
    (hnot : ¬ OpenedSince (s.execute settings c).history seen) :
    pc.Knows settings (s.execute settings c).history s.now := by
  refine (hknows fun ho => hnot (openedSince_append ho)).mono ?_ le_rfl
  intro t ht
  rcases inForce_execute ht with ⟨reopen, hpc, -⟩ | ht
  · unfold Breaker.execute at hnot
    rw [hpc] at hnot
    exact absurd (openedSince_opened hseen t c.seen) hnot
  · exact ht

theorem counted_knows {settings : Settings} {count : Nat} {pc : Pc} {history : List Event}
    {now : Time} (hn : counted settings count = .goto pc) : pc.Knows settings history now := by
  unfold counted at hn
  split at hn <;> cases hn
  trivial

/-- What the call knows after an answer. -/
theorem Watched.next_knows {settings : Settings} {s : Breaker} (h : Watched settings s) {w : Nat}
    {c : Call} (hw : s.calls w = some c) {pc : Pc}
    (hn : c.pc.next settings s.now s.keys = .goto pc)
    (hnot : ¬ OpenedSince s.history (s.lookedAt c)) : pc.Knows settings s.history s.now := by
  have hknows : c.pc.looks = false → c.pc.Knows settings s.history s.now := by
    intro hl
    unfold Breaker.lookedAt at hnot
    rw [hl] at hnot
    exact h.calls w c hw hnot
  cases hpc : c.pc with
  | getState caller =>
    rw [hpc] at hn
    unfold Pc.next at hn
    simp only at hn
    split at hn
    · cases caller <;> cases hn
      trivial
    · cases hn
      trivial
    · rename_i state hne hstate
      have hfree := h.not_paused (by rw [hstate]; exact fun he => hne (Option.some.inj he))
      cases caller <;> cases state <;> cases hn <;> first | exact hfree | trivial
  | getOpenedAt caller =>
    rw [hpc] at hn
    unfold Pc.next at hn
    simp only at hn
    split at hn
    · cases caller <;> cases hn
      trivial
    · rename_i openedAt hstamp
      cases hn
      exact fun t ht hlt => (h.keys t ht hlt).2 openedAt hstamp
  | compare caller openedAt =>
    have hread := hknows (by rw [hpc]; rfl)
    rw [hpc] at hn hread
    unfold Pc.next at hn
    simp only [elapsedState] at hn
    split at hn
    · rename_i helapsed
      cases caller <;> cases hn
      · -- a timestamp of the pause would not have been old enough
        rintro ⟨t, ht, hlt⟩
        have hle := hread t ht hlt
        linarith
      · trivial
    · cases caller <;> cases hn
      trivial
  | getStored =>
    have hfree := hknows (by rw [hpc]; rfl)
    rw [hpc] at hn hfree
    unfold Pc.next at hn
    simp only at hn
    split at hn <;> cases hn <;> exact hfree
  | setHalfOpen =>
    have hfree := hknows (by rw [hpc]; rfl)
    rw [hpc] at hn hfree
    cases hn
    exact hfree
  | setOpenedAt reopen t =>
    rw [hpc] at hn
    cases reopen <;> cases hn
    trivial
  | increment =>
    rw [hpc] at hn
    unfold Pc.next at hn
    simp only at hn
    split at hn
    · cases hn
      trivial
    · exact counted_knows hn
  | expire count =>
    rw [hpc] at hn
    exact counted_knows hn
  | readClock reopen | setOpen reopen t | deleteKeys =>
    rw [hpc] at hn
    cases hn
    trivial
  | setProbe | deleteProbe | setClosed =>
    rw [hpc] at hn
    cases hn

/-- An outbound call is allowed only without a pause. -/
theorem Watched.next_allow {settings : Settings} {s : Breaker} (h : Watched settings s) {w : Nat}
    {c : Call} (hw : s.calls w = some c) (hok : c.pc.Orderly settings s c.seen)
    (hn : c.pc.next settings s.now s.keys = .finish (.allow true)) :
    ¬ Paused settings s.history s.now ∧ c.pc.records c.seen = [] := by
  cases hpc : c.pc with
  | getState caller =>
    refine ⟨h.not_paused ?_, rfl⟩
    intro hstate
    rw [hpc] at hn
    unfold Pc.next at hn
    rw [hstate] at hn
    cases hn
  | getOpenedAt caller =>
    rw [hpc] at hn
    unfold Pc.next at hn
    simp only at hn
    split at hn
    · cases caller <;> cases hn
    · cases hn
  | compare caller openedAt =>
    rw [hpc] at hn
    unfold Pc.next at hn
    simp only [elapsedState] at hn
    split at hn <;> cases caller <;> cases hn
  | getStored =>
    rw [hpc] at hn
    unfold Pc.next at hn
    simp only at hn
    split at hn <;> cases hn
  | setProbe =>
    refine ⟨?_, rfl⟩
    rw [hpc] at hn hok
    have hfree : s.keys.ProbeFree s.now := by simpa [Pc.next] using hn
    exact h.unpaused hw (hok hfree) (.inr hpc)
  | setOpenedAt reopen t =>
    rw [hpc] at hn
    cases reopen <;> cases hn
  | increment =>
    rw [hpc] at hn
    unfold Pc.next at hn
    simp only [counted] at hn
    split at hn
    · cases hn
    · split at hn <;> cases hn
  | expire count =>
    rw [hpc] at hn
    unfold Pc.next at hn
    simp only [counted] at hn
    split at hn <;> cases hn
  | _ =>
    rw [hpc] at hn
    cases hn

theorem execute_pauses {settings : Settings} {s : Breaker} (h : KeepsPauses settings s.history)
    (c : Call) : KeepsPauses settings (s.execute settings c).history := by
  unfold Breaker.execute
  cases hpc : c.pc with
  | setOpenedAt reopen t => exact h.append fun _ he => nomatch he
  | setClosed => exact h.append fun _ he => nomatch he
  | _ =>
    simp only [Pc.records, List.append_nil]
    exact h

theorem Watched.execute {settings : Settings} {s : Breaker} (h : Watched settings s) {w : Nat}
    {c : Call} (hw : s.calls w = some c) (hok : c.pc.Orderly settings s c.seen) :
    Watched settings (s.execute settings c) where
  since := h.execute_since hw
  seen := by
    intro w' c' hc'
    have hle : s.history.length ≤ (s.execute settings c).history.length :=
      (List.sublist_append_left _ _).length_le
    exact (h.seen w' c' hc').trans hle
  keys := h.execute_keys hw hok
  calls := fun w' c' hc' => execute_knows c (h.seen w' c' hc') (h.calls w' c' hc')
  pauses := execute_pauses h.pauses c

theorem Watched.goto {settings : Settings} {s : Breaker} (h : Watched settings s) {w seen : Nat}
    {pc : Pc} (hseen : seen ≤ s.history.length)
    (hknows : ¬ OpenedSince s.history seen → pc.Knows settings s.history s.now) :
    Watched settings (s.advance w seen (.goto pc)) where
  since := h.since
  seen := by
    intro w' c hc
    rcases Lib.Slots.update_some_cases hc with ⟨-, he⟩ | ⟨-, hc⟩
    · rw [← Option.some.inj he]
      exact hseen
    · exact h.seen w' c hc
  keys := h.keys
  calls := by
    intro w' c hc
    rcases Lib.Slots.update_some_cases hc with ⟨-, he⟩ | ⟨-, hc⟩
    · rw [← Option.some.inj he]
      exact hknows
    · exact h.calls w' c hc
  pauses := h.pauses

theorem Watched.finish {settings : Settings} {s : Breaker} (h : Watched settings s) {w seen : Nat}
    {answer : Answer} (hallow : answer = .allow true → ¬ Paused settings s.history s.now) :
    Watched settings (s.advance w seen (.finish answer)) := by
  have hnone : ∀ (t : Time) (n : Nat), .opened t n ∉ [Event.returned answer s.now] := by
    intro t n hmem
    cases List.mem_singleton.mp hmem
  have hlen : s.history.length ≤ (s.history ++ [Event.returned answer s.now]).length :=
    (List.sublist_append_left _ _).length_le
  refine ⟨?_, ?_, ?_, ?_, ?_⟩
  · intro t n hmem
    rcases List.mem_append.mp hmem with hmem | hmem
    · exact (h.since t n hmem).trans hlen
    · exact absurd hmem (hnone t n)
  · intro w' c hc
    exact (h.seen w' c (Lib.Slots.update_none_some hc).1).trans hlen
  · intro t ht
    exact h.keys t (inForce_of_append hnone ht)
  · intro w' c hc hnot
    have hknows := h.calls w' c (Lib.Slots.update_none_some hc).1
      fun ho => hnot (openedSince_append ho)
    exact hknows.mono (fun t ht => inForce_of_append hnone ht) le_rfl
  · refine h.pauses.append ?_
    intro now he t n hmem hlt
    obtain ⟨hans, hnow⟩ := Event.returned.inj he
    by_contra hclosed
    exact hallow hans ⟨t, ⟨n, hmem, hclosed⟩, hnow ▸ hlt⟩

theorem Watched.answered {settings : Settings} {s : Breaker} (h : Watched settings s) {w : Nat}
    {c : Call} (hw : s.calls w = some c) (hok : c.pc.Orderly settings s c.seen) :
    Watched settings
      ((s.execute settings c).advance w (s.lookedAt c) (c.pc.next settings s.now s.keys)) := by
  have he := h.execute hw hok
  have hlooked : s.lookedAt c ≤ s.history.length := by
    unfold Breaker.lookedAt
    split
    · exact le_rfl
    · exact h.seen w c hw
  have hlen : s.history.length ≤ (s.execute settings c).history.length :=
    (List.sublist_append_left _ _).length_le
  cases hn : c.pc.next settings s.now s.keys with
  | goto pc =>
    exact he.goto (hlooked.trans hlen) (execute_knows c hlooked (h.next_knows hw hn))
  | finish answer =>
    refine he.finish ?_
    rintro rfl
    obtain ⟨hnot, hnil⟩ := h.next_allow hw hok hn
    unfold Breaker.execute
    rw [hnil, List.append_nil]
    exact hnot

theorem Watched.step {settings : Settings} {s s' : Breaker} {a : BreakerAction}
    (h : Watched settings s) (hok : Orderly settings s a) (hs : reliable settings s a = some s') :
    Watched settings s' := by
  have hstep : s.step settings a = some s' ∧ ∀ w executed, a ≠ .run w (.raised executed) := by
    unfold reliable at hs
    split at hs
    · cases hs
    · rename_i hne
      exact ⟨hs, hne⟩
  cases breakerStep_of_step hstep.1 with
  | @start w op hw =>
    have hknows : op.entry.Knows settings s.history s.now := by
      cases op <;> trivial
    exact h.goto (le_refl s.history.length) fun _ => hknows
  | answered hw => exact h.answered hw (hok _ hw)
  | raised hw hn => exact absurd rfl (hstep.2 _ _)
  | die hw =>
    refine ⟨h.since, ?_, h.keys, ?_, h.pauses⟩
    · exact fun w' c hc => h.seen w' c (Lib.Slots.update_none_some hc).1
    · exact fun w' c hc => h.calls w' c (Lib.Slots.update_none_some hc).1
  | tick hle =>
    refine ⟨h.since, h.seen, fun t ht hlt => h.keys t ht (lt_of_le_of_lt hle hlt), ?_, h.pauses⟩
    exact fun w' c hc hnot => (h.calls w' c hc hnot).mono (fun _ ht => ht) hle

/-- In every run whose steps meet the condition, an opened circuit allows no outbound call
before the pause is over or a `record_success` has completed. -/
theorem pauses_kept (settings : Settings) (now : Time) (as : List BreakerAction)
    (hok : Along (reliable settings) (Orderly settings) (Breaker.init now) as) :
    Throughout (reliable settings) (fun s => KeepsPauses settings s.history) (Breaker.init now)
      as :=
  throughout_of_invariant (Watched settings) (fun _ _ _ h ho hs => h.step ho hs)
    (fun _ h => h.pauses) (watched_init settings now) hok

/-- Ten failures open the circuit. -/
def opensCircuit : List BreakerAction :=
  nineFailures ++ callOf 0 .recordFailure 5

/-- After the pause a probe is allowed and fails; a call that comes then is refused. -/
def failedProbe : List BreakerAction :=
  [opensCircuit, [.tick 300], callOf 1 .allowOutbound 6, callOf 1 .recordFailure 5,
    callOf 2 .allowOutbound 3].flatten

theorem failed_probe_pauses :
    Along (reliable {}) (Orderly {}) (Breaker.init 0) failedProbe ∧
      ∃ s, exec (reliable {}) (Breaker.init 0) failedProbe = some s ∧
        s.history.getLast? = some (.returned (.allow false) 300) ∧
        KeepsPauses {} s.history := by
  have hok : Along (reliable {}) (Orderly {}) (Breaker.init 0) failedProbe := by decide +kernel
  have hrun : (exec (reliable {}) (Breaker.init 0) failedProbe).map (·.history.getLast?) =
      some (some (.returned (.allow false) 300)) := by
    decide +kernel
  obtain ⟨s, hs, hlast⟩ := Option.map_eq_some_iff.mp hrun
  exact ⟨hok, s, hs, hlast, (pauses_kept {} 0 failedProbe hok).last hs⟩

/-- The same probe fails while another call stands before the probe key. -/
def overtakenProbe : List BreakerAction :=
  [opensCircuit, [.tick 300], callOf 1 .allowOutbound 6, callOf 2 .allowOutbound 2,
    callOf 1 .recordFailure 5, [.run 2 .answered]].flatten

theorem allowed_under_pause :
    ¬ ∀ (settings : Settings) (now : Time) (as : List BreakerAction),
      Throughout (reliable settings) (fun s => KeepsPauses settings s.history) (Breaker.init now)
        as := by
  intro hall
  have hrun : (exec (reliable {}) (Breaker.init 0) overtakenProbe).map (fun s =>
      (s.history[14]?, decide (.opened 300 12 ∈ s.history.take 14),
        decide (.closed ∈ (s.history.take 14).drop 12))) =
      some (some (.returned (.allow true) 300), true, false) := by
    decide +kernel
  obtain ⟨s, hs, he⟩ := Option.map_eq_some_iff.mp hrun
  obtain ⟨hallow, hopened, hclosed⟩ : s.history[14]? = some (.returned (.allow true) 300) ∧
      .opened 300 12 ∈ s.history.take 14 ∧ .closed ∉ (s.history.take 14).drop 12 := by
    simpa using he
  have hkept : KeepsPauses {} s.history := (hall {} 0 overtakenProbe).last hs
  exact hclosed (hkept 14 300 hallow 300 12 hopened le_rfl (by norm_num))

end PartnerHub.Circuit
