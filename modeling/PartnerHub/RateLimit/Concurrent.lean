import PartnerHub.Lib.Slots
import PartnerHub.Lib.System
import PartnerHub.RateLimit.TokenBucket

/-!
# Concurrent calls of the rate limit

Any number of `allow_request` calls for one partner, cut at their Redis commands: two GETs
and two SETs. A call reads the clock before its first command; between two commands other
calls run and time passes. Beside the keys the state records the clock readings and answers
of the calls that have returned.
-/
namespace PartnerHub.RateLimit

open PartnerHub.Domain
open PartnerHub.Lib.TokenBucket
open PartnerHub.Lib.System (exec Along)

/-- The next command of a call, with what it has read. -/
inductive Pc where
  | getTokens
  | getTs (tokensRaw : Option ℚ)
  | setTokens (tokensRaw tsRaw : Option ℚ)
  | setTs (allowed : Bool)
  deriving DecidableEq, Repr

structure Call where
  currentTime : Time
  pc : Pc
  deriving DecidableEq, Repr

structure Limiter where
  keys : Keys
  now : Time
  calls : Nat → Option Call
  returned : List (Time × Bool)

def Limiter.init (now : Time) : Limiter where
  keys := {}
  now := now
  calls := fun _ => none
  returned := []

/-- `raise` is a `RedisError` at the next command of the call, which Redis has executed or
not. -/
inductive LimiterAction where
  | tick (now : Time)
  | start (w : Nat)
  | run (w : Nat)
  | raise (w : Nat) (executed : Bool)
  deriving DecidableEq, Repr

/-- Redis answers; no error is raised. -/
def LimiterAction.Answered : LimiterAction → Prop
  | .raise _ _ => False
  | _ => True

instance : DecidablePred LimiterAction.Answered := fun a =>
  match a with
  | .raise _ _ => .isFalse id
  | .tick _ => .isTrue trivial
  | .start _ => .isTrue trivial
  | .run _ => .isTrue trivial

/-- What the next command of a call writes. -/
def Call.write (rateLimitRps : ℤ) (c : Call) (keys : Keys) : Keys :=
  match c.pc with
  | .setTokens tokensRaw tsRaw =>
    { keys with tokens := some (settle rateLimitRps c.currentTime tokensRaw tsRaw).1 }
  | .setTs _ => { keys with ts := some c.currentTime }
  | _ => keys

def Limiter.goto (s : Limiter) (w : Nat) (c : Call) (pc : Pc) : Limiter :=
  { s with calls := Function.update s.calls w (some { c with pc := pc }) }

def Limiter.finish (s : Limiter) (w : Nat) (c : Call) (allowed : Bool) : Limiter :=
  { s with
    calls := Function.update s.calls w none
    returned := s.returned ++ [(c.currentTime, allowed)] }

/-- A call executes its next command and goes on or returns. -/
def Limiter.run (rateLimitRps : ℤ) (s : Limiter) (w : Nat) (c : Call) : Limiter :=
  let t := { s with keys := c.write rateLimitRps s.keys }
  match c.pc with
  | .getTokens => t.goto w c (.getTs s.keys.tokens)
  | .getTs tokensRaw => t.goto w c (.setTokens tokensRaw s.keys.ts)
  | .setTokens tokensRaw tsRaw =>
    t.goto w c (.setTs (settle rateLimitRps c.currentTime tokensRaw tsRaw).2)
  | .setTs allowed => t.finish w c allowed

def Limiter.step (rateLimitRps : ℤ) (s : Limiter) : LimiterAction → Option Limiter
  | .tick now => if s.now ≤ now then some { s with now := now } else none
  | .start w =>
    match s.calls w with
    | some _ => none
    | none =>
      if rateLimitRps ≤ 0 then some (s.finish w ⟨s.now, .getTokens⟩ false)
      else some (s.goto w ⟨s.now, .getTokens⟩ .getTokens)
  | .run w => (s.calls w).map (s.run rateLimitRps w)
  | .raise w executed =>
    (s.calls w).map fun c =>
      (if executed then { s with keys := c.write rateLimitRps s.keys } else s).finish w c true

/-- A call stands between its two SETs. -/
def Limiter.Between (s : Limiter) (w : Nat) (c : Call) (allowed : Bool) : Prop :=
  s.calls w = some c ∧ c.pc = .setTs allowed

/-- Tokens are stored on current values: both keys still hold what the call read, no other
call stands between its two SETs, and the timestamp read is not later than the clock
reading of the call. -/
def Current (s : Limiter) : LimiterAction → Prop
  | .run w => ∀ c tokensRaw tsRaw, s.calls w = some c → c.pc = .setTokens tokensRaw tsRaw →
      s.keys = { tokens := tokensRaw, ts := tsRaw } ∧
      (∀ w' c' allowed, ¬ s.Between w' c' allowed) ∧
      ∀ ts, tsRaw = some ts → ts ≤ c.currentTime
  | _ => True

/-- A call that nobody interrupts is `allow_request`. -/
theorem uninterrupted (rps : ℤ) (hr : 0 < rps) (s : Limiter) (w : Nat) (hw : s.calls w = none) :
    exec (Limiter.step rps) s [.start w, .run w, .run w, .run w, .run w] =
      some { s with
        keys := { tokens := some (settle rps s.now s.keys.tokens s.keys.ts).1, ts := some s.now }
        returned := s.returned ++ [(s.now, (allowRequest rps (some s.keys) s.now).2)] } := by
  have hfree : Function.update s.calls w none = s.calls := by
    rw [← hw, Function.update_eq_self]
  simp [exec, Limiter.step, hw, not_le.mpr hr, Limiter.goto, Limiter.run, Limiter.finish,
    Call.write, allowRequest, hfree]

/-- The calls return in the order in which they store tokens: what has returned, followed by
the call between its two SETs if there is one, is a log that conforms and that the keys track. -/
inductive Serial (rps : ℤ) (s : Limiter) : Prop
  | quiet (hnone : ∀ w c allowed, ¬ s.Between w c allowed) (htracks : Tracks rps s.returned s.keys)
      (hconf : Conforms (rps : ℚ) rps s.returned)
  | storing {w : Nat} {c : Call} {allowed : Bool} (hw : s.Between w c allowed)
      (honly : ∀ w' c' allowed', s.Between w' c' allowed' → w' = w)
      (htracks : Tracks rps (s.returned ++ [(c.currentTime, allowed)])
        { tokens := s.keys.tokens, ts := some c.currentTime })
      (hconf : Conforms (rps : ℚ) rps (s.returned ++ [(c.currentTime, allowed)]))

theorem serial_init (rps : ℤ) (now : Time) : Serial rps (Limiter.init now) :=
  .quiet (fun _ _ _ h => nomatch h.1) .unused conforms_nil

theorem Serial.conforms {rps : ℤ} {s : Limiter} (h : Serial rps s) :
    Conforms (rps : ℚ) rps s.returned := by
  cases h with
  | quiet _ _ hconf => exact hconf
  | storing _ _ _ hconf => exact (conforms_snoc.mp hconf).1

variable {rps : ℤ} {s : Limiter} {w : Nat} {c : Call}

/-- A call that goes on anywhere but between its SETs. -/
theorem between_goto {pc : Pc} (hpc : ∀ allowed, pc ≠ .setTs allowed) {w' : Nat} {c' : Call}
    {allowed : Bool} : (s.goto w c pc).Between w' c' allowed ↔ w' ≠ w ∧ s.Between w' c' allowed := by
  constructor
  · intro ⟨hc, hat⟩
    rcases Lib.Slots.update_some_cases hc with ⟨-, he⟩ | ⟨hne, h⟩
    · obtain rfl := Option.some.inj he
      exact absurd hat (hpc allowed)
    · exact ⟨hne, h, hat⟩
  · intro ⟨hne, hc, hat⟩
    exact ⟨(Function.update_of_ne hne _ _).trans hc, hat⟩

/-- Reading keeps the order: the call was not between its SETs and is not now. -/
theorem Serial.goto {pc : Pc} (h : Serial rps s) (hpc : ∀ allowed, pc ≠ .setTs allowed)
    (hfree : ∀ c' allowed, ¬ s.Between w c' allowed) : Serial rps (s.goto w c pc) := by
  cases h with
  | quiet hnone htracks hconf =>
    refine .quiet ?_ htracks hconf
    intro w' c' allowed hb
    exact hnone w' c' allowed ((between_goto hpc).mp hb).2
  | @storing v d allowed hw honly htracks hconf =>
    have hne : v ≠ w := by
      intro he
      subst he
      exact hfree d allowed hw
    refine .storing ((between_goto hpc).mpr ⟨hne, hw⟩) ?_ htracks hconf
    intro w' c' allowed' hb
    exact honly w' c' allowed' ((between_goto hpc).mp hb).2

/-- A call that stores tokens on current values is the next of the log. -/
theorem Serial.setTokens {tokensRaw tsRaw : Option ℚ} (hr : 0 < rps) (h : Serial rps s)
    (hkeys : s.keys = { tokens := tokensRaw, ts := tsRaw })
    (hnone : ∀ w' c' allowed, ¬ s.Between w' c' allowed)
    (hts : ∀ ts, tsRaw = some ts → ts ≤ c.currentTime) (hpc : c.pc = .setTokens tokensRaw tsRaw) :
    Serial rps (s.run rps w c) := by
  cases h with
  | storing hw _ _ _ => exact absurd hw (hnone _ _ _)
  | quiet _ htracks hconf =>
    rw [hkeys] at htracks
    obtain ⟨hnext, hfit⟩ := settle_tracks hr htracks hts
    have hrun : s.run rps w c = { s with keys := c.write rps s.keys }.goto w c
        (.setTs (settle rps c.currentTime tokensRaw tsRaw).2) := by
      simp only [Limiter.run, hpc]
    rw [hrun]
    refine .storing (w := w) ⟨Function.update_self .., rfl⟩ ?_ ?_ ?_
    · intro w' c' allowed' ⟨hc, hat⟩
      rcases Lib.Slots.update_some_cases hc with ⟨he, -⟩ | ⟨-, hold⟩
      · exact he
      · exact absurd ⟨hold, hat⟩ (hnone w' c' allowed')
    · simpa only [Limiter.goto, Call.write, hpc] using hnext
    · exact conforms_snoc.mpr ⟨hconf, hfit.mp⟩

/-- The call that stored its tokens stores its timestamp and returns. -/
theorem Serial.setTs {allowed : Bool} (h : Serial rps s) (hw : s.Between w c allowed) :
    Serial rps (s.run rps w c) := by
  cases h with
  | quiet hnone _ _ => exact absurd hw (hnone w c allowed)
  | @storing v d given hv honly htracks hconf =>
    obtain rfl := honly w c allowed hw
    obtain rfl := Option.some.inj (hv.1.symm.trans hw.1)
    obtain rfl := Pc.setTs.inj (hv.2.symm.trans hw.2)
    have hrun : s.run rps w d = { s with keys := d.write rps s.keys }.finish w d given := by
      simp only [Limiter.run, hw.2]
    rw [hrun]
    refine .quiet ?_ ?_ hconf
    · intro w' c' allowed' ⟨hc, hat⟩
      obtain ⟨hold, hne⟩ := Lib.Slots.update_none_some hc
      exact hne (honly w' c' allowed' ⟨hold, hat⟩)
    · simpa only [Limiter.finish, Call.write, hw.2] using htracks

theorem Serial.step {s' : Limiter} {a : LimiterAction} (hr : 0 < rps) (h : Serial rps s)
    (hok : a.Answered ∧ Current s a) (hs : s.step rps a = some s') : Serial rps s' := by
  cases a with
  | tick now =>
    simp only [Limiter.step] at hs
    split at hs
    · cases hs
      cases h with
      | quiet hnone htracks hconf => exact .quiet hnone htracks hconf
      | storing hw honly htracks hconf => exact .storing hw honly htracks hconf
    · cases hs
  | start w =>
    simp only [Limiter.step, if_neg (not_le.mpr hr)] at hs
    split at hs
    · cases hs
    · rename_i hw
      cases hs
      refine h.goto nofun ?_
      intro c' allowed hb
      exact nomatch hw.symm.trans hb.1
  | raise w executed => exact hok.1.elim
  | run w =>
    obtain ⟨c, hw, rfl⟩ := Option.map_eq_some_iff.mp hs
    have hfree (hnot : ∀ allowed, c.pc ≠ .setTs allowed) (c' : Call) (allowed : Bool) :
        ¬ s.Between w c' allowed := by
      intro hb
      obtain rfl := Option.some.inj (hw.symm.trans hb.1)
      exact hnot allowed hb.2
    cases hpc : c.pc with
    | getTokens =>
      have hrun : s.run rps w c = s.goto w c (.getTs s.keys.tokens) := by
        simp only [Limiter.run, Call.write, hpc]
      rw [hrun]
      exact h.goto nofun (hfree (by simp [hpc]))
    | getTs tokensRaw =>
      have hrun : s.run rps w c = s.goto w c (.setTokens tokensRaw s.keys.ts) := by
        simp only [Limiter.run, Call.write, hpc]
      rw [hrun]
      exact h.goto nofun (hfree (by simp [hpc]))
    | setTokens tokensRaw tsRaw =>
      obtain ⟨hkeys, hnone, hts⟩ := hok.2 c tokensRaw tsRaw hw hpc
      exact h.setTokens hr hkeys hnone hts hpc
    | setTs allowed => exact h.setTs ⟨hw, hpc⟩

/-- The share of every interval, for the calls that have returned. -/
def RateRespected (rps : ℤ) (s : Limiter) : Prop :=
  ∀ start stop : Time, start ≤ stop →
    (grantedWithin start stop s.returned : ℚ) ≤ rps + rps * (stop - start)

/-- When every call stores its tokens on current values, no interval is over-admitted. -/
theorem rate_respected_of_current (rps : ℤ) (hr : 0 < rps) (now : Time)
    (as : List LimiterAction) (s : Limiter)
    (hok : Along (Limiter.step rps) (fun s a => a.Answered ∧ Current s a) (Limiter.init now) as)
    (hrun : exec (Limiter.step rps) (Limiter.init now) as = some s) : RateRespected rps s := by
  have hpos : (0 : ℚ) ≤ rps := zero_le_one.trans (one_le_rps hr)
  have hserial : Serial rps s :=
    Lib.System.exec_invariant (Serial rps) (fun _ _ _ h hok hs => h.step hr hok hs)
      (serial_init rps now) hok hrun
  intro start stop hle
  exact hserial.conforms.grantedWithin_le hpos hpos hle

/-- The commands of one call. -/
def callOf (w : Nat) : List LimiterAction := [.start w, .run w, .run w, .run w, .run w]

/-- A call at another command than the SET of its tokens goes on. -/
theorem along_run {as : List LimiterAction} (hw : s.calls w = some c)
    (hcur : ∀ tokensRaw tsRaw, c.pc ≠ .setTokens tokensRaw tsRaw)
    (h : Along (Limiter.step rps) (fun s a => a.Answered ∧ Current s a) (s.run rps w c) as) :
    Along (Limiter.step rps) (fun s a => a.Answered ∧ Current s a) s (.run w :: as) := by
  refine Along.cons ⟨trivial, ?_⟩ ?_ h
  · intro d tokensRaw tsRaw hd hpc
    obtain rfl := Option.some.inj (hw.symm.trans hd)
    exact absurd hpc (hcur tokensRaw tsRaw)
  · rw [Limiter.step, hw, Option.map_some]

/-- A call that starts when no other is under way, at a time not before the stored one, stores
its tokens on current values. -/
theorem callOf_current (hr : 0 < rps) (s : Limiter) (w : Nat) (hidle : ∀ v, s.calls v = none)
    (hts : ∀ ts, s.keys.ts = some ts → ts ≤ s.now) :
    Along (Limiter.step rps) (fun s a => a.Answered ∧ Current s a) s (callOf w) := by
  refine Along.cons ⟨trivial, trivial⟩
    (t := s.goto w ⟨s.now, .getTokens⟩ .getTokens) (by simp [Limiter.step, hidle w, hr]) ?_
  refine along_run (c := ⟨s.now, .getTokens⟩) (Function.update_self ..) nofun ?_
  refine along_run (c := ⟨s.now, .getTs s.keys.tokens⟩) (Function.update_self ..) nofun ?_
  -- the state before the SET of the tokens: the call is the only one, and nothing is written
  generalize ht : Limiter.run rps _ w ⟨s.now, .getTs s.keys.tokens⟩ = t
  have hcalls : t.calls =
      Function.update s.calls w (some ⟨s.now, .setTokens s.keys.tokens s.keys.ts⟩) := by
    simp [← ht, Limiter.run, Limiter.goto, Call.write]
  have hkeys : t.keys = s.keys := by
    rw [← ht]
    rfl
  have hself : t.calls w = some ⟨s.now, .setTokens s.keys.tokens s.keys.ts⟩ := by
    rw [hcalls, Function.update_self]
  refine Along.cons ⟨trivial, ?_⟩ (by rw [Limiter.step, hself, Option.map_some]) ?_
  · intro c tokensRaw tsRaw hc hpc
    obtain rfl := Option.some.inj (hself.symm.trans hc)
    obtain ⟨rfl, rfl⟩ := Pc.setTokens.inj hpc
    refine ⟨hkeys, ?_, hts⟩
    intro w' c' allowed ⟨hc', hat⟩
    rw [hcalls] at hc'
    rcases Lib.Slots.update_some_cases hc' with ⟨-, he⟩ | ⟨-, hold⟩
    · obtain rfl := Option.some.inj he
      cases hat
    · exact nomatch (hidle w').symm.trans hold
  · refine along_run (c := ⟨s.now, .setTs _⟩) (Function.update_self ..) nofun ?_
    trivial

theorem along_start {as : List LimiterAction} (hr : 0 < rps) (hw : s.calls w = none)
    (h : Along (Limiter.step rps) (fun s a => a.Answered ∧ Current s a)
      (s.goto w ⟨s.now, .getTokens⟩ .getTokens) as) :
    Along (Limiter.step rps) (fun s a => a.Answered ∧ Current s a) s (.start w :: as) :=
  Along.cons ⟨trivial, trivial⟩ (by simp [Limiter.step, hw, hr]) h

/-- A call stores its tokens on what it has read. -/
theorem along_store {as : List LimiterAction} (hw : s.calls w = some c)
    (hpc : c.pc = .setTokens s.keys.tokens s.keys.ts)
    (hnone : ∀ w' c' allowed, ¬ s.Between w' c' allowed)
    (hts : ∀ ts, s.keys.ts = some ts → ts ≤ c.currentTime)
    (h : Along (Limiter.step rps) (fun s a => a.Answered ∧ Current s a) (s.run rps w c) as) :
    Along (Limiter.step rps) (fun s a => a.Answered ∧ Current s a) s (.run w :: as) := by
  refine Along.cons ⟨trivial, ?_⟩ (by rw [Limiter.step, hw, Option.map_some]) h
  intro d tokensRaw tsRaw hd hd'
  obtain rfl := Option.some.inj (hw.symm.trans hd)
  obtain ⟨rfl, rfl⟩ := Pc.setTokens.inj (hpc.symm.trans hd')
  exact ⟨rfl, hnone, hts⟩

/-- The state a full bucket of two is left in by one call. -/
def usedOnce : Limiter :=
  { Limiter.init 0 with keys := { tokens := some 1, ts := some 0 }, returned := [(0, true)] }

/-- Two calls on the used bucket, the second one reading the tokens between the two SETs of
the first. -/
def interleaved : List LimiterAction :=
  [.tick (1 / 4), .start 1, .start 2, .run 1, .run 1, .run 1, .run 2, .run 1, .run 2, .run 2,
    .run 2]

theorem not_between_of_two {c c' : Call} (h₁ : s.calls 1 = some c) (h₂ : s.calls 2 = some c')
    (hrest : ∀ w, w ≠ 1 → w ≠ 2 → s.calls w = none) (hc : ∀ allowed, c.pc ≠ .setTs allowed)
    (hc' : ∀ allowed, c'.pc ≠ .setTs allowed) : ∀ w d allowed, ¬ s.Between w d allowed := by
  intro w d allowed hb
  obtain ⟨hd, hat⟩ := hb
  by_cases hw₁ : w = 1
  · rw [hw₁, h₁] at hd
    obtain rfl := Option.some.inj hd
    exact hc allowed hat
  by_cases hw₂ : w = 2
  · rw [hw₂, h₂] at hd
    obtain rfl := Option.some.inj hd
    exact hc' allowed hat
  rw [hrest w hw₁ hw₂] at hd
  cases hd

theorem interleaved_current :
    Along (Limiter.step 2) (fun s a => a.Answered ∧ Current s a) usedOnce interleaved := by
  refine Along.cons (t := { usedOnce with now := 1 / 4 }) ⟨trivial, trivial⟩
    (by norm_num [Limiter.step, usedOnce, Limiter.init]) ?_
  refine along_start (by decide) rfl (along_start (by decide) rfl ?_)
  refine along_run (c := ⟨1 / 4, .getTokens⟩) rfl (by simp) ?_
  refine along_run (c := ⟨1 / 4, .getTs (some 1)⟩) rfl (by simp) ?_
  refine along_store (c := ⟨1 / 4, .setTokens (some 1) (some 0)⟩) rfl rfl ?_ ?_ ?_
  · refine not_between_of_two rfl rfl ?_ (by simp) (by simp)
    intro v h₁ h₂
    simp [Limiter.run, Limiter.goto, usedOnce, Limiter.init, h₁, h₂]
  · intro ts hts
    obtain rfl := Option.some.inj hts
    norm_num
  refine along_run (c := ⟨1 / 4, .getTokens⟩) rfl (by simp) ?_
  refine along_run (c := ⟨1 / 4, .setTs _⟩) rfl (by simp) ?_
  refine along_run (c := ⟨1 / 4, .getTs _⟩) rfl (by simp) ?_
  refine along_store (c := ⟨1 / 4, .setTokens _ _⟩) rfl rfl ?_ ?_ ?_
  · intro v d allowed hb
    obtain ⟨hd, hat⟩ := hb
    by_cases hv : v = 2
    · subst hv
      cases hd
      cases hat
    · simp [Limiter.run, Limiter.goto, Limiter.finish, usedOnce, Limiter.init,
        Function.update_apply, hv] at hd
      obtain ⟨hone, hcall⟩ := hd
      rw [if_neg hone, if_neg hone] at hcall
      cases hcall
  · intro ts hts
    obtain rfl := Option.some.inj hts
    exact le_rfl
  refine along_run (c := ⟨1 / 4, .setTs _⟩) rfl (by simp) ?_
  trivial

/-- Of the two the second one is turned away. -/
theorem rate_respected_of_current_interleaved :
    ∃ s, exec (Limiter.step 2) (Limiter.init 0) (callOf 0 ++ interleaved) = some s ∧
      s.returned = [(0, true), (1 / 4, true), (1 / 4, false)] ∧ RateRespected 2 s := by
  have hused : exec (Limiter.step 2) (Limiter.init 0) (callOf 0) = some usedOnce := by
    refine (uninterrupted 2 (by decide) (Limiter.init 0) 0 rfl).trans ?_
    norm_num [usedOnce, Limiter.init, settle, allowRequest]
  have hfirst : Along (Limiter.step 2) (fun s a => a.Answered ∧ Current s a) (Limiter.init 0)
      (callOf 0) := callOf_current (by decide) _ 0 (fun _ => rfl) (by simp [Limiter.init])
  have hcount : (exec (Limiter.step 2) (Limiter.init 0) (callOf 0 ++ interleaved)).map
      (fun s => s.returned) = some [(0, true), (1 / 4, true), (1 / 4, false)] := by
    decide +kernel
  obtain ⟨s, hrun, hreturned⟩ := Option.map_eq_some_iff.mp hcount
  exact ⟨s, hrun, hreturned, rate_respected_of_current 2 (by decide) 0 _ s
    (hfirst.append hused interleaved_current) hrun⟩

/-- Two calls at one time that both read the keys before either of them writes. -/
def overlapping : List LimiterAction :=
  [.start 0, .start 1, .run 0, .run 0, .run 1, .run 1, .run 0, .run 0, .run 1, .run 1]

theorem rate_exceeded :
    ¬ ∀ (rps : ℤ), 0 < rps → ∀ (now : Time) (as : List LimiterAction) (s : Limiter),
      (∀ a ∈ as, a.Answered) → exec (Limiter.step rps) (Limiter.init now) as = some s →
      RateRespected rps s := by
  intro h
  have hcount : (exec (Limiter.step 1) (Limiter.init 0) overlapping).map
      (fun s => grantedWithin 0 0 s.returned) = some 2 := by decide +kernel
  obtain ⟨s, hrun, hs⟩ := Option.map_eq_some_iff.mp hcount
  have hbound := h 1 (by decide) 0 overlapping s (by decide) hrun 0 0 le_rfl
  rw [hs] at hbound
  norm_num at hbound

end PartnerHub.RateLimit
