import PartnerHub.Lib.Slots
import PartnerHub.Lib.System
import PartnerHub.Domain.Records

/-!
# The circuit breaker of a partner

`allow_outbound`, `record_failure` and `record_success` of any number of workers on the
Redis keys of one partner. A call is cut at its Redis commands and at its readings of the
clock: between two of them other workers run, time passes and the worker may die. A command
may raise `RedisError`, before or after Redis executed it. Beside the keys the state records
when circuits were opened and closed and what the calls returned.
-/
namespace PartnerHub.Circuit

open PartnerHub.Domain

/-- A key that counts, with its time to live. -/
structure Counter where
  count : Nat
  expiresAt : Option Time
  deriving DecidableEq, Repr

/-- The values under `cb:{slug}:state`, `opened_at`, `failures` and `probe`; of the probe
only the expiry matters. -/
structure Keys where
  state : Option CircuitState := none
  openedAt : Option Time := none
  failures : Option Counter := none
  probe : Option Time := none
  deriving DecidableEq, Repr

/-- The two callers of `get_circuit_state`. -/
inductive Caller where
  | allowOutbound | recordFailure
  deriving DecidableEq, Repr

/-- The next thing a call does: a Redis command, or a reading of the clock (`compare`,
`readClock`). `reopen` is the half-open branch of `record_failure`. -/
inductive Pc where
  | getState (caller : Caller)
  | getOpenedAt (caller : Caller)
  | compare (caller : Caller) (openedAt : Time)
  | getStored
  | setHalfOpen
  | setProbe
  | readClock (reopen : Bool)
  | setOpen (reopen : Bool) (now : Time)
  | setOpenedAt (reopen : Bool) (now : Time)
  | deleteProbe
  | increment
  | expire (count : Nat)
  | deleteKeys
  | setClosed
  deriving DecidableEq, Repr

inductive Operation where
  | allowOutbound | recordFailure | recordSuccess
  deriving DecidableEq, Repr

def Operation.entry : Operation → Pc
  | .allowOutbound => .getState .allowOutbound
  | .recordFailure => .getState .recordFailure
  | .recordSuccess => .deleteKeys

/-- What a call returns. -/
inductive Answer where
  | allow (allowed : Bool)
  | state (state : CircuitState)
  deriving DecidableEq, Repr

/-- `opened` is a `record_failure` that has written `opened_at`, with the length of the
history when it read its clock; `closed` is a `record_success` that has written the state. -/
inductive Event where
  | opened (openedAt : Time) (since : Nat)
  | closed
  | returned (answer : Answer) (now : Time)
  deriving DecidableEq, Repr

/-- A call under way, with the length of the history at its last look at the circuit or the
clock. -/
structure Call where
  pc : Pc
  seen : Nat
  deriving DecidableEq, Repr

structure Breaker where
  keys : Keys
  now : Time
  calls : Nat → Option Call
  history : List Event

def Breaker.init (now : Time) : Breaker where
  keys := {}
  now := now
  calls := fun _ => none
  history := []

/-- Redis answers, or `RedisError` is raised and the command was executed or not. -/
inductive Reply where
  | answered
  | raised (executed : Bool)
  deriving DecidableEq, Repr

def Reply.executed : Reply → Bool
  | .answered => true
  | .raised executed => executed

inductive BreakerAction where
  | start (w : Nat) (op : Operation)
  | run (w : Nat) (reply : Reply)
  | die (w : Nat)
  | tick (now : Time)
  deriving DecidableEq, Repr

/-- A key with this expiry is still there. -/
def Live (now : Time) (expiresAt : Option Time) : Prop :=
  ∀ e, expiresAt = some e → now < e

instance (now : Time) (expiresAt : Option Time) : Decidable (Live now expiresAt) :=
  match expiresAt with
  | none => .isTrue fun _ h => nomatch h
  | some e => decidable_of_iff (now < e) ⟨fun h _ he => Option.some.inj he ▸ h, fun h => h e rfl⟩

/-- The failure counter a command finds. -/
def Keys.counter (k : Keys) (now : Time) : Option Counter :=
  k.failures.filter fun c => Live now c.expiresAt

/-- INCR: a missing key counts from zero and gets no expiry. -/
def Keys.incremented (k : Keys) (now : Time) : Counter :=
  match k.counter now with
  | none => ⟨1, none⟩
  | some c => ⟨c.count + 1, c.expiresAt⟩

/-- SET probe NX succeeds. -/
def Keys.ProbeFree (k : Keys) (now : Time) : Prop :=
  k.probe = none ∨ ¬ Live now k.probe

instance (k : Keys) (now : Time) : Decidable (k.ProbeFree now) :=
  inferInstanceAs (Decidable (_ ∨ _))

/-- The answer of `get_circuit_state` when the timestamp is there. -/
def elapsedState (settings : Settings) (openedAt now : Time) : CircuitState :=
  if (settings.hubCircuitOpenSeconds : Time) ≤ now - openedAt then .halfOpen else .opened

/-- `get_circuit_state` on keys that do not change meanwhile. -/
def getCircuitState (settings : Settings) (k : Keys) (now : Time) : CircuitState :=
  match k.state with
  | none => .closed
  | some .opened =>
    match k.openedAt with
    | none => .opened
    | some openedAt => elapsedState settings openedAt now
  | some state => state

/-- What the command at a program point writes. -/
def Pc.write (settings : Settings) (now : Time) (k : Keys) : Pc → Keys
  | .setHalfOpen => { k with state := some .halfOpen }
  | .setProbe =>
    if k.ProbeFree now then { k with probe := some (now + settings.hubCircuitOpenSeconds) } else k
  | .setOpen _ _ => { k with state := some .opened }
  | .setOpenedAt _ t => { k with openedAt := some t }
  | .deleteProbe => { k with probe := none }
  | .increment => { k with failures := some (k.incremented now) }
  | .expire _ => { k with
      failures := (k.counter now).map fun c =>
        { c with expiresAt := some (now + settings.hubCircuitWindowSeconds) } }
  | .deleteKeys => { k with failures := none, probe := none, openedAt := none }
  | .setClosed => { k with state := some .closed }
  | _ => k

/-- What the history records of an executed command. -/
def Pc.records (seen : Nat) : Pc → List Event
  | .setOpenedAt _ t => [.opened t seen]
  | .setClosed => [.closed]
  | _ => []

/-- How a call goes on. -/
inductive Next where
  | goto (pc : Pc)
  | finish (answer : Answer)

/-- Behind `get_circuit_state`. -/
def Caller.classified : Caller → CircuitState → Next
  | .allowOutbound, .closed => .finish (.allow true)
  | .allowOutbound, .opened => .finish (.allow false)
  | .allowOutbound, .halfOpen => .goto .getStored
  | .recordFailure, .halfOpen => .goto (.readClock true)
  | .recordFailure, _ => .goto .increment

/-- `record_failure` behind the counter. -/
def counted (settings : Settings) (count : Nat) : Next :=
  if settings.hubCircuitFailureThreshold ≤ count then .goto (.readClock false)
  else .finish (.state .closed)

/-- The continuation after an answer, which is read off the keys before the command. -/
def Pc.next (settings : Settings) (now : Time) (k : Keys) : Pc → Next
  | .getState caller =>
    match k.state with
    | none => caller.classified .closed
    | some .opened => .goto (.getOpenedAt caller)
    | some state => caller.classified state
  | .getOpenedAt caller =>
    match k.openedAt with
    | none => caller.classified .opened
    | some openedAt => .goto (.compare caller openedAt)
  | .compare caller openedAt => caller.classified (elapsedState settings openedAt now)
  | .getStored => if k.state = some .opened then .goto .setHalfOpen else .goto .setProbe
  | .setHalfOpen => .goto .setProbe
  | .setProbe => .finish (.allow (k.ProbeFree now))
  | .readClock reopen => .goto (.setOpen reopen now)
  | .setOpen reopen t => .goto (.setOpenedAt reopen t)
  | .setOpenedAt true _ => .goto .deleteProbe
  | .setOpenedAt false _ => .finish (.state .opened)
  | .deleteProbe => .finish (.state .opened)
  | .increment =>
    let count := (k.incremented now).count
    if count = 1 then .goto (.expire count) else counted settings count
  | .expire count => counted settings count
  | .deleteKeys => .goto .setClosed
  | .setClosed => .finish (.state .closed)

/-- The continuation after `RedisError`: `get_circuit_state` catches its own and answers
CLOSED; the others end the call. The clock does not raise. -/
def Pc.onError : Pc → Option Next
  | .getState caller => some (caller.classified .closed)
  | .getOpenedAt caller => some (caller.classified .closed)
  | .compare _ _ => none
  | .readClock _ => none
  | .getStored => some (.finish (.allow true))
  | .setHalfOpen => some (.finish (.allow true))
  | .setProbe => some (.finish (.allow true))
  | _ => some (.finish (.state .closed))

/-- The commands and clock readings after which a call knows the circuit, or the time, as of
now. -/
def Pc.looks : Pc → Bool
  | .getState _ => true
  | .getOpenedAt _ => true
  | .readClock _ => true
  | _ => false

def Breaker.execute (settings : Settings) (s : Breaker) (c : Call) : Breaker :=
  { s with
    keys := c.pc.write settings s.now s.keys
    history := s.history ++ c.pc.records c.seen }

def Breaker.advance (s : Breaker) (w seen : Nat) : Next → Breaker
  | .goto pc => { s with calls := Function.update s.calls w (some ⟨pc, seen⟩) }
  | .finish answer => { s with
      calls := Function.update s.calls w none
      history := s.history ++ [.returned answer s.now] }

/-- The length of the history at the call's last look. -/
def Breaker.lookedAt (s : Breaker) (c : Call) : Nat :=
  if c.pc.looks then s.history.length else c.seen

def Breaker.run (settings : Settings) (s : Breaker) (w : Nat) (c : Call) : Reply → Option Breaker
  | .answered =>
    some ((s.execute settings c).advance w (s.lookedAt c) (c.pc.next settings s.now s.keys))
  | .raised executed =>
    c.pc.onError.map fun next =>
      (if executed then s.execute settings c else s).advance w (s.lookedAt c) next

def Breaker.step (settings : Settings) (s : Breaker) : BreakerAction → Option Breaker
  | .start w op =>
    match s.calls w with
    | some _ => none
    | none => some { s with calls := Function.update s.calls w (some ⟨op.entry, s.history.length⟩) }
  | .run w reply =>
    match s.calls w with
    | none => none
    | some c => s.run settings w c reply
  | .die w => (s.calls w).map fun _ => { s with calls := Function.update s.calls w none }
  | .tick now => if s.now ≤ now then some { s with now := now } else none

/-- Everything one step can do. -/
inductive BreakerStep (settings : Settings) (s : Breaker) : BreakerAction → Breaker → Prop
  | start {w : Nat} {op : Operation} (hw : s.calls w = none) :
      BreakerStep settings s (.start w op)
        { s with calls := Function.update s.calls w (some ⟨op.entry, s.history.length⟩) }
  | answered {w : Nat} {c : Call} (hw : s.calls w = some c) :
      BreakerStep settings s (.run w .answered)
        ((s.execute settings c).advance w (s.lookedAt c) (c.pc.next settings s.now s.keys))
  | raised {w : Nat} {c : Call} {next : Next} {executed : Bool} (hw : s.calls w = some c)
      (hn : c.pc.onError = some next) :
      BreakerStep settings s (.run w (.raised executed))
        ((if executed then s.execute settings c else s).advance w (s.lookedAt c) next)
  | die {w : Nat} {c : Call} (hw : s.calls w = some c) :
      BreakerStep settings s (.die w) { s with calls := Function.update s.calls w none }
  | tick {now : Time} (hle : s.now ≤ now) : BreakerStep settings s (.tick now) { s with now := now }

theorem breakerStep_of_step {settings : Settings} {s s' : Breaker} {a : BreakerAction}
    (hs : s.step settings a = some s') : BreakerStep settings s a s' := by
  cases a with
  | start w op =>
    simp only [Breaker.step] at hs
    split at hs
    · cases hs
    · rename_i hw
      cases hs
      exact .start hw
  | run w reply =>
    simp only [Breaker.step] at hs
    split at hs
    · cases hs
    · rename_i c hw
      cases reply with
      | answered =>
        cases hs
        exact .answered hw
      | raised executed =>
        obtain ⟨next, hn, rfl⟩ := Option.map_eq_some_iff.mp hs
        exact .raised hw hn
  | die w =>
    obtain ⟨c, hw, rfl⟩ := Option.map_eq_some_iff.mp hs
    exact .die hw
  | tick now =>
    simp only [Breaker.step] at hs
    split at hs
    · rename_i hle
      cases hs
      exact .tick hle
    · cases hs

@[simp] theorem advance_keys (s : Breaker) (w seen : Nat) (next : Next) :
    (s.advance w seen next).keys = s.keys := by
  cases next <;> rfl

@[simp] theorem advance_now (s : Breaker) (w seen : Nat) (next : Next) :
    (s.advance w seen next).now = s.now := by
  cases next <;> rfl

/-- The calls after a step: the one that ran, if it goes on, and the others as they were. -/
theorem advance_calls {s : Breaker} {w seen : Nat} {next : Next} {w' : Nat} {c : Call}
    (h : (s.advance w seen next).calls w' = some c) :
    (w' = w ∧ next = .goto c.pc ∧ c.seen = seen) ∨ s.calls w' = some c := by
  cases next with
  | goto pc =>
    rcases Lib.Slots.update_some_cases h with ⟨hw, he⟩ | ⟨-, h⟩
    · obtain rfl := Option.some.inj he
      exact .inl ⟨hw, rfl, rfl⟩
    · exact .inr h
  | finish answer => exact .inr (Lib.Slots.update_none_some h).1

/-- A call of worker `w` and its first `n` answers. -/
def callOf (w : Nat) (op : Operation) (n : Nat) : List BreakerAction :=
  .start w op :: List.replicate n (.run w .answered)

/-- Nine failures within the window, the first of which sets its end. -/
def nineFailures : List BreakerAction :=
  callOf 0 .recordFailure 3 ++ (List.replicate 8 (callOf 0 .recordFailure 2)).flatten

end PartnerHub.Circuit
