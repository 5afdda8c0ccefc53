import PartnerHub.Circuit.Sequential

/-!
# The breaker as a machine of three states

Over any sequence of calls, one at a time, the four keys behave as one machine with the
states CLOSED, OPEN and HALF_OPEN and a counter of failures: which failures open it, how long
it then lets nothing through, and how many probes it grants.
-/
namespace PartnerHub.Circuit

open PartnerHub.Domain

inductive AnalyticsCircuitState where
  | closed | opened | halfOpen | unknown
  deriving DecidableEq, Repr

/-- `AnalyticsCircuitState(state.value)`. -/
def AnalyticsCircuitState.ofState : CircuitState → AnalyticsCircuitState
  | .closed => .closed
  | .opened => .opened
  | .halfOpen => .halfOpen

/-- `get_analytics_circuit_state`, which decides on the keys by itself. -/
def getAnalyticsCircuitState (settings : Settings) (redis : Option Keys) (now : Time) :
    AnalyticsCircuitState :=
  match redis with
  | none => .unknown
  | some k =>
    match k.state with
    | none => .closed
    | some .opened =>
      match k.openedAt with
      | none => .opened
      | some openedAt =>
        if (settings.hubCircuitOpenSeconds : Time) ≤ now - openedAt then .halfOpen else .opened
    | some state => .ofState state

/-- The keys after some calls, none of which was there before. -/
def keysAfter (settings : Settings) (visits : List Visit) : Keys :=
  visits.foldl (fun k v => (k.visit settings v).1) {}

/-- What a call made after some others returns. -/
def answerAfter (settings : Settings) (before : List Visit) (v : Visit) : Answer :=
  ((keysAfter settings before).visit settings v).2

/-- The state a call made after some others finds. -/
def foundAfter (settings : Settings) (before : List Visit) (v : Visit) : CircuitState :=
  getCircuitState settings (keysAfter settings before) v.times.look

/-- The clock does not run backwards from one call to the next. -/
def Ordered (visits : List Visit) : Prop :=
  visits.Pairwise fun v w => v.times.stamp ≤ w.times.look

theorem keysAfter_snoc (settings : Settings) (visits : List Visit) (v : Visit) :
    keysAfter settings (visits ++ [v]) = ((keysAfter settings visits).visit settings v).1 := by
  rw [keysAfter, List.foldl_append]
  rfl

/-! ## The counter of failures -/

/-- A counter: when it started and how many failures it has counted. -/
structure Tally where
  start : Time
  count : Nat
  deriving DecidableEq, Repr

/-- A call with the state it found. -/
structure Entry where
  visit : Visit
  found : CircuitState

/-- A failure is counted unless it finds the circuit HALF_OPEN. -/
def Entry.Counted (e : Entry) : Prop := e.visit.op = .recordFailure ∧ e.found ≠ .halfOpen

instance (e : Entry) : Decidable e.Counted := inferInstanceAs (Decidable (_ ∧ _))

/-- The counter a failure joins: one that has not expired, a window after its start. -/
def Tally.running (settings : Settings) (t : Option Tally) (now : Time) : Option Tally :=
  t.filter fun c => now < c.start + settings.hubCircuitWindowSeconds

/-- A counted failure joins the running counter or starts another. -/
def Tally.join (times : Readings) : Option Tally → Tally
  | none => ⟨times.expire, 1⟩
  | some c => ⟨c.start, c.count + 1⟩

/-- A success ends the counter. -/
def Tally.next (settings : Settings) (t : Option Tally) (e : Entry) : Option Tally :=
  if e.visit.op = .recordSuccess then none
  else if e.Counted then
    some (Tally.join e.visit.times (Tally.running settings t e.visit.times.command))
  else t

/-- The counter after a history of calls. -/
def tally (settings : Settings) (history : List Entry) : Option Tally :=
  history.foldl (Tally.next settings) none

/-- The calls with the states they found, beginning with some keys. -/
def entries (settings : Settings) : Keys → List Visit → List Entry
  | _, [] => []
  | k, v :: visits =>
    ⟨v, getCircuitState settings k v.times.look⟩ :: entries settings (k.visit settings v).1 visits

def historyOf (settings : Settings) (visits : List Visit) : List Entry :=
  entries settings {} visits

theorem entries_snoc (settings : Settings) (k : Keys) (visits : List Visit) (v : Visit) :
    entries settings k (visits ++ [v]) = entries settings k visits ++
      [⟨v, getCircuitState settings (visits.foldl (fun k v => (k.visit settings v).1) k)
        v.times.look⟩] := by
  induction visits generalizing k with
  | nil => rfl
  | cons w visits ih =>
    rw [List.cons_append, entries, ih]
    rfl

theorem tally_snoc (settings : Settings) (visits : List Visit) (v : Visit) :
    tally settings (historyOf settings (visits ++ [v])) =
      Tally.next settings (tally settings (historyOf settings visits))
        ⟨v, foundAfter settings visits v⟩ := by
  rw [historyOf, entries_snoc, tally, List.foldl_append]
  rfl

/-- The failures key holds the counter. -/
structure Counts (settings : Settings) (t : Option Tally) (k : Keys) : Prop where
  stored : k.failures = t.map fun c =>
    ⟨c.count, some (c.start + settings.hubCircuitWindowSeconds)⟩
  positive : ∀ c, t = some c → 0 < c.count

variable {settings : Settings} {k : Keys} {t : Option Tally} {times : Readings}

theorem live_some {now e : Time} : Live now (some e) ↔ now < e :=
  ⟨fun h => h e rfl, fun h _ he => Option.some.inj he ▸ h⟩

/-- The command sees the running counter. -/
theorem Counts.counter (h : Counts settings t k) (now : Time) :
    k.counter now = (Tally.running settings t now).map fun c =>
      ⟨c.count, some (c.start + settings.hubCircuitWindowSeconds)⟩ := by
  rw [Keys.counter, h.stored, Tally.running]
  cases t with
  | none => rfl
  | some c => by_cases hlive : now < c.start + settings.hubCircuitWindowSeconds <;>
      simp [Option.filter, live_some, hlive]

/-- A counted failure leaves the next counter, and its count is the one that is compared. -/
theorem Counts.countFailure (h : Counts settings t k) {v : Visit} {found : CircuitState}
    (hop : v.op = .recordFailure) (hfound : found ≠ .halfOpen) :
    Counts settings (Tally.next settings t ⟨v, found⟩) (k.countFailure settings v.times) ∧
      (Tally.next settings t ⟨v, found⟩).map Tally.count =
        some (k.incremented v.times.command).count := by
  have hnext : Tally.next settings t ⟨v, found⟩ =
      some (Tally.join v.times (Tally.running settings t v.times.command)) := by
    simp [Tally.next, Entry.Counted, hop, hfound]
  have hcounter := h.counter v.times.command
  rw [hnext]
  cases hrun : Tally.running settings t v.times.command with
  | none =>
    rw [hrun] at hcounter
    have hincr : k.incremented v.times.command = ⟨1, none⟩ := by
      rw [Keys.incremented, hcounter]
      rfl
    refine ⟨⟨?_, ?_⟩, ?_⟩
    · simp [Keys.countFailure, Pc.write, hincr, Keys.counter, Option.filter, Live, Tally.join]
    · intro c hc
      cases hc
      exact Nat.one_pos
    · rw [hincr]
      rfl
  | some c =>
    rw [hrun] at hcounter
    have hpos : 0 < c.count := by
      apply h.positive
      exact Option.filter_eq_some_iff.mp hrun |>.1
    have hincr : k.incremented v.times.command =
        ⟨c.count + 1, some (c.start + settings.hubCircuitWindowSeconds)⟩ := by
      rw [Keys.incremented, hcounter]
      rfl
    have hne : c.count ≠ 0 := by omega
    refine ⟨⟨?_, ?_⟩, ?_⟩
    · simp [Keys.countFailure, Pc.write, hincr, hne, Tally.join]
    · intro d hd
      cases hd
      exact Nat.succ_pos _
    · rw [hincr]
      rfl

theorem allowOutbound_failures (settings : Settings) (k : Keys) (times : Readings) :
    (allowOutbound settings k times).1.failures = k.failures := by
  unfold allowOutbound
  split
  · rfl
  · rfl
  · simp only
    split <;> split <;> rfl

theorem Counts.visit (h : Counts settings t k) (v : Visit) :
    Counts settings (Tally.next settings t ⟨v, getCircuitState settings k v.times.look⟩)
      (k.visit settings v).1 := by
  cases hop : v.op with
  | allowOutbound =>
    have hnext (found : CircuitState) : Tally.next settings t ⟨v, found⟩ = t := by
      simp [Tally.next, Entry.Counted, hop]
    have hkeys : (k.visit settings v).1 = (allowOutbound settings k v.times).1 := by
      rw [Keys.visit, hop]
    rw [hnext, hkeys]
    exact ⟨(allowOutbound_failures settings k v.times).trans h.stored, h.positive⟩
  | recordSuccess =>
    have hnext (found : CircuitState) : Tally.next settings t ⟨v, found⟩ = none := by
      simp [Tally.next, hop]
    have hkeys : (k.visit settings v).1 = (recordSuccess k).1 := by
      rw [Keys.visit, hop]
    rw [hnext, hkeys]
    exact ⟨rfl, nofun⟩
  | recordFailure =>
    have hkeys : (k.visit settings v).1 = (recordFailure settings k v.times).1 := by
      rw [Keys.visit, hop]
    rw [hkeys]
    by_cases hhalf : getCircuitState settings k v.times.look = .halfOpen
    · have hnext : Tally.next settings t ⟨v, .halfOpen⟩ = t := by
        simp [Tally.next, Entry.Counted, hop]
      rw [recordFailure_halfOpen hhalf, hhalf, hnext]
      exact ⟨h.stored, h.positive⟩
    · obtain ⟨hcounts, -⟩ := h.countFailure hop hhalf
      rw [recordFailure_counted hhalf]
      split
      · exact ⟨hcounts.stored, hcounts.positive⟩
      · exact hcounts

theorem counts_after (settings : Settings) (visits : List Visit) :
    Counts settings (tally settings (historyOf settings visits)) (keysAfter settings visits) := by
  induction visits using List.reverseRecOn with
  | nil => exact ⟨rfl, nofun⟩
  | append_singleton visits v ih =>
    rw [tally_snoc, keysAfter_snoc]
    exact ih.visit v

/-! ## Opening -/

/-- A failure opens the circuit as of its reading of the clock. -/
structure Opens (settings : Settings) (before : List Visit) (v : Visit) : Prop where
  op : v.op = .recordFailure
  answer : answerAfter settings before v = .state .opened
  state : (keysAfter settings (before ++ [v])).state = some .opened
  openedAt : (keysAfter settings (before ++ [v])).openedAt = some v.times.stamp

/-- The failure finds the circuit HALF_OPEN, or it is counted and reaches the threshold. -/
def Trips (settings : Settings) (before : List Visit) (v : Visit) : Prop :=
  foundAfter settings before v = .halfOpen ∨
    ∃ c, tally settings (historyOf settings (before ++ [v])) = some c ∧
      settings.hubCircuitFailureThreshold ≤ c.count

theorem countFailure_state (settings : Settings) (k : Keys) (times : Readings) :
    (k.countFailure settings times).state = k.state ∧
      (k.countFailure settings times).openedAt = k.openedAt ∧
      (k.countFailure settings times).probe = k.probe := by
  unfold Keys.countFailure
  simp only
  split <;> exact ⟨rfl, rfl, rfl⟩

theorem opens_iff_trips (settings : Settings) (before : List Visit) {v : Visit}
    (hop : v.op = .recordFailure) :
    (Opens settings before v ↔ Trips settings before v) ∧
      (¬ Trips settings before v →
        (keysAfter settings (before ++ [v])).state = (keysAfter settings before).state ∧
        (keysAfter settings (before ++ [v])).openedAt = (keysAfter settings before).openedAt) := by
  have hcounts := counts_after settings before
  have hkeys : keysAfter settings (before ++ [v]) =
      (recordFailure settings (keysAfter settings before) v.times).1 := by
    rw [keysAfter_snoc, Keys.visit, hop]
  have hanswer : answerAfter settings before v =
      .state (recordFailure settings (keysAfter settings before) v.times).2 := by
    rw [answerAfter, Keys.visit, hop]
  by_cases hhalf : foundAfter settings before v = .halfOpen
  · have htrips : Trips settings before v := .inl hhalf
    rw [recordFailure_halfOpen hhalf] at hkeys hanswer
    refine ⟨iff_of_true ?_ htrips, fun h => absurd htrips h⟩
    exact ⟨hop, hanswer, by rw [hkeys], by rw [hkeys]⟩
  · obtain ⟨-, hcount⟩ := hcounts.countFailure hop hhalf
    rw [← tally_snoc] at hcount
    obtain ⟨c, hc, hcc⟩ := Option.map_eq_some_iff.mp hcount
    have htrips : Trips settings before v ↔ settings.hubCircuitFailureThreshold ≤
        ((keysAfter settings before).incremented v.times.command).count := by
      rw [Trips, ← hcc]
      constructor
      · rintro (h | ⟨d, hd, hle⟩)
        · exact absurd h hhalf
        · obtain rfl := Option.some.inj (hc.symm.trans hd)
          exact hle
      · exact fun hle => .inr ⟨c, hc, hle⟩
    rw [recordFailure_counted hhalf] at hkeys hanswer
    rw [htrips]
    obtain ⟨hstate, hopened, -⟩ := countFailure_state settings (keysAfter settings before) v.times
    split at hkeys
    · rename_i hle
      rw [if_pos hle] at hanswer
      refine ⟨iff_of_true ?_ hle, fun h => absurd hle h⟩
      exact ⟨hop, hanswer, by rw [hkeys], by rw [hkeys]⟩
    · rename_i hlt
      rw [if_neg hlt] at hanswer
      refine ⟨iff_of_false ?_ hlt, fun _ => ?_⟩
      · intro hopens
        have := hopens.answer
        rw [hanswer] at this
        cases this
      · rw [hkeys]
        exact ⟨hstate, hopened⟩

/-! ## The pause -/

/-- Since an opening at `since` without a success: OPEN as of then or later, or HALF_OPEN
with the pause over. -/
def ShutSince (settings : Settings) (since now : Time) (k : Keys) : Prop :=
  since ≤ now ∧
    ((k.state = some .opened ∧ ∃ t, k.openedAt = some t ∧ since ≤ t) ∨
      (k.state = some .halfOpen ∧ since + settings.hubCircuitOpenSeconds ≤ now))

variable {since now : Time}

/-- What a call finds during the pause. -/
theorem ShutSince.found (h : ShutSince settings since now k) (hle : now ≤ times.look) :
    getCircuitState settings k times.look = .opened ∨
      (getCircuitState settings k times.look = .halfOpen ∧
        since + settings.hubCircuitOpenSeconds ≤ times.look) := by
  obtain ⟨-, ⟨hstate, t, ht, hsince⟩ | ⟨hstate, hover⟩⟩ := h
  · have hfound : getCircuitState settings k times.look = elapsedState settings t times.look := by
      rw [getCircuitState, hstate, ht]
    rw [hfound, elapsedState]
    split
    · right
      refine ⟨rfl, ?_⟩
      linarith
    · exact .inl rfl
  · right
    refine ⟨?_, hover.trans hle⟩
    rw [getCircuitState, hstate]

theorem allowOutbound_shut (h : ShutSince settings since now k) (hle : now ≤ times.look) :
    ShutSince settings since times.stamp (allowOutbound settings k times).1 ∧
      ((allowOutbound settings k times).2 = true →
        since + settings.hubCircuitOpenSeconds ≤ times.look) := by
  have hstamp := times.look_le_stamp
  have hsince : since ≤ times.stamp := h.1.trans (hle.trans hstamp)
  rcases h.found hle with hfound | ⟨hfound, hover⟩
  · have hcall : allowOutbound settings k times = (k, false) := by
      rw [allowOutbound, hfound]
    rw [hcall]
    refine ⟨⟨hsince, ?_⟩, fun hfalse => absurd hfalse Bool.false_ne_true⟩
    exact h.2.imp_right (And.imp_right fun hend => hend.trans (hle.trans hstamp))
  · refine ⟨⟨hsince, .inr ⟨?_, hover.trans hstamp⟩⟩, fun _ => hover⟩
    rw [allowOutbound_halfOpen hfound]
    split <;> rfl

theorem recordFailure_shut (h : ShutSince settings since now k) (hle : now ≤ times.look) :
    ShutSince settings since times.stamp (recordFailure settings k times).1 := by
  have hsince : since ≤ times.stamp := h.1.trans (hle.trans times.look_le_stamp)
  by_cases hhalf : getCircuitState settings k times.look = .halfOpen
  · rw [recordFailure_halfOpen hhalf]
    exact ⟨hsince, .inl ⟨rfl, _, rfl, hsince⟩⟩
  · rw [recordFailure_counted hhalf]
    split
    · exact ⟨hsince, .inl ⟨rfl, _, rfl, hsince⟩⟩
    · obtain ⟨hstate, hopened, -⟩ := countFailure_state settings k times
      refine ⟨hsince, ?_⟩
      rw [hstate, hopened]
      exact h.2.imp_right
        (And.imp_right fun hend => hend.trans (hle.trans times.look_le_stamp))

theorem ShutSince.visit (h : ShutSince settings since now k) {v : Visit} (hle : now ≤ v.times.look)
    (hop : v.op ≠ .recordSuccess) :
    ShutSince settings since v.times.stamp (k.visit settings v).1 := by
  unfold Keys.visit
  split
  · exact (allowOutbound_shut h hle).1
  · exact recordFailure_shut h hle
  · rename_i hsuccess
    exact absurd hsuccess hop

/-! ## The probe -/

/-- A probe was granted that cannot be granted again before `expires`. -/
def Probing (expires : Time) (k : Keys) : Prop :=
  k.state = some .halfOpen ∧ ∃ e, k.probe = some e ∧ expires ≤ e

variable {expires : Time}

/-- While a probe is out another call is granted one only after its expiry. -/
theorem Probing.allow (h : Probing expires k) (times : Readings) :
    Probing expires (allowOutbound settings k times).1 ∧
      ((allowOutbound settings k times).2 = true → expires ≤ times.command) := by
  obtain ⟨hstate, e, he, hle⟩ := h
  have hfound : getCircuitState settings k times.look = .halfOpen := by
    rw [getCircuitState, hstate]
  rw [allowOutbound_halfOpen hfound]
  split
  · rename_i hfree
    have hover : expires ≤ times.command := by
      rcases hfree with hnone | hdead
      · rw [he] at hnone
        cases hnone
      · rw [he, live_some, not_lt] at hdead
        exact hle.trans hdead
    have hpos : (0 : Time) ≤ settings.hubCircuitOpenSeconds := Nat.cast_nonneg _
    refine ⟨⟨rfl, _, rfl, ?_⟩, fun _ => hover⟩
    linarith
  · exact ⟨⟨rfl, e, he, hle⟩, fun hfalse => absurd hfalse Bool.false_ne_true⟩

/-- A probe granted under HALF_OPEN is out. -/
theorem probing_of_granted (hfound : getCircuitState settings k times.look = .halfOpen)
    (hgrant : (allowOutbound settings k times).2 = true) :
    Probing (times.command + settings.hubCircuitOpenSeconds)
      (allowOutbound settings k times).1 := by
  rw [allowOutbound_halfOpen hfound] at hgrant ⊢
  split
  · exact ⟨rfl, _, rfl, le_rfl⟩
  · rename_i hnot
    rw [if_neg hnot] at hgrant
    cases hgrant

/-! ## Sequences of calls -/

/-- Calls other than a success leave the circuit shut, as of the last of them. -/
theorem shut_after {before : List Visit} {v : Visit} (hopens : Opens settings before v)
    {mid : List Visit} (hmid : ∀ w ∈ mid, w.op ≠ .recordSuccess) (hord : Ordered (v :: mid)) :
    ∃ last ∈ v :: mid,
      ShutSince settings v.times.stamp last.times.stamp (keysAfter settings (before ++ v :: mid)) := by
  induction mid using List.reverseRecOn with
  | nil =>
    refine ⟨v, List.mem_cons_self, le_rfl, .inl ⟨hopens.state, _, hopens.openedAt, le_rfl⟩⟩
  | append_singleton mid w ih =>
    obtain ⟨hord', -, hlast⟩ := List.pairwise_append.mp (List.cons_append ▸ hord)
    obtain ⟨u, hu, hshut⟩ := ih (fun x hx => hmid x (List.mem_append_left _ hx)) hord'
    have hle : u.times.stamp ≤ w.times.look := hlast u hu w List.mem_cons_self
    have hw : w.op ≠ .recordSuccess := hmid w (List.mem_append_right _ List.mem_cons_self)
    refine ⟨w, List.mem_cons_of_mem _ (List.mem_append_right _ List.mem_cons_self), ?_⟩
    rw [← List.cons_append, ← List.append_assoc, keysAfter_snoc]
    exact hshut.visit hle hw

/-- A probe stays out over calls of `allow_outbound`. -/
theorem probing_after {before : List Visit} {v : Visit} (hop : v.op = .allowOutbound)
    (hfound : foundAfter settings before v = .halfOpen)
    (hgrant : answerAfter settings before v = .allow true)
    {mid : List Visit} (hmid : ∀ w ∈ mid, w.op = .allowOutbound) :
    Probing (v.times.command + settings.hubCircuitOpenSeconds)
      (keysAfter settings (before ++ v :: mid)) := by
  induction mid using List.reverseRecOn with
  | nil =>
    rw [answerAfter, Keys.visit, hop] at hgrant
    rw [keysAfter_snoc, Keys.visit, hop]
    exact probing_of_granted hfound (Answer.allow.inj hgrant)
  | append_singleton mid w ih =>
    have hw : w.op = .allowOutbound := hmid w (List.mem_append_right _ List.mem_cons_self)
    rw [← List.cons_append, ← List.append_assoc, keysAfter_snoc, Keys.visit, hw]
    exact ((ih fun x hx => hmid x (List.mem_append_left _ hx)).allow w.times).1

/-- The two readers of the keys decide alike. -/
theorem analytics_agrees (settings : Settings) (k : Keys) (now : Time) :
    getAnalyticsCircuitState settings (some k) now =
      .ofState (getCircuitState settings k now) := by
  unfold getAnalyticsCircuitState getCircuitState
  dsimp only
  cases k.state with
  | none => rfl
  | some state =>
    cases state with
    | closed => rfl
    | halfOpen => rfl
    | opened =>
      cases k.openedAt with
      | none => rfl
      | some openedAt =>
        simp only [elapsedState]
        split <;> rfl

/-- The three-state machine, over every sequence of calls: when a failure opens the circuit;
that it stays shut for the pause; that one probe at a time is let through; and that the
analytics report the state the calls find. -/
theorem breaker_is_three_state_machine (settings : Settings) (visits : List Visit)
    (hord : Ordered visits) :
    (∀ before v after, visits = before ++ v :: after → v.op = .recordFailure →
      (Opens settings before v ↔ Trips settings before v) ∧
      (¬ Trips settings before v →
        (keysAfter settings (before ++ [v])).state = (keysAfter settings before).state ∧
        (keysAfter settings (before ++ [v])).openedAt = (keysAfter settings before).openedAt)) ∧
    (∀ before v mid w after, visits = before ++ v :: (mid ++ w :: after) →
      Opens settings before v → (∀ u ∈ mid, u.op ≠ .recordSuccess) →
      w.op = .allowOutbound → answerAfter settings (before ++ v :: mid) w = .allow true →
      v.times.stamp + settings.hubCircuitOpenSeconds ≤ w.times.look) ∧
    (∀ before v mid w after, visits = before ++ v :: (mid ++ w :: after) →
      v.op = .allowOutbound → foundAfter settings before v = .halfOpen →
      answerAfter settings before v = .allow true →
      w.op = .allowOutbound → foundAfter settings (before ++ v :: mid) w = .halfOpen →
      answerAfter settings (before ++ v :: mid) w = .allow true →
      (∃ u ∈ mid, u.op = .recordSuccess ∨ u.op = .recordFailure) ∨
        v.times.command + settings.hubCircuitOpenSeconds ≤ w.times.command) ∧
    (∀ now, getAnalyticsCircuitState settings (some (keysAfter settings visits)) now =
      .ofState (getCircuitState settings (keysAfter settings visits) now)) := by
  refine ⟨?_, ?_, ?_, ?_⟩
  · intro before v after _ hop
    exact opens_iff_trips settings before hop
  · intro before v mid w after he hopens hmid hw hanswer
    have hord' : Ordered ((v :: mid) ++ w :: after) := by
      rw [he] at hord
      exact (List.pairwise_append.mp hord).2.1
    obtain ⟨hmids, -, hlater⟩ := List.pairwise_append.mp hord'
    obtain ⟨u, hu, hshut⟩ := shut_after hopens hmid hmids
    have hle : u.times.stamp ≤ w.times.look := hlater u hu w List.mem_cons_self
    rw [answerAfter, Keys.visit, hw] at hanswer
    exact (allowOutbound_shut hshut hle).2 (Answer.allow.inj hanswer)
  · intro before v mid w after _ hv hfound hgrant hw _ hanswer
    by_cases hrec : ∃ u ∈ mid, u.op = .recordSuccess ∨ u.op = .recordFailure
    · exact .inl hrec
    · have hmid : ∀ u ∈ mid, u.op = .allowOutbound := by
        intro u hu
        cases hop : u.op with
        | allowOutbound => rfl
        | recordFailure => exact absurd ⟨u, hu, .inr hop⟩ hrec
        | recordSuccess => exact absurd ⟨u, hu, .inl hop⟩ hrec
      have hprobing := probing_after hv hfound hgrant hmid
      rw [answerAfter, Keys.visit, hw] at hanswer
      exact .inr ((hprobing.allow w.times).2 (Answer.allow.inj hanswer))
  · exact analytics_agrees settings (keysAfter settings visits)

/-- One failure, and a request during and after the pause. -/
def pauseOfOne : List Visit :=
  [⟨.recordFailure, .instant 0⟩, ⟨.allowOutbound, .instant 5⟩, ⟨.allowOutbound, .instant 301⟩]

theorem breaker_is_three_state_machine_pause :
    answerAfter { hubCircuitFailureThreshold := 1 } (pauseOfOne.take 1)
      ⟨.allowOutbound, .instant 5⟩ = .allow false ∧
    answerAfter { hubCircuitFailureThreshold := 1 } (pauseOfOne.take 2)
      ⟨.allowOutbound, .instant 301⟩ = .allow true ∧ (0 : Time) + (300 : Nat) ≤ 301 := by
  have hord : Ordered pauseOfOne := by
    norm_num [Ordered, pauseOfOne, Readings.instant]
  have hm := breaker_is_three_state_machine { hubCircuitFailureThreshold := 1 } pauseOfOne hord
  have hopens : Opens { hubCircuitFailureThreshold := 1 } [] ⟨.recordFailure, .instant 0⟩ :=
    ⟨rfl, by decide +kernel, by decide +kernel, by decide +kernel⟩
  have hanswer : answerAfter { hubCircuitFailureThreshold := 1 } (pauseOfOne.take 2)
      ⟨.allowOutbound, .instant 301⟩ = .allow true := by decide +kernel
  refine ⟨by decide +kernel, hanswer, ?_⟩
  exact hm.2.1 [] _ [⟨.allowOutbound, .instant 5⟩] _ [] rfl hopens (by simp) rfl hanswer

end PartnerHub.Circuit
