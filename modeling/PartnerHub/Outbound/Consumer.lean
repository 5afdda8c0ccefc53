import PartnerHub.Domain.Records
import PartnerHub.Lib.PartitionLog
import PartnerHub.Lib.Slots
import PartnerHub.Lib.System

/-!
# The consumer loop and the group's offsets

`OutboundConsumer.run` and `_handle_message`, cut at their await points: any number of
workers of the group, each with its client's positions, the batch it iterates over and
the message in flight. A worker starts reading a partition at the group's committed
offset; `auto_offset_reset` is not passed, so without a committed offset it starts at
the end of the log. `process_outbound_message` returns or raises.
-/
namespace PartnerHub.Outbound

open PartnerHub.Domain PartnerHub.Lib PartnerHub.Lib.PartitionLog PartnerHub.Lib.Slots
  PartnerHub.Lib.System

structure TopicPartition where
  topic : Topic
  partition : Nat
  deriving DecidableEq, Repr

/-- Where `_handle_message` stands: in `wait_until_scheduled`, in
`process_outbound_message`, or in the offset commit. -/
inductive Stage where
  | waiting | processing | committing
  deriving DecidableEq, Repr

/-- Where `run` stands: inside `getmany`, between two messages, or awaiting
`_handle_message` for the first message of the batch. -/
inductive Control where
  | polling | iterating
  | handling (stage : Stage)
  deriving DecidableEq, Repr

/-- One `OutboundConsumer`. The batch holds the partitions with the offsets that are
still to be handled. -/
structure Worker where
  shutdown : Bool
  position : TopicPartition → Option Nat
  batch : List (TopicPartition × List Nat)
  control : Control

/-- The message a worker is inside `process_outbound_message` with. -/
def Worker.current (x : Worker) : Option (TopicPartition × Nat) :=
  match x.control, x.batch with
  | .handling .processing, (tp, offset :: _) :: _ => some (tp, offset)
  | _, _ => none

def Worker.started : Worker where
  shutdown := false
  position := fun _ => none
  batch := []
  control := .iterating

structure Group where
  log : TopicPartition → List Message
  committed : TopicPartition → Option Nat
  processed : TopicPartition → List Nat
  workers : Nat → Option Worker

/-- The topics and the group's offsets when the first worker is started: an offset lies
within its log. -/
structure GroupOffsets where
  log : TopicPartition → List Message
  committed : TopicPartition → Option Nat
  within : ∀ tp c, committed tp = some c → c ≤ (log tp).length

/-- No worker runs; what lies below a committed offset was processed before. -/
def Group.initial (g : GroupOffsets) : Group where
  log := g.log
  committed := g.committed
  processed := fun tp => List.range ((g.committed tp).getD 0)
  workers := fun _ => none

/-- Where the next started consumer reads a partition from. -/
def Group.startPosition (g : Group) (tp : TopicPartition) : Nat :=
  (g.committed tp).getD (g.log tp).length

/-- `consumer.commit` returns, or raises before or after the broker stored the offset. -/
inductive CommitOutcome where
  | returned
  | raised (stored : Bool)
  deriving DecidableEq, Repr

def CommitOutcome.stored : CommitOutcome → Bool
  | .returned => true
  | .raised stored => stored

/-- What a running worker does, or what happens to it: its client is given or loses a
partition, it is signalled, it goes on, or it ends by an exception. -/
inductive WorkerAction where
  | assign (tp : TopicPartition)
  | revoke (tp : TopicPartition)
  | requestShutdown
  | loop
  | getmany (counts : List (TopicPartition × Nat))
  | next
  | waited
  | returned
  | commit (outcome : CommitOutcome)
  | raised
  deriving DecidableEq, Repr

inductive ConsumerAction where
  | append (tp : TopicPartition) (m : Message)
  | start (w : Nat)
  | worker (w : Nat) (a : WorkerAction)
  deriving DecidableEq, Repr

/-- What `getmany(max_records=10)` may return: from each partition, at the client's
position, records that are in the log. -/
def Worker.CanFetch (x : Worker) (log : TopicPartition → List Message)
    (counts : List (TopicPartition × Nat)) : Prop :=
  (counts.map Prod.fst).Nodup ∧ (counts.map Prod.snd).sum ≤ 10 ∧
    ∀ c ∈ counts, ∃ p, x.position c.1 = some p ∧ p + c.2 ≤ (log c.1).length

instance (x : Worker) (log : TopicPartition → List Message) (counts : List (TopicPartition × Nat)) :
    Decidable (x.CanFetch log counts) :=
  haveI : ∀ c : TopicPartition × Nat,
      Decidable (∃ p, x.position c.1 = some p ∧ p + c.2 ≤ (log c.1).length) := fun c =>
    match h : x.position c.1 with
    | none => isFalse (by simp)
    | some p => decidable_of_iff (p + c.2 ≤ (log c.1).length) (by simp)
  inferInstanceAs (Decidable (_ ∧ _ ∧ _))

/-- The batch of the returned records, and the client's positions behind it. -/
def Worker.fetched (x : Worker) (counts : List (TopicPartition × Nat)) : Worker :=
  { x with
    batch := counts.map fun c => (c.1, List.range' ((x.position c.1).getD 0) c.2)
    position := fun tp => (x.position tp).map (· + (counts.lookup tp).getD 0)
    control := .iterating }

/-- The stage `_handle_message` begins with: only retry topics wait. -/
def firstStage (topic : Topic) : Stage :=
  if topic = .outboundPending then .processing else .waiting

/-- One turn of the two `for` loops. A requested shutdown leaves the inner one. -/
def Worker.next (x : Worker) : Option Worker :=
  match x.batch with
  | [] => none
  | (_, []) :: rest => some { x with batch := rest }
  | (tp, _ :: _) :: rest =>
    if x.shutdown then some { x with batch := rest }
    else some { x with control := .handling (firstStage tp.topic) }

/-- `_handle_message` is over; the `for` loop goes on behind its message. -/
def Worker.handled (x : Worker) : Worker :=
  { x with
    control := .iterating
    batch := match x.batch with
      | (tp, _ :: offsets) :: rest => (tp, offsets) :: rest
      | batch => batch }

def Group.setWorker (g : Group) (w : Nat) (x : Option Worker) : Group :=
  { g with workers := Function.update g.workers w x }

def Group.workerStep (g : Group) (w : Nat) (x : Worker) : WorkerAction → Option Group
  | .assign tp =>
    if tp.topic.consumed ∧ x.position tp = none then
      some (g.setWorker w (some
        { x with position := Function.update x.position tp (some (g.startPosition tp)) }))
    else none
  | .revoke tp =>
    some (g.setWorker w (some { x with position := Function.update x.position tp none }))
  | .requestShutdown => some (g.setWorker w (some { x with shutdown := true }))
  | .loop =>
    if x.control = .iterating ∧ x.batch = [] then
      some (g.setWorker w (if x.shutdown then none else some { x with control := .polling }))
    else none
  | .getmany counts =>
    if x.control = .polling ∧ x.CanFetch g.log counts then
      some (g.setWorker w (some (x.fetched counts)))
    else none
  | .next =>
    if x.control = .iterating then x.next.map fun x' => g.setWorker w (some x') else none
  | .waited =>
    if x.control = .handling .waiting then
      some (g.setWorker w (some
        (if x.shutdown then x.handled else { x with control := .handling .processing })))
    else none
  | .returned =>
    match x.control, x.batch with
    | .handling .processing, (tp, offset :: _) :: _ =>
      some { g.setWorker w (some { x with control := .handling .committing }) with
        processed := Function.update g.processed tp (offset :: g.processed tp) }
    | _, _ => none
  | .commit outcome =>
    match x.control, x.batch with
    | .handling .committing, (tp, offset :: _) :: _ =>
      some { g.setWorker w (if outcome = .returned then some x.handled else none) with
        committed := if outcome.stored then Function.update g.committed tp (some (offset + 1))
          else g.committed }
    | _, _ => none
  | .raised => some (g.setWorker w none)

def Group.step (g : Group) : ConsumerAction → Option Group
  | .append tp m => some { g with log := PartitionLog.append g.log tp m }
  | .start w => if (g.workers w).isNone then some (g.setWorker w (some .started)) else none
  | .worker w a => (g.workers w).bind fun x => g.workerStep w x a

/-- The position of the next started consumer is not beyond the offset of a message for
which `process_outbound_message` has not returned. -/
def NothingSkipped (g : Group) : Prop :=
  ∀ tp i, tp.topic.consumed = true → i < (g.log tp).length → i ∉ g.processed tp →
    g.startPosition tp ≤ i

/-- A message is appended only to a partition for which the group has an offset. -/
def AppendsPositioned (g : Group) : ConsumerAction → Prop
  | .append tp _ => tp.topic.consumed = true → g.committed tp ≠ none
  | _ => True

/-- A worker is given a partition without a committed offset only when every message in it
is processed. -/
def AssignsBehind (g : Group) : ConsumerAction → Prop
  | .worker _ (.assign tp) =>
    g.committed tp = none → ∀ i < (g.log tp).length, i ∈ g.processed tp
  | _ => True

instance (g : Group) : ∀ a, Decidable (AssignsBehind g a)
  | .worker _ (.assign tp) => inferInstanceAs (Decidable (g.committed tp = none →
      ∀ i < (g.log tp).length, i ∈ g.processed tp))
  | .append _ _ | .start _ | .worker _ (.revoke _) | .worker _ .requestShutdown | .worker _ .loop
  | .worker _ (.getmany _) | .worker _ .next | .worker _ .waited | .worker _ .returned
  | .worker _ (.commit _) | .worker _ .raised => .isTrue trivial

/-- The rest of a partition's records in a batch is a stretch of the log, and every
message before it is processed. -/
def Ready (g : Group) (segment : TopicPartition × List Nat) : Prop :=
  ∃ o n, segment.2 = List.range' o n ∧ o + n ≤ (g.log segment.1).length ∧
    ∀ i < o, i ∈ g.processed segment.1

/-- The worker still handles its batch: it is not about to leave its loops. -/
def Worker.Goes (x : Worker) : Prop :=
  x.control = .iterating → x.shutdown = false

/-- A worker that still handles its batch has passed only messages that are processed or
in the batch. -/
structure Worker.Fits (g : Group) (x : Worker) : Prop where
  empty : x.control = .polling → x.batch = []
  ready : x.Goes → ∀ segment ∈ x.batch, Ready g segment
  passed : x.Goes → ∀ tp p i, x.position tp = some p → i < p →
    i ∈ g.processed tp ∨ ∃ segment ∈ x.batch, segment.1 = tp ∧ i ∈ segment.2
  done : x.control = .handling .committing → ∀ tp o os rest,
    x.batch = (tp, o :: os) :: rest → o ∈ g.processed tp

/-- What holds while no worker starts beyond a message that is not processed. -/
structure Tracked (g : Group) : Prop where
  below : ∀ tp c, g.committed tp = some c → ∀ i < c, i ∈ g.processed tp
  stored : ∀ tp, ∀ i ∈ g.processed tp, i < (g.log tp).length
  fits : ∀ w x, g.workers w = some x → x.Fits g

/-- What holds while messages are appended only behind committed offsets. -/
def Positioned (g : Group) : Prop :=
  ∀ tp, tp.topic.consumed = true → g.committed tp = none → g.log tp = []

theorem Positioned.all_processed {g : Group} (hp : Positioned g) {tp : TopicPartition}
    (hc : tp.topic.consumed = true) (hn : g.committed tp = none) :
    ∀ i < (g.log tp).length, i ∈ g.processed tp := by
  intro i hi
  rw [hp tp hc hn] at hi
  exact absurd hi (Nat.not_lt_zero i)

theorem Tracked.start {g : Group} (h : Tracked g) {tp : TopicPartition}
    (hn : g.committed tp = none → ∀ i < (g.log tp).length, i ∈ g.processed tp) :
    ∀ i < g.startPosition tp, i ∈ g.processed tp := by
  intro i hi
  unfold Group.startPosition at hi
  cases hcom : g.committed tp with
  | none =>
    rw [hcom] at hi
    exact hn hcom i hi
  | some c =>
    rw [hcom] at hi
    exact h.below tp c hcom i hi

theorem Tracked.nothingSkipped {g : Group} (h : Tracked g) (hp : Positioned g) :
    NothingSkipped g := by
  intro tp i hc _ hi
  exact Nat.le_of_not_lt fun hlt => hi (h.start (hp.all_processed hc) i hlt)

/-- Logs and processed offsets only grow. -/
structure Extends (g g' : Group) : Prop where
  log : ∀ tp, (g.log tp).length ≤ (g'.log tp).length
  processed : ∀ tp, g.processed tp ⊆ g'.processed tp

theorem Ready.mono {g g' : Group} (he : Extends g g') {segment : TopicPartition × List Nat}
    (h : Ready g segment) : Ready g' segment := by
  obtain ⟨o, n, hs, hl, hb⟩ := h
  exact ⟨o, n, hs, hl.trans (he.log _), fun i hi => he.processed _ (hb i hi)⟩

theorem Worker.Fits.mono {g g' : Group} (he : Extends g g') {x : Worker} (h : x.Fits g) :
    x.Fits g' where
  empty := h.empty
  ready := fun hg segment hs => (h.ready hg segment hs).mono he
  passed := fun hg tp p i hp hi => (h.passed hg tp p i hp hi).imp_left fun hm => he.processed tp hm
  done := fun hc tp o os rest hb => he.processed tp (h.done hc tp o os rest hb)

theorem started_fits (g : Group) : Worker.started.Fits g where
  empty := fun _ => rfl
  ready := fun _ _ h => absurd h List.not_mem_nil
  passed := by
    intro _ tp p i hp
    cases hp
  done := by
    intro hc
    cases hc

theorem goes_of_control {x : Worker} {c : Control} (h : x.control = c) (hc : c ≠ .iterating) :
    x.Goes := fun hi => absurd (h.symm.trans hi) hc

/-- What is known of the first message of a batch. -/
theorem Worker.Fits.first {g : Group} {x : Worker} (h : x.Fits g) (hg : x.Goes)
    {tp : TopicPartition} {o : Nat} {os : List Nat} {rest : List (TopicPartition × List Nat)}
    (hb : x.batch = (tp, o :: os) :: rest) :
    (∀ i < o, i ∈ g.processed tp) ∧
      ∃ n, os = List.range' (o + 1) n ∧ o + 1 + n ≤ (g.log tp).length := by
  obtain ⟨p, n, heq, hl, hbelow⟩ := h.ready hg (tp, o :: os) (hb ▸ List.mem_cons_self)
  cases n with
  | zero => cases heq
  | succ n =>
    obtain ⟨rfl, hos⟩ := List.cons.inj (heq.trans List.range'_succ)
    exact ⟨hbelow, n, hos, (Nat.succ_add_eq_add_succ o n).trans_le hl⟩

/-- Behind its message the batch is ready once the message is processed. -/
theorem handled_fits {g : Group} {x : Worker} (h : x.Fits g) {tp : TopicPartition} {o : Nat}
    {os : List Nat} {rest : List (TopicPartition × List Nat)} (hg : x.Goes)
    (hb : x.batch = (tp, o :: os) :: rest) (hdone : o ∈ g.processed tp) :
    x.handled.Fits g := by
  have hbatch : x.handled.batch = (tp, os) :: rest := by
    simp only [Worker.handled, hb]
  refine ⟨?_, ?_, ?_, ?_⟩
  · intro hc
    cases hc
  · intro _ segment hs
    rw [hbatch] at hs
    rcases List.mem_cons.mp hs with rfl | hs
    · obtain ⟨hbelow, n, hos, hl⟩ := h.first hg hb
      refine ⟨o + 1, n, hos, hl, ?_⟩
      intro i hi
      rcases Nat.lt_succ_iff_lt_or_eq.mp hi with hlt | rfl
      · exact hbelow i hlt
      · exact hdone
    · exact h.ready hg segment (hb ▸ List.mem_cons_of_mem _ hs)
  · intro _ t p i hp hi
    rcases h.passed hg t p i hp hi with hm | ⟨segment, hs, rfl, hin⟩
    · exact .inl hm
    · rw [hb] at hs
      rw [hbatch]
      rcases List.mem_cons.mp hs with rfl | hs
      · rcases List.mem_cons.mp hin with rfl | hin
        · exact .inl hdone
        · exact .inr ⟨_, List.mem_cons_self, rfl, hin⟩
      · exact .inr ⟨segment, List.mem_cons_of_mem _ hs, rfl, hin⟩
  · intro hc
    cases hc

/-- A worker that leaves its loops says nothing about its batch any more. -/
theorem leaving_fits {g : Group} {x : Worker} (hc : x.control = .iterating)
    (hs : x.shutdown = true) : x.Fits g := by
  have hstop : ¬ x.Goes := by
    intro hg
    rw [hg hc] at hs
    cases hs
  refine ⟨?_, fun hg => absurd hg hstop, fun hg => absurd hg hstop, ?_⟩
  · intro hp
    rw [hc] at hp
    cases hp
  · intro hh
    rw [hc] at hh
    cases hh

theorem fetched_fits {g : Group} {x : Worker} (h : x.Fits g) (hc : x.control = .polling)
    {counts : List (TopicPartition × Nat)} (hf : x.CanFetch g.log counts) :
    (x.fetched counts).Fits g := by
  have hgoes : x.Goes := goes_of_control hc (by decide)
  have hpassed : ∀ tp p i, x.position tp = some p → i < p → i ∈ g.processed tp := by
    intro tp p i hp hi
    rcases h.passed hgoes tp p i hp hi with hm | ⟨segment, hs, -, -⟩
    · exact hm
    · rw [h.empty hc] at hs
      cases hs
  refine ⟨?_, ?_, ?_, ?_⟩
  · intro hi
    cases hi
  · intro _ segment hs
    obtain ⟨c, hcm, rfl⟩ := List.mem_map.mp hs
    obtain ⟨p, hp, hl⟩ := hf.2.2 c hcm
    refine ⟨p, c.2, by rw [hp]; rfl, hl, fun i hi => hpassed _ _ i hp hi⟩
  · intro _ tp q i hq hi
    obtain ⟨p, hp, rfl⟩ := Option.map_eq_some_iff.mp hq
    by_cases hlt : i < p
    · exact .inl (hpassed tp p i hp hlt)
    · cases hn : counts.lookup tp with
      | none =>
        rw [hn] at hi
        exact absurd hi hlt
      | some n =>
        rw [hn] at hi
        have hmem : (tp, n) ∈ counts := by
          obtain ⟨l₁, l₂, rfl, -⟩ := List.lookup_eq_some_iff.mp hn
          exact List.mem_append_right l₁ List.mem_cons_self
        refine .inr ⟨_, List.mem_map_of_mem hmem, rfl, ?_⟩
        rw [hp, List.mem_range'_1]
        exact ⟨Nat.le_of_not_lt hlt, hi⟩
  · intro hi
    cases hi

theorem next_fits {g : Group} {x x' : Worker} (h : x.Fits g) (hc : x.control = .iterating)
    (hn : x.next = some x') : x'.Fits g := by
  unfold Worker.next at hn
  split at hn
  · cases hn
  · rename_i tp rest hb
    cases hn
    refine ⟨?_, ?_, ?_, ?_⟩
    · intro hp
      rw [hc] at hp
      cases hp
    · intro hg segment hs
      exact h.ready hg segment (hb ▸ List.mem_cons_of_mem _ hs)
    · intro hg t p i hp hi
      rcases h.passed hg t p i hp hi with hm | ⟨segment, hs, rfl, hin⟩
      · exact .inl hm
      · rw [hb] at hs
        rcases List.mem_cons.mp hs with rfl | hs
        · cases hin
        · exact .inr ⟨segment, hs, rfl, hin⟩
    · intro hh
      rw [hc] at hh
      cases hh
  · split at hn
    · rename_i hs
      cases hn
      exact leaving_fits hc hs
    · rename_i tp o os rest hb hs
      cases hn
      have hg : x.Goes := fun _ => Bool.not_eq_true _ ▸ hs
      refine ⟨?_, fun _ => h.ready hg, fun _ => h.passed hg, ?_⟩
      · intro hp
        cases hp
      · intro hh
        unfold firstStage at hh
        split at hh <;> cases hh

/-- What a worker does itself; a rebalance and a signal happen to it. -/
def WorkerAction.own : WorkerAction → Bool
  | .assign _ | .revoke _ | .requestShutdown => false
  | _ => true

/-- Everything a worker's step can do to the worker itself. -/
inductive Worker.Moves (x : Worker) : WorkerAction → Option Worker → Prop
  | other {a : WorkerAction} (x' : Worker) (ho : a.own = false) (hc : x'.control = x.control)
      (hb : x'.batch = x.batch) (hs : x.shutdown = true → x'.shutdown = true) :
      Worker.Moves x a (some x')
  | leaves (hc : x.control = .iterating) : Worker.Moves x .loop none
  | failed {outcome : CommitOutcome} (hc : x.control = .handling .committing) :
      Worker.Moves x (.commit outcome) none
  | raised : Worker.Moves x .raised none
  | polls (hc : x.control = .iterating) (hs : x.shutdown = false) :
      Worker.Moves x .loop (some { x with control := .polling })
  | fetched {counts : List (TopicPartition × Nat)} (hc : x.control = .polling)
      (hsum : (counts.map Prod.snd).sum ≤ 10) :
      Worker.Moves x (.getmany counts) (some (x.fetched counts))
  | next {x' : Worker} (hc : x.control = .iterating) (hn : x.next = some x') :
      Worker.Moves x .next (some x')
  | waited (hc : x.control = .handling .waiting) (hs : x.shutdown = false) :
      Worker.Moves x .waited (some { x with control := .handling .processing })
  | stopped (hc : x.control = .handling .waiting) : Worker.Moves x .waited (some x.handled)
  | returned (hc : x.control = .handling .processing) :
      Worker.Moves x .returned (some { x with control := .handling .committing })
  | committed {outcome : CommitOutcome} (hc : x.control = .handling .committing) :
      Worker.Moves x (.commit outcome) (some x.handled)

theorem workerStep_moves {g g' : Group} {w : Nat} {x : Worker} {a : WorkerAction}
    (hs : g.workerStep w x a = some g') :
    ∃ x', x.Moves a x' ∧ g'.workers = Function.update g.workers w x' := by
  cases a with
  | assign tp =>
    simp only [Group.workerStep] at hs
    split at hs
    · cases hs
      exact ⟨_, .other { x with position := Function.update x.position tp _ } rfl rfl rfl id, rfl⟩
    · cases hs
  | revoke tp =>
    cases hs
    exact ⟨_, .other { x with position := Function.update x.position tp _ } rfl rfl rfl id, rfl⟩
  | requestShutdown =>
    cases hs
    exact ⟨_, .other { x with shutdown := true } rfl rfl rfl fun _ => rfl, rfl⟩
  | loop =>
    simp only [Group.workerStep] at hs
    split at hs
    · rename_i hc
      cases hs
      by_cases hshut : x.shutdown = true
      · rw [if_pos hshut]
        exact ⟨none, .leaves hc.1, rfl⟩
      · rw [if_neg hshut]
        exact ⟨_, .polls hc.1 (Bool.not_eq_true _ ▸ hshut), rfl⟩
    · cases hs
  | getmany counts =>
    simp only [Group.workerStep] at hs
    split at hs
    · rename_i hcan
      cases hs
      exact ⟨_, .fetched hcan.1 hcan.2.2.1, rfl⟩
    · cases hs
  | next =>
    simp only [Group.workerStep] at hs
    split at hs
    · rename_i hc
      obtain ⟨x', hn, rfl⟩ := Option.map_eq_some_iff.mp hs
      exact ⟨_, .next hc hn, rfl⟩
    · cases hs
  | waited =>
    simp only [Group.workerStep] at hs
    split at hs
    · rename_i hc
      cases hs
      by_cases hshut : x.shutdown = true
      · rw [if_pos hshut]
        exact ⟨_, .stopped hc, rfl⟩
      · rw [if_neg hshut]
        exact ⟨_, .waited hc (Bool.not_eq_true _ ▸ hshut), rfl⟩
    · cases hs
  | returned =>
    simp only [Group.workerStep] at hs
    split at hs
    · rename_i hc hb
      cases hs
      exact ⟨_, .returned hc, rfl⟩
    · cases hs
  | commit outcome =>
    simp only [Group.workerStep] at hs
    split at hs
    · rename_i hc hb
      cases hs
      by_cases ho : outcome = .returned
      · rw [if_pos ho]
        exact ⟨_, .committed hc, rfl⟩
      · rw [if_neg ho]
        exact ⟨none, .failed hc, rfl⟩
    · cases hs
  | raised =>
    cases hs
    exact ⟨none, .raised, rfl⟩

/-- What a worker's step leaves alone: the topics, the other workers, and, unless the call
returns, what is processed. -/
structure WorkerFrame (g g' : Group) (w : Nat) (a : WorkerAction) : Prop where
  log : g'.log = g.log
  committed : ∀ tp, g'.committed tp = none → g.committed tp = none
  processed : a ≠ .returned → g'.processed = g.processed
  workers : ∀ v, v ≠ w → g'.workers v = g.workers v

theorem workerStep_frame {g g' : Group} {w : Nat} {x : Worker} {a : WorkerAction}
    (hs : g.workerStep w x a = some g') : WorkerFrame g g' w a := by
  have hset : ∀ y, WorkerFrame g (g.setWorker w y) w a := fun y =>
    ⟨rfl, fun _ hn => hn, fun _ => rfl, fun v hv => Function.update_of_ne hv ..⟩
  cases a with
  | revoke | requestShutdown | raised =>
    cases hs
    exact hset _
  | assign | loop | getmany | waited =>
    simp only [Group.workerStep] at hs
    split at hs
    · cases hs
      exact hset _
    · cases hs
  | next =>
    simp only [Group.workerStep] at hs
    split at hs
    · obtain ⟨x', -, rfl⟩ := Option.map_eq_some_iff.mp hs
      exact hset _
    · cases hs
  | returned =>
    simp only [Group.workerStep] at hs
    split at hs
    · cases hs
      exact ⟨rfl, fun _ hn => hn, fun hne => absurd rfl hne,
        fun v hv => Function.update_of_ne hv ..⟩
    · cases hs
  | commit outcome =>
    simp only [Group.workerStep] at hs
    split at hs
    · cases hs
      refine ⟨rfl, ?_, fun _ => rfl, fun v hv => Function.update_of_ne hv ..⟩
      intro tp hn
      by_contra hsome
      obtain ⟨c, hc⟩ := Option.ne_none_iff_exists'.mp hsome
      revert hn
      show ¬ (if outcome.stored = true then _ else g.committed) tp = none
      split
      · rw [Function.update_apply]
        split
        · exact fun hn => by cases hn
        · exact hsome
      · exact hsome
    · cases hs

theorem Tracked.setWorker {g : Group} (h : Tracked g) (w : Nat) {y : Option Worker}
    (hy : ∀ x, y = some x → x.Fits g) : Tracked (g.setWorker w y) where
  below := h.below
  stored := h.stored
  fits := by
    intro v x hx
    have he : Extends g (g.setWorker w y) := ⟨fun _ => le_rfl, fun _ _ hi => hi⟩
    rcases update_some_cases hx with ⟨-, hsome⟩ | ⟨-, hold⟩
    · exact (hy x hsome).mono he
    · exact (h.fits v x hold).mono he

theorem mem_processed_update {g : Group} {tp t : TopicPartition} {o i : Nat} :
    i ∈ Function.update g.processed tp (o :: g.processed tp) t ↔
      i ∈ g.processed t ∨ (t = tp ∧ i = o) := by
  by_cases ht : t = tp
  · subst ht
    rw [Function.update_self, List.mem_cons]
    tauto
  · rw [Function.update_of_ne ht]
    tauto

theorem tracked_returned {g : Group} (h : Tracked g) {tp : TopicPartition} {o : Nat}
    (ho : o < (g.log tp).length) :
    Tracked { g with processed := Function.update g.processed tp (o :: g.processed tp) } := by
  have he : Extends g
      { g with processed := Function.update g.processed tp (o :: g.processed tp) } :=
    ⟨fun _ => le_rfl, fun _ _ hi => mem_processed_update.mpr (.inl hi)⟩
  refine ⟨fun t c hc i hi => he.processed t (h.below t c hc i hi), ?_,
    fun w x hx => (h.fits w x hx).mono he⟩
  intro t i hi
  rcases mem_processed_update.mp hi with hold | ⟨rfl, rfl⟩
  · exact h.stored t i hold
  · exact ho

theorem tracked_committed {g : Group} (h : Tracked g) {tp : TopicPartition} {c : Nat}
    (hb : ∀ i < c, i ∈ g.processed tp) :
    Tracked { g with committed := Function.update g.committed tp (some c) } := by
  have he : Extends g { g with committed := Function.update g.committed tp (some c) } :=
    ⟨fun _ => le_rfl, fun _ _ hi => hi⟩
  refine ⟨?_, h.stored, fun w x hx => (h.fits w x hx).mono he⟩
  intro t c' hc' i hi
  rcases update_some_cases hc' with ⟨rfl, hsome⟩ | ⟨-, hold⟩
  · obtain rfl := Option.some.inj hsome
    exact hb i hi
  · exact h.below t c' hold i hi

theorem tracked_appended {g : Group} (h : Tracked g) (tp : TopicPartition) (m : Message) :
    Tracked { g with log := PartitionLog.append g.log tp m } := by
  have he : Extends g { g with log := PartitionLog.append g.log tp m } :=
    ⟨fun t => length_le_append g.log tp t m, fun _ _ hi => hi⟩
  exact ⟨h.below, fun t i hi => (h.stored t i hi).trans_le (he.log t),
    fun w x hx => (h.fits w x hx).mono he⟩

/-- The call returned: its message is processed. -/
theorem tracked_afterReturn {g : Group} (h : Tracked g) {w : Nat} {x : Worker}
    (hx : g.workers w = some x) (hc : x.control = .handling .processing) {tp : TopicPartition}
    {o : Nat} {os : List Nat} {rest : List (TopicPartition × List Nat)}
    (hb : x.batch = (tp, o :: os) :: rest) :
    Tracked { g.setWorker w (some { x with control := .handling .committing }) with
      processed := Function.update g.processed tp (o :: g.processed tp) } := by
  have hg : x.Goes := goes_of_control hc (by decide)
  obtain ⟨-, n, -, hl⟩ := (h.fits w x hx).first hg hb
  have ht := tracked_returned h (show o < (g.log tp).length by omega)
  refine ht.setWorker w ?_
  rintro _ ⟨⟩
  have hf := ht.fits w x hx
  refine ⟨?_, fun _ => hf.ready hg, fun _ => hf.passed hg, ?_⟩
  · intro hp
    cases hp
  · intro _ t o' os' rest' hb'
    obtain ⟨⟨rfl, rfl, -⟩, -⟩ := by simpa using hb.symm.trans hb'
    exact mem_processed_update.mpr (.inr ⟨rfl, rfl⟩)

/-- The offset commit returned or raised, stored or not. -/
theorem tracked_afterCommit {g : Group} (h : Tracked g) {w : Nat} {x : Worker}
    (hx : g.workers w = some x) (hc : x.control = .handling .committing) {tp : TopicPartition}
    {o : Nat} {os : List Nat} {rest : List (TopicPartition × List Nat)}
    (hb : x.batch = (tp, o :: os) :: rest) (outcome : CommitOutcome) :
    Tracked { g.setWorker w (if outcome = .returned then some x.handled else none) with
      committed := if outcome.stored then Function.update g.committed tp (some (o + 1))
        else g.committed } := by
  have hf := h.fits w x hx
  have hg : x.Goes := goes_of_control hc (by decide)
  have hdone := hf.done hc tp o os rest hb
  have hbelow : ∀ i < o + 1, i ∈ g.processed tp := by
    intro i hi
    rcases Nat.lt_succ_iff_lt_or_eq.mp hi with hlt | rfl
    · exact (hf.first hg hb).1 i hlt
    · exact hdone
  have hset : Tracked (g.setWorker w (if outcome = .returned then some x.handled else none)) := by
    refine h.setWorker w ?_
    intro y hy
    split at hy
    · cases hy
      exact handled_fits hf hg hb hdone
    · cases hy
  by_cases hst : outcome.stored = true
  · rw [if_pos hst]
    exact tracked_committed hset hbelow
  · rw [if_neg hst]
    exact hset

theorem tracked_workerStep {g g' : Group} {w : Nat} {x : Worker} {a : WorkerAction}
    (h : Tracked g) (ha : AssignsBehind g (.worker w a)) (hx : g.workers w = some x)
    (hs : g.workerStep w x a = some g') : Tracked g' := by
  have hf := h.fits w x hx
  cases a with
  | assign tp =>
    simp only [Group.workerStep] at hs
    split at hs
    · rename_i hc
      cases hs
      refine h.setWorker w ?_
      rintro _ ⟨⟩
      refine ⟨hf.empty, hf.ready, ?_, hf.done⟩
      intro hg t p i hp hi
      rcases update_some_cases hp with ⟨rfl, hsome⟩ | ⟨-, hold⟩
      · obtain rfl := Option.some.inj hsome
        exact .inl (h.start ha i hi)
      · exact hf.passed hg t p i hold hi
    · cases hs
  | revoke tp =>
    cases hs
    refine h.setWorker w ?_
    rintro _ ⟨⟩
    exact ⟨hf.empty, hf.ready,
      fun hg t p i hp hi => hf.passed hg t p i (update_none_some hp).1 hi, hf.done⟩
  | requestShutdown =>
    cases hs
    refine h.setWorker w ?_
    rintro _ ⟨⟩
    have hgoes : Worker.Goes { x with shutdown := true } → x.Goes := by
      intro hg hc
      cases hg hc
    exact ⟨hf.empty, fun hg => hf.ready (hgoes hg), fun hg => hf.passed (hgoes hg), hf.done⟩
  | loop =>
    simp only [Group.workerStep] at hs
    split at hs
    · rename_i hc
      cases hs
      refine h.setWorker w ?_
      intro y hy
      split at hy
      · cases hy
      · rename_i hsd
        cases hy
        have hg : x.Goes := fun _ => Bool.not_eq_true _ ▸ hsd
        refine ⟨fun _ => hc.2, fun _ => hf.ready hg, fun _ => hf.passed hg, ?_⟩
        intro hh
        cases hh
    · cases hs
  | getmany counts =>
    simp only [Group.workerStep] at hs
    split at hs
    · rename_i hc
      cases hs
      refine h.setWorker w ?_
      rintro _ ⟨⟩
      exact fetched_fits hf hc.1 hc.2
    · cases hs
  | next =>
    simp only [Group.workerStep] at hs
    split at hs
    · rename_i hc
      obtain ⟨x', hn, rfl⟩ := Option.map_eq_some_iff.mp hs
      refine h.setWorker w ?_
      rintro _ ⟨⟩
      exact next_fits hf hc hn
    · cases hs
  | waited =>
    simp only [Group.workerStep] at hs
    split at hs
    · rename_i hc
      cases hs
      refine h.setWorker w ?_
      rintro _ ⟨⟩
      split
      · rename_i hsd
        exact leaving_fits rfl hsd
      · have hg : x.Goes := goes_of_control hc (by decide)
        refine ⟨?_, fun _ => hf.ready hg, fun _ => hf.passed hg, ?_⟩
        · intro hp
          cases hp
        · intro hh
          cases hh
    · cases hs
  | returned =>
    simp only [Group.workerStep] at hs
    split at hs
    · rename_i tp o os rest hc hb
      cases hs
      exact tracked_afterReturn h hx hc hb
    · cases hs
  | commit outcome =>
    simp only [Group.workerStep] at hs
    split at hs
    · rename_i tp o os rest hc hb
      cases hs
      exact tracked_afterCommit h hx hc hb outcome
    · cases hs
  | raised =>
    cases hs
    refine h.setWorker w ?_
    rintro _ ⟨⟩

theorem tracked_step {g g' : Group} {a : ConsumerAction} (h : Tracked g)
    (ha : AssignsBehind g a) (hs : g.step a = some g') : Tracked g' := by
  cases a with
  | append tp m =>
    cases hs
    exact tracked_appended h tp m
  | start w =>
    simp only [Group.step] at hs
    split at hs
    · cases hs
      refine h.setWorker w ?_
      rintro _ ⟨⟩
      exact started_fits g
    · cases hs
  | worker w a =>
    obtain ⟨x, hx, hw⟩ := Option.bind_eq_some_iff.mp hs
    exact tracked_workerStep h ha hx hw

theorem positioned_step {g g' : Group} {a : ConsumerAction} (h : Positioned g)
    (ha : AppendsPositioned g a) (hs : g.step a = some g') : Positioned g' := by
  cases a with
  | append tp m =>
    cases hs
    intro t hc hn
    have ht : t ≠ tp := by
      rintro rfl
      exact ha hc hn
    show PartitionLog.append g.log tp m t = []
    rw [append_of_ne _ _ ht]
    exact h t hc hn
  | start w =>
    simp only [Group.step] at hs
    split at hs
    · cases hs
      exact h
    · cases hs
  | worker w a =>
    obtain ⟨x, -, hw⟩ := Option.bind_eq_some_iff.mp hs
    have hf := workerStep_frame hw
    intro t hc hn
    rw [hf.log]
    exact h t hc (hf.committed t hn)

theorem Positioned.assignsBehind {g g' : Group} {a : ConsumerAction} (h : Positioned g)
    (hs : g.step a = some g') : AssignsBehind g a := by
  cases a with
  | append | start => trivial
  | worker w a =>
    obtain ⟨x, -, hw⟩ := Option.bind_eq_some_iff.mp hs
    cases a with
    | assign tp =>
      simp only [Group.workerStep] at hw
      split at hw
      · rename_i hc
        exact fun hn => h.all_processed hc.1 hn
      · cases hw
    | _ => trivial

/-- A message behind no committed offset is skipped from the moment it is appended. -/
theorem skipped_of_append {g : Group} (h : Tracked g) {tp : TopicPartition} {m : Message}
    (hc : tp.topic.consumed = true) (hn : g.committed tp = none) :
    ¬ NothingSkipped { g with log := PartitionLog.append g.log tp m } := by
  intro hns
  have hnew : (g.log tp).length ∉ g.processed tp := fun hi => lt_irrefl _ (h.stored tp _ hi)
  have hlen : (PartitionLog.append g.log tp m tp).length = (g.log tp).length + 1 := by simp
  have hle := hns tp (g.log tp).length hc (by rw [hlen]; omega) hnew
  simp only [Group.startPosition, hn, Option.getD_none, hlen] at hle
  omega

theorem nothingSkipped_step_iff {g g' : Group} {a : ConsumerAction} (h : Tracked g)
    (hp : Positioned g) (hs : g.step a = some g') :
    NothingSkipped g' ↔ AppendsPositioned g a := by
  constructor
  · intro hns
    cases a with
    | append tp m =>
      cases hs
      exact fun hc hn => skipped_of_append h hc hn hns
    | start w => trivial
    | worker w a => trivial
  · intro ha
    exact (tracked_step h (hp.assignsBehind hs) hs).nothingSkipped (positioned_step hp ha hs)

theorem tracked_initial (g : GroupOffsets) : Tracked (Group.initial g) where
  below := by
    intro tp c hc i hi
    change g.committed tp = some c at hc
    change i ∈ List.range ((g.committed tp).getD 0)
    rw [hc]
    exact List.mem_range.mpr hi
  stored := by
    intro tp i hi
    change i ∈ List.range ((g.committed tp).getD 0) at hi
    cases hc : g.committed tp with
    | none =>
      rw [hc] at hi
      cases hi
    | some c =>
      rw [hc] at hi
      exact (List.mem_range.mp hi).trans_le (g.within tp c hc)
  fits := by
    intro w x hx
    cases hx

/-- Over every run of the group, from any offsets, with shutdowns and exceptions at any
await point: a restart skips no message exactly when every message of a consumed topic
stands in a partition for which the group had a committed offset. -/
theorem nothing_skipped_iff (g : GroupOffsets) (as : List ConsumerAction) :
    Throughout Group.step NothingSkipped (Group.initial g) as ↔
      (∀ tp, tp.topic.consumed = true → g.committed tp = none → g.log tp = []) ∧
        Along Group.step AppendsPositioned (Group.initial g) as := by
  have hrun : (∀ tp, tp.topic.consumed = true → g.committed tp = none → g.log tp = []) →
      (Throughout Group.step NothingSkipped (Group.initial g) as ↔
        Along Group.step AppendsPositioned (Group.initial g) as) := by
    intro hpos
    have ht := tracked_initial g
    apply throughout_iff_along (I := fun s => Tracked s ∧ Positioned s)
    · exact fun s a s' h ha hs =>
        ⟨tracked_step h.1 (h.2.assignsBehind hs) hs, positioned_step h.2 ha hs⟩
    · exact fun s a s' h _ hs => nothingSkipped_step_iff h.1 h.2 hs
    · intro s a _ _ hs
      cases a with
      | append tp m => cases hs
      | start w => trivial
      | worker w a => trivial
    · exact ⟨ht, hpos⟩
    · exact ht.nothingSkipped hpos
  constructor
  · intro h
    have hpos : ∀ tp, tp.topic.consumed = true → g.committed tp = none → g.log tp = [] := by
      intro tp hc hn
      by_contra hne
      have hlen : 0 < (g.log tp).length := List.length_pos_iff.mpr hne
      have hzero : 0 ∉ (Group.initial g).processed tp := by
        simp [Group.initial, hn]
      have hle := h.head tp 0 hc hlen hzero
      simp only [Group.startPosition, Group.initial, hn, Option.getD_none] at hle
      omega
    exact ⟨hpos, (hrun hpos).mp h⟩
  · exact fun h => (hrun h.1).mpr h.2

/-- A group that never committed anything, on empty topics. -/
def newGroup : GroupOffsets where
  log := fun _ => []
  committed := fun _ => none
  within := by
    intro _ _ h
    cases h

def firstMessage : Message where
  topic := .outboundPending
  key := 1
  value := .outbound
    { deliveryId := 10, partnerId := 1, endpointId := 2, eventType := "order.created", attempt := 0
      payload := ⟨"payload"⟩, idempotencyKey := "k", correlationId := "corr", scheduledAt := 0
      slaDeadlineAt := 60 }

/-- A message is published before the first worker of the group starts. -/
def unreadRun : List ConsumerAction :=
  [.append ⟨.outboundPending, 0⟩ firstMessage, .start 0,
    .worker 0 (.assign ⟨.outboundPending, 0⟩)]

/-- The started worker reads from behind the message, which nobody has processed. -/
theorem new_group_skips_message :
    ((exec Group.step (Group.initial newGroup) unreadRun).bind fun g =>
        (g.workers 0).bind fun x => x.position ⟨.outboundPending, 0⟩) = some 1 ∧
      ¬ Throughout Group.step NothingSkipped (Group.initial newGroup) unreadRun := by
  refine ⟨rfl, ?_⟩
  intro h
  have hskip := (h.2 _ rfl).head ⟨.outboundPending, 0⟩ 0 rfl (by decide) (by decide)
  exact absurd hskip (by decide)

end PartnerHub.Outbound
