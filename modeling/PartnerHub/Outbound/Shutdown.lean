import PartnerHub.Lib.Progress
import PartnerHub.Outbound.Consumer

/-!
# A worker that is asked to stop

`_request_shutdown` sets the flag that `run`, its inner loop and `wait_until_scheduled` look
at. From then on the worker handles no further message: it finishes the one it is in, drops
the rest of its batch and leaves, within a bounded number of its own steps.
-/
namespace PartnerHub.Outbound

open PartnerHub.Domain PartnerHub.Lib PartnerHub.Lib.Slots PartnerHub.Lib.System

def WorkerAction.returns : WorkerAction → Bool
  | .returned => true
  | _ => false

def WorkerAction.commits : WorkerAction → Bool
  | .commit _ => true
  | _ => false

/-- Worker `w` takes a step of the kind. -/
def stepOf (w : Nat) (kind : WorkerAction → Bool) : ConsumerAction → Bool
  | .worker v a => v = w && kind a
  | _ => false

/-- `getmany` returns only partitions it has records of. -/
def WorkerAction.HasRecords : WorkerAction → Prop
  | .getmany counts => ∀ c ∈ counts, 0 < c.2
  | _ => True

def FetchesRecords (_ : Group) : ConsumerAction → Prop
  | .worker _ a => a.HasRecords
  | _ => True

/-- The steps a worker that was asked to stop has left: one for each partition it drops,
one to leave, and those of the message it is in. -/
def Worker.stepsLeft (x : Worker) : Nat :=
  match x.control with
  | .polling => 12
  | .iterating => x.batch.length + 1
  | .handling .waiting => x.batch.length + 2
  | .handling .processing => x.batch.length + 3
  | .handling .committing => x.batch.length + 2

/-- The calls of `process_outbound_message` it has left. -/
def Worker.callsLeft (x : Worker) : Nat := if x.control = .handling .processing then 1 else 0

/-- The offset commits it has left. -/
def Worker.commitsLeft (x : Worker) : Nat :=
  if x.control = .handling .processing ∨ x.control = .handling .committing then 1 else 0

/-- A measure of the worker in a slot: 0 when none runs. -/
def slotLeft (μ : Worker → Nat) (y : Option Worker) : Nat := (y.map μ).getD 0

@[simp] theorem slotLeft_none (μ : Worker → Nat) : slotLeft μ none = 0 := rfl

@[simp] theorem slotLeft_some (μ : Worker → Nat) (y : Worker) : slotLeft μ (some y) = μ y := rfl

/-- A batch has at most ten records, and a message that is handled is its first. -/
structure Worker.InHand (x : Worker) : Prop where
  short : x.batch.length ≤ 10
  first : ∀ stage, x.control = .handling stage →
    ∃ tp offset offsets rest, x.batch = (tp, offset :: offsets) :: rest

def InHand (g : Group) : Prop := ∀ w x, g.workers w = some x → x.InHand

/-- The worker in slot `w`, if it still runs, was asked to stop. -/
def Stopping (w : Nat) (g : Group) : Prop := ∀ x, g.workers w = some x → x.shutdown = true

section Steps

variable {g g' : Group} {w : Nat} {x : Worker}

@[simp] theorem handled_batch_length (x : Worker) : x.handled.batch.length = x.batch.length := by
  unfold Worker.handled
  split <;> simp_all

/-- The records of a fetch bound its partitions, since each has one. -/
theorem fetched_batch_length {counts : List (TopicPartition × Nat)}
    (hrec : ∀ c ∈ counts, 0 < c.2) (hsum : (counts.map Prod.snd).sum ≤ 10) :
    (x.fetched counts).batch.length ≤ 10 := by
  have hpos : ∀ n ∈ counts.map Prod.snd, 1 ≤ n := by
    intro n hn
    obtain ⟨c, hc, rfl⟩ := List.mem_map.mp hn
    exact hrec c hc
  have hlen := List.length_le_sum_of_one_le (counts.map Prod.snd) hpos
  simp only [List.length_map] at hlen
  simp only [Worker.fetched, List.length_map]
  omega

/-- A requested shutdown makes the loops drop the rest of a partition. -/
theorem next_stopping {x' : Worker} (hs : x.shutdown = true) (hn : x.next = some x') :
    x'.control = x.control ∧ x'.batch.length + 1 = x.batch.length ∧ x'.shutdown = true := by
  unfold Worker.next at hn
  split at hn
  · cases hn
  · rename_i hb
    cases hn
    simp [hb, hs]
  · rename_i hb
    rw [if_pos hs] at hn
    cases hn
    simp [hb, hs]

theorem inHand_of_idle (hshort : x.batch.length ≤ 10) {c : Control} (hc : x.control = c)
    (hidle : ∀ stage, c ≠ .handling stage) : x.InHand :=
  ⟨hshort, fun stage h => absurd (hc.symm.trans h) (hidle stage)⟩

theorem next_inHand {x' : Worker} (hin : x.InHand) (hc : x.control = .iterating)
    (hn : x.next = some x') : x'.InHand := by
  have hshort := hin.short
  unfold Worker.next at hn
  split at hn
  · cases hn
  · rename_i hb
    cases hn
    rw [hb, List.length_cons] at hshort
    exact inHand_of_idle (Nat.le_of_succ_le hshort) hc (by simp)
  · rename_i hb
    split at hn
    · cases hn
      rw [hb, List.length_cons] at hshort
      exact inHand_of_idle (Nat.le_of_succ_le hshort) hc (by simp)
    · cases hn
      exact ⟨hshort, fun _ _ => ⟨_, _, _, _, hb⟩⟩

theorem Worker.Moves.inHand {a : WorkerAction} {y : Worker} (hm : x.Moves a (some y))
    (hin : x.InHand) (hf : a.HasRecords) : y.InHand := by
  cases hm with
  | other _ ho hc hb hs =>
    refine ⟨hb ▸ hin.short, ?_⟩
    intro stage h
    rw [hb]
    exact hin.first stage (hc.symm.trans h)
  | polls _ hs => exact inHand_of_idle (c := .polling) hin.short rfl (by simp)
  | fetched hc hsum =>
    exact inHand_of_idle (c := .iterating) (fetched_batch_length hf hsum) rfl (by simp)
  | next hc hn => exact next_inHand hin hc hn
  | waited hc hs => exact ⟨hin.short, fun _ _ => hin.first _ hc⟩
  | stopped hc =>
    exact inHand_of_idle (c := .iterating) ((handled_batch_length x).trans_le hin.short) rfl
      (by simp)
  | returned hc => exact ⟨hin.short, fun _ _ => hin.first _ hc⟩
  | committed hc =>
    exact inHand_of_idle (c := .iterating) ((handled_batch_length x).trans_le hin.short) rfl
      (by simp)

theorem Worker.Moves.stopping {a : WorkerAction} {y : Worker} (hm : x.Moves a (some y))
    (hs : x.shutdown = true) : y.shutdown = true := by
  cases hm with
  | other _ ho hc hb hkeep => exact hkeep hs
  | next hc hn => exact (next_stopping hs hn).2.2
  | _ => exact hs

theorem stepsLeft_pos (x : Worker) : 0 < x.stepsLeft := by
  unfold Worker.stepsLeft
  split <;> omega

/-- A worker that was asked to stop gets nearer to its end with each of its own steps. -/
theorem Worker.Moves.stepsLeft {a : WorkerAction} {y : Option Worker} (hm : x.Moves a y)
    (hs : x.shutdown = true) (hf : a.HasRecords) :
    slotLeft Worker.stepsLeft y ≤ x.stepsLeft ∧
      (a.own = true → slotLeft Worker.stepsLeft y < x.stepsLeft) := by
  have hpos := stepsLeft_pos x
  cases hm with
  | other y ho hc hb hkeep =>
    have heq : y.stepsLeft = x.stepsLeft := by simp only [Worker.stepsLeft, hc, hb]
    refine ⟨heq.le, ?_⟩
    intro hown
    rw [ho] at hown
    cases hown
  | polls _ hoff =>
    rw [hs] at hoff
    cases hoff
  | fetched hc hsum =>
    have hlen := fetched_batch_length (x := x) hf hsum
    simp only [slotLeft_some, Worker.stepsLeft, hc]
    show (x.fetched _).batch.length + 1 ≤ 12 ∧ (_ → (x.fetched _).batch.length + 1 < 12)
    omega
  | next hc hn =>
    obtain ⟨hcy, hlen, -⟩ := next_stopping hs hn
    simp only [slotLeft_some, Worker.stepsLeft, hcy, hc]
    omega
  | waited hc hoff =>
    rw [hs] at hoff
    cases hoff
  | returned hc =>
    simp only [slotLeft_some, Worker.stepsLeft, hc]
    omega
  | stopped hc | committed hc =>
    have hlen := handled_batch_length x
    simp only [slotLeft_some, Worker.stepsLeft, hc]
    show x.handled.batch.length + 1 ≤ _ ∧ (_ → x.handled.batch.length + 1 < _)
    omega
  | leaves | failed | raised => exact ⟨hpos.le, fun _ => hpos⟩

theorem own_of_returns {a : WorkerAction} (h : a.returns = true) : a.own = true := by
  cases a with
  | returned => rfl
  | _ => cases h

theorem own_of_commits {a : WorkerAction} (h : a.commits = true) : a.own = true := by
  cases a with
  | commit outcome => rfl
  | _ => cases h

/-- It begins no further message: a call it returns from is the one it was in. -/
theorem Worker.Moves.callsLeft {a : WorkerAction} {y : Option Worker} (hm : x.Moves a y)
    (hs : x.shutdown = true) :
    slotLeft Worker.callsLeft y ≤ x.callsLeft ∧
      (a.returns = true → slotLeft Worker.callsLeft y < x.callsLeft) := by
  cases hm with
  | other y ho hc hb hkeep =>
    simp only [slotLeft_some, Worker.callsLeft, hc]
    refine ⟨le_rfl, ?_⟩
    intro hret
    rw [own_of_returns hret] at ho
    cases ho
  | next hc hn => simp [Worker.callsLeft, (next_stopping hs hn).1, WorkerAction.returns]
  | waited hc hoff =>
    rw [hs] at hoff
    cases hoff
  | returned hc => simp [Worker.callsLeft, hc]
  | _ => simp [Worker.callsLeft, Worker.fetched, Worker.handled, WorkerAction.returns]

theorem Worker.Moves.commitsLeft {a : WorkerAction} {y : Option Worker} (hm : x.Moves a y)
    (hs : x.shutdown = true) :
    slotLeft Worker.commitsLeft y ≤ x.commitsLeft ∧
      (a.commits = true → slotLeft Worker.commitsLeft y < x.commitsLeft) := by
  cases hm with
  | other y ho hc hb hkeep =>
    simp only [slotLeft_some, Worker.commitsLeft, hc]
    refine ⟨le_rfl, ?_⟩
    intro hcommit
    rw [own_of_commits hcommit] at ho
    cases ho
  | next hc hn => simp [Worker.commitsLeft, (next_stopping hs hn).1, WorkerAction.commits]
  | waited hc hoff =>
    rw [hs] at hoff
    cases hoff
  | returned hc => simp [Worker.commitsLeft, hc, WorkerAction.commits]
  | committed hc | failed hc => simp [Worker.commitsLeft, Worker.handled, hc]
  | _ => simp [Worker.commitsLeft, Worker.fetched, Worker.handled, WorkerAction.commits]

/-- What a step of the group does to one slot. -/
theorem step_slot {a : ConsumerAction} (hs : g.step a = some g') :
    (g'.workers w = g.workers w ∧ ∀ kind, stepOf w kind a = false) ∨
    (a = .start w ∧ g'.workers w = some .started) ∨
    ∃ b x, a = .worker w b ∧ g.workers w = some x ∧ x.Moves b (g'.workers w) := by
  cases a with
  | append tp m =>
    cases hs
    exact .inl ⟨rfl, fun _ => rfl⟩
  | start v =>
    simp only [Group.step] at hs
    split at hs
    · cases hs
      by_cases hv : w = v
      · subst hv
        exact .inr (.inl ⟨rfl, Function.update_self ..⟩)
      · exact .inl ⟨Function.update_of_ne hv .., fun _ => rfl⟩
    · cases hs
  | worker v b =>
    obtain ⟨x, hx, hw⟩ := Option.bind_eq_some_iff.mp hs
    obtain ⟨y, hm, hg'⟩ := workerStep_moves hw
    by_cases hv : w = v
    · subst hv
      refine .inr (.inr ⟨b, x, rfl, hx, ?_⟩)
      rw [hg', Function.update_self]
      exact hm
    · refine .inl ⟨by rw [hg', Function.update_of_ne hv], ?_⟩
      intro kind
      simp [stepOf, Ne.symm hv]

theorem inHand_step {a : ConsumerAction} (h : InHand g) (hf : FetchesRecords g a)
    (hs : g.step a = some g') : InHand g' := by
  intro w y hy
  rcases step_slot (w := w) hs with ⟨heq, -⟩ | ⟨-, hstart⟩ | ⟨b, x, rfl, hx, hm⟩
  · exact h w y (heq ▸ hy)
  · obtain rfl := Option.some.inj (hstart.symm.trans hy)
    exact inHand_of_idle (c := .iterating) (Nat.zero_le 10) rfl (by simp)
  · exact (hy ▸ hm).inHand (h w x hx) hf

theorem inHand_initial (g : GroupOffsets) : InHand (Group.initial g) := by
  intro w x hx
  cases hx

/-- The slot of `w` is not given to another worker. -/
def KeepsSlot (w : Nat) (g : Group) (a : ConsumerAction) : Prop :=
  FetchesRecords g a ∧ a ≠ .start w

theorem stopping_step {a : ConsumerAction} (h : Stopping w g) (hk : KeepsSlot w g a)
    (hs : g.step a = some g') : Stopping w g' := by
  intro y hy
  rcases step_slot (w := w) hs with ⟨heq, -⟩ | ⟨hstart, -⟩ | ⟨b, x, rfl, hx, hm⟩
  · exact h y (heq ▸ hy)
  · exact absurd hstart hk.2
  · exact (hy ▸ hm).stopping (h x hx)

/-- A measure that a stopping worker's own steps use up is used up by the group's. -/
theorem usesUp_slot {μ : Worker → Nat} {kind : WorkerAction → Bool}
    (hμ : ∀ x b y, Worker.Moves x b y → x.shutdown = true → b.HasRecords →
      slotLeft μ y ≤ μ x ∧ (kind b = true → slotLeft μ y < μ x))
    {a : ConsumerAction} (h : Stopping w g) (hk : KeepsSlot w g a) (hs : g.step a = some g') :
    UsesUp (fun g => slotLeft μ (g.workers w)) (stepOf w kind) g a g' := by
  rcases step_slot (w := w) hs with ⟨heq, hnot⟩ | ⟨hstart, -⟩ | ⟨b, x, rfl, hx, hm⟩
  · refine ⟨by rw [heq], ?_⟩
    intro hkind
    rw [hnot kind] at hkind
    cases hkind
  · exact absurd hstart hk.2
  · obtain ⟨hle, hlt⟩ := hμ x b _ hm (h x hx) hk.1
    rw [← slotLeft_some μ x, ← hx] at hle hlt
    refine ⟨hle, ?_⟩
    intro hkind
    exact hlt (by simpa [stepOf] using hkind)

/-- A worker that runs can go on, without an exception. -/
theorem can_go_on (hx : g.workers w = some x) (hin : x.InHand) :
    ∃ b, b.own = true ∧ b ≠ .raised ∧ (g.step (.worker w b)).isSome = true := by
  have hstep : ∀ b, g.step (.worker w b) = g.workerStep w x b := by
    intro b
    show (g.workers w).bind _ = _
    rw [hx]
    rfl
  cases hc : x.control with
  | polling =>
    refine ⟨.getmany [], rfl, by simp, ?_⟩
    rw [hstep]
    simp [Group.workerStep, hc, Worker.CanFetch]
  | iterating =>
    cases hb : x.batch with
    | nil =>
      refine ⟨.loop, rfl, by simp, ?_⟩
      rw [hstep]
      simp [Group.workerStep, hc, hb]
    | cons segment rest =>
      refine ⟨.next, rfl, by simp, ?_⟩
      rw [hstep]
      simp only [Group.workerStep, hc, if_true, Option.isSome_map, Worker.next, hb]
      split
      · rename_i hnil
        cases hnil
      · rfl
      · split <;> rfl
  | handling stage =>
    obtain ⟨tp, offset, offsets, rest, hb⟩ := hin.first stage hc
    cases stage with
    | waiting =>
      refine ⟨.waited, rfl, by simp, ?_⟩
      rw [hstep]
      simp [Group.workerStep, hc]
    | processing =>
      refine ⟨.returned, rfl, by simp, ?_⟩
      rw [hstep]
      simp [Group.workerStep, hc, hb]
    | committing =>
      refine ⟨.commit .returned, rfl, by simp, ?_⟩
      rw [hstep]
      simp [Group.workerStep, hc, hb]

theorem stepsLeft_le (hin : x.InHand) : x.stepsLeft ≤ 13 := by
  have hshort := hin.short
  unfold Worker.stepsLeft
  split <;> omega

end Steps

/-- A worker that was asked to stop, in any state a run of the group reaches, whatever the
other workers, the rebalances and further signals do: it takes at most 13 more steps. In them
it returns from a call of `process_outbound_message` only if it was in one, and commits at
most once, only if it was in such a call or in the commit; and until it has left it is never
stuck. -/
theorem shutdown_drains (g : GroupOffsets) {as : List ConsumerAction} {s : Group}
    (hrecords : Along Group.step FetchesRecords (Group.initial g) as)
    (hrun : exec Group.step (Group.initial g) as = some s) {w : Nat} {x : Worker}
    (hx : s.workers w = some x) (hshut : x.shutdown = true) {bs : List ConsumerAction}
    {t : Group} (hkeep : Along Group.step (KeepsSlot w) s bs)
    (hdrain : exec Group.step s bs = some t) :
    bs.countP (stepOf w WorkerAction.own) ≤ 13 ∧
      bs.countP (stepOf w WorkerAction.returns) ≤
        (if x.control = .handling .processing then 1 else 0) ∧
      bs.countP (stepOf w WorkerAction.commits) ≤
        (if x.control = .handling .processing ∨ x.control = .handling .committing then 1 else 0) ∧
      ((t.workers w).isSome = true → bs.countP (stepOf w WorkerAction.own) < 13 ∧
        ∃ b, b.own = true ∧ b ≠ .raised ∧ (t.step (.worker w b)).isSome = true) := by
  have hins : InHand s := exec_invariant InHand (fun _ _ _ h hf hs => inHand_step h hf hs)
    (inHand_initial g) hrecords hrun
  have hstop : Stopping w s := by
    intro y hy
    obtain rfl := Option.some.inj (hx.symm.trans hy)
    exact hshut
  have hint : InHand t := exec_invariant InHand (fun _ _ _ h hk hs => inHand_step h hk.1 hs)
    hins hkeep hdrain
  have hsteps := countP_le_measure (Stopping w) (fun _ _ _ => stopping_step)
    (fun _ _ _ => usesUp_slot fun _ _ _ hm => hm.stepsLeft) hstop hkeep hdrain
  have hcalls := countP_le_measure (Stopping w) (fun _ _ _ => stopping_step)
    (fun _ _ _ => usesUp_slot fun _ _ _ hm hs _ => hm.callsLeft hs) hstop hkeep hdrain
  have hcommits := countP_le_measure (Stopping w) (fun _ _ _ => stopping_step)
    (fun _ _ _ => usesUp_slot fun _ _ _ hm hs _ => hm.commitsLeft hs) hstop hkeep hdrain
  simp only [hx, slotLeft_some] at hsteps hcalls hcommits
  have hmost := stepsLeft_le (hins w x hx)
  refine ⟨by omega, (Nat.le_add_right _ _).trans hcalls, (Nat.le_add_right _ _).trans hcommits, ?_⟩
  intro hsome
  obtain ⟨y, hy⟩ := Option.isSome_iff_exists.mp hsome
  have hpos := stepsLeft_pos y
  rw [hy, slotLeft_some] at hsteps
  exact ⟨by omega, can_go_on hy (hint w y hy)⟩

/-- The signal arrives while the first message is processed. -/
def signalledRun : List ConsumerAction :=
  [.start 0, .worker 0 (.assign ⟨.outboundPending, 0⟩), .append ⟨.outboundPending, 0⟩ firstMessage,
    .worker 0 .loop, .worker 0 (.getmany [(⟨.outboundPending, 0⟩, 1)]), .worker 0 .next,
    .worker 0 .requestShutdown]

def drainRun : List ConsumerAction :=
  [.worker 0 .returned, .worker 0 (.commit .returned), .worker 0 .next, .worker 0 .loop]

/-- The worker processes and commits that message, and leaves. -/
theorem shutdown_drains_signalled :
    ((exec Group.step (Group.initial newGroup) (signalledRun ++ drainRun)).map fun t =>
        ((t.workers 0).isSome, t.committed ⟨.outboundPending, 0⟩)) = some (false, some 1) ∧
      drainRun.countP (stepOf 0 WorkerAction.own) = 4 ∧
      drainRun.countP (stepOf 0 WorkerAction.returns) ≤ 1 := by
  have hrecords : Along Group.step FetchesRecords (Group.initial newGroup) signalledRun := by
    refine along_of_forall ?_
    intro a ha g
    simp only [signalledRun, List.mem_cons, List.not_mem_nil, or_false] at ha
    rcases ha with rfl | rfl | rfl | rfl | rfl | rfl | rfl <;>
      simp [FetchesRecords, WorkerAction.HasRecords]
  have hkeep : ∀ s, Along Group.step (KeepsSlot 0) s drainRun := by
    intro s
    refine along_of_forall ?_
    intro a ha g
    simp only [drainRun, List.mem_cons, List.not_mem_nil, or_false] at ha
    rcases ha with rfl | rfl | rfl | rfl <;>
      simp [KeepsSlot, FetchesRecords, WorkerAction.HasRecords]
  have hrun : exec Group.step (Group.initial newGroup) signalledRun = some _ := rfl
  refine ⟨rfl, rfl, ?_⟩
  exact (shutdown_drains newGroup hrecords hrun rfl rfl (hkeep _) rfl).2.1

end PartnerHub.Outbound
