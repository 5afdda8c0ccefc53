import PartnerHub.Relay.Safety

/-!
# The counter of failed sends

Every send that raises adds one to `publish_attempts`, and nothing bounds the sum but the
SMALLINT column. The batch is one transaction: a counter that does not fit fails the flush
for all its rows.
-/
namespace PartnerHub.Relay

open PartnerHub.Domain PartnerHub.Lib PartnerHub.Lib.System

/-- All counters fit the column, those of the open sessions too, and the transaction of a
batch that has sent its rows commits and keeps what was acknowledged. -/
structure CountersFit (s : Outbox) : Prop where
  stored : ∀ o ∈ s.rows, o.publishAttempts ≤ smallIntegerMax
  session : ∀ r b, s.relays r = some b → ∀ o ∈ s.rows,
    (b.mark o).publishAttempts ≤ smallIntegerMax
  commits : ∀ r b, s.relays r = some b → b.pending = [] →
    ∃ s', s.step (.commit r) = some s' ∧
      ∀ p ∈ b.published, ∃ o ∈ s'.rows, o.id = p.1.id ∧ o.publishedAt = some p.2

/-- No send raises for a row whose counter is at its largest value. -/
def CounterRoom (s : Outbox) : RelayAction → Prop
  | .send r .raised _ => ∀ b o rest, s.relays r = some b → b.pending = o :: rest →
      o.publishAttempts < smallIntegerMax
  | _ => True

section Counters

variable {s s' : Outbox} {r : Nat} {b : Batch} {o : OutboxEvent} {rest : List OutboxEvent}

/-- What a session makes of a counter. -/
theorem mark_publishAttempts (b : Batch) (o : OutboxEvent) :
    (b.mark o).publishAttempts =
      if (∀ p ∈ b.published, p.1.id ≠ o.id) ∧ ∃ f ∈ b.failed, f.id = o.id then
        o.publishAttempts + 1
      else o.publishAttempts := by
  unfold Batch.mark
  cases hf : b.published.find? fun p => p.1.id = o.id with
  | some p =>
    have hid : p.1.id = o.id := by simpa using List.find?_some hf
    exact (if_neg fun h => h.1 p (List.mem_of_find?_eq_some hf) hid).symm
  | none =>
    have hnone : ∀ p ∈ b.published, p.1.id ≠ o.id := by
      intro p hp
      simpa using List.find?_eq_none.mp hf p hp
    simp only
    by_cases hfail : ∃ f ∈ b.failed, f.id = o.id
    · rw [if_pos hfail, if_pos ⟨hnone, hfail⟩]
    · rw [if_neg hfail, if_neg fun h => hfail h.2]

/-- With counters that fit, a finished batch commits all its acknowledgements. -/
theorem commits_of_session (h : Sound s)
    (hsession : ∀ r b, s.relays r = some b → ∀ o ∈ s.rows,
      (b.mark o).publishAttempts ≤ smallIntegerMax)
    (hr : s.relays r = some b) (hp : b.pending = []) :
    ∃ s', s.step (.commit r) = some s' ∧
      ∀ p ∈ b.published, ∃ o ∈ s'.rows, o.id = p.1.id ∧ o.publishedAt = some p.2 := by
  refine ⟨s.written r b, ?_, ?_⟩
  · simp only [Outbox.step, hr, hp, Outbox.commit, if_pos (hsession r b hr)]
  · intro p hpub
    have hrow := (h.held.row r b hr p.1 (mem_rows.mpr (.inl ⟨p.2, hpub⟩))).1
    refine ⟨b.mark p.1, List.mem_map_of_mem hrow, mark_id b p.1, ?_⟩
    rcases mark_publishedAt b p.1 with ⟨q, hq, hid, hat⟩ | ⟨hnone, -⟩
    · rw [hat, h.published_once hr hq hpub hid]
    · exact absurd rfl (hnone p hpub)

/-- Only a commit of another service adds rows, and their counters are at zero. -/
theorem new_row_attempts {a : RelayAction} (ha : a.relay = none) (hs : s.step a = some s')
    (ho : o ∈ s'.rows) : o ∈ s.rows ∨ o.publishAttempts = 0 := by
  cases a with
  | ingest req createdAt =>
    simp only [Outbox.step] at hs
    split at hs
    · cases hs
    · cases hs
      rcases List.mem_append.mp ho with hold | hnew
      · exact .inl hold
      · rw [List.mem_singleton.mp hnew]
        exact .inr rfl
  | persist rows createdAt =>
    cases hs
    rcases List.mem_append.mp ho with hold | hnew
    · exact .inl hold
    · obtain ⟨i, hi, rfl⟩ := List.mem_mapIdx.mp hnew
      rw [List.getElem_map]
      exact .inr rfl
  | select | send | commit | crash => cases ha

def Stored (s : Outbox) : Prop := ∀ o ∈ s.rows, o.publishAttempts ≤ smallIntegerMax

/-- The column takes nothing else, whatever the sessions hold. -/
theorem stored_step {a : RelayAction} (h : Stored s) (hs : s.step a = some s') : Stored s' := by
  have hinsert : a.relay = none → Stored s' := by
    intro ha o ho
    rcases new_row_attempts ha hs ho with hold | hzero
    · exact h o hold
    · rw [hzero]
      exact Nat.zero_le _
  cases a with
  | ingest | persist => exact hinsert rfl
  | select r limit scan =>
    simp only [Outbox.step] at hs
    split at hs
    · cases hs
      exact h
    · cases hs
  | send r result now =>
    simp only [Outbox.step] at hs
    split at hs
    · cases hs
    split at hs
    · cases hs
    · cases hs
      cases result with
      | raised => exact h
      | acknowledged =>
        unfold Outbox.send
        simp only
        split <;> exact h
  | commit r =>
    simp only [Outbox.step] at hs
    split at hs
    · cases hs
    split at hs
    · cases hs
      unfold Outbox.commit
      split
      · rename_i hfits
        intro o ho
        obtain ⟨o₀, ho₀, rfl⟩ := List.mem_map.mp ho
        exact hfits o₀ ho₀
      · exact h
    · cases hs
  | crash r =>
    obtain ⟨b, -, rfl⟩ := Option.map_eq_some_iff.mp hs
    exact h

/-- The counters as the open sessions have them. -/
def SessionsFit (s : Outbox) : Prop :=
  ∀ r b, s.relays r = some b → ∀ o ∈ s.rows, (b.mark o).publishAttempts ≤ smallIntegerMax

theorem sessionsFit_endTransaction (h : SessionsFit s) (r : Nat) :
    SessionsFit (s.endTransaction r) :=
  fun r' b' hb' => h r' b' (Slots.update_none_some hb').1

/-- Another batch works on other rows than the one that commits. -/
theorem sessionsFit_written (hsound : Sound s) (h : SessionsFit s) (hr : s.relays r = some b) :
    SessionsFit (s.written r b) := by
  intro r' b' hb' o ho
  obtain ⟨hb', hne⟩ := Slots.update_none_some hb'
  obtain ⟨o₀, ho₀, rfl⟩ := List.mem_map.mp ho
  by_cases hmine : ∃ x ∈ b'.rows, x.id = o₀.id
  · obtain ⟨x, hx, hid⟩ := hmine
    obtain rfl := hsound.row_of_batch hb' hx ho₀ hid
    have hlock' := (hsound.held.row r' b' hb' x hx).2.2
    have hother : ∀ y ∈ b.rows, y.id ≠ x.id := by
      intro y hy he
      have hlock := (hsound.held.row r b hr y hy).2.2
      rw [he, hlock'] at hlock
      exact hne (Option.some.inj hlock)
    rw [mark_of_other hother]
    exact h r' b' hb' x ho₀
  · have hother : ∀ x ∈ b'.rows, x.id ≠ (b.mark o₀).id := by
      intro x hx he
      rw [mark_id] at he
      exact hmine ⟨x, hx, he⟩
    rw [mark_of_other hother]
    exact h r b hr o₀ ho₀

/-- An acknowledgement counts nothing. -/
theorem sessionsFit_acked (h : SessionsFit s) (hr : s.relays r = some b) (now : Time) :
    SessionsFit (s.acked r b o rest now) := by
  intro r' b' hb' x hx
  rcases Slots.update_some_cases hb' with ⟨-, hb'⟩ | ⟨-, hb'⟩
  · obtain rfl := Option.some.inj hb'
    refine le_trans ?_ (h r b hr x hx)
    rw [mark_publishAttempts, mark_publishAttempts]
    by_cases hcond : (∀ p ∈ b.published, p.1.id ≠ x.id) ∧ ∃ f ∈ b.failed, f.id = x.id
    · rw [if_pos hcond]
      split <;> omega
    · rw [if_neg hcond, if_neg fun hnew =>
        hcond ⟨fun p hp => hnew.1 p (List.mem_append_left _ hp), hnew.2⟩]
  · exact h r' b' hb' x hx

/-- A send that raises counts its row, which no other turn of the loop has touched. -/
theorem sessionsFit_raised_iff (hsound : Sound s) (h : SessionsFit s)
    (hr : s.relays r = some b) (hp : b.pending = o :: rest) :
    SessionsFit (s.raised r b o rest) ↔ o.publishAttempts < smallIntegerMax := by
  have hrow : o ∈ b.rows := mem_rows.mpr (.inr (.inr (hp ▸ List.mem_cons_self)))
  have hstored := (hsound.held.row r b hr o hrow).1
  have hcount : (Batch.mark { b with pending := rest, failed := b.failed ++ [o] } o).publishAttempts =
      o.publishAttempts + 1 := by
    rw [mark_publishAttempts, if_pos ⟨(hsound.sending hr hp).1, o,
      List.mem_append_right _ (List.mem_singleton_self o), rfl⟩]
  constructor
  · intro hfit
    have hle := hfit r _ (Function.update_self _ _ _) o hstored
    rw [hcount] at hle
    omega
  · intro hroom r' b' hb' x hx
    rcases Slots.update_some_cases hb' with ⟨-, hb'⟩ | ⟨-, hb'⟩
    · obtain rfl := Option.some.inj hb'
      by_cases hid : x.id = o.id
      · obtain rfl := Table.eq_of_unique hsound.tables.row_ids hx hstored hid
        rw [hcount]
        omega
      · refine le_trans ?_ (h r b hr x hx)
        rw [mark_publishAttempts, mark_publishAttempts]
        apply le_of_eq
        congr 1
        simp [Ne.symm hid]
    · exact h r' b' hb' x hx

/-- A step that counts nothing keeps the counters of the sessions within bounds. -/
theorem sessionsFit_step {a : RelayAction} (hsound : Sound s) (hstored : Stored s)
    (h : SessionsFit s) (hs : s.step a = some s') (hquiet : ∀ r now, a ≠ .send r .raised now) :
    SessionsFit s' := by
  cases moves_of_step hsound.tables.event_ids hs with
  | insert ha hi =>
    intro r b hr o ho
    by_cases hold : o ∈ s.rows
    · exact h r b hr o hold
    · have hother : ∀ x ∈ b.rows, x.id ≠ o.id := by
        intro x hx hid
        have hx := (hsound.held.row r b hr x hx).1
        obtain rfl := Table.eq_of_unique (hsound.tables.inserted hi).row_ids
          (List.mem_append_left _ hx) ho hid
        exact hold hx
      rw [mark_of_other hother, (new_row_attempts ha hs ho).resolve_left hold]
      exact Nat.zero_le _
  | select hr hscan =>
    intro r' b' hb' o ho
    rcases Slots.update_some_cases hb' with ⟨-, hb'⟩ | ⟨-, hb'⟩
    · obtain rfl := Option.some.inj hb'
      rw [mark_publishAttempts, if_neg (by simp)]
      exact hstored o ho
    · exact h r' b' hb' o ho
  | raised hr hp => exact absurd rfl (hquiet _ _)
  | acked hr hp => exact sessionsFit_acked h hr _
  | died hr hp => exact sessionsFit_endTransaction (sessionsFit_acked h hr _) _
  | written hr hp => exact sessionsFit_written hsound h hr
  | ended ha hr => exact sessionsFit_endTransaction h _

/-- Given counters that fit, a step keeps them so exactly when there was room for what it
counts. -/
theorem sessionsFit_step_iff {a : RelayAction} (hsound : Sound s) (hstored : Stored s)
    (h : SessionsFit s) (hs : s.step a = some s') : SessionsFit s' ↔ CounterRoom s a := by
  cases a with
  | send r result now =>
    cases result with
    | acknowledged =>
      exact iff_of_true (sessionsFit_step hsound hstored h hs (by simp)) trivial
    | raised =>
      simp only [Outbox.step] at hs
      split at hs
      · cases hs
      · rename_i b hr
        split at hs
        · cases hs
        · rename_i o rest hp
          cases hs
          rw [Outbox.send, sessionsFit_raised_iff hsound h hr hp]
          constructor
          · intro hroom b' o' rest' hr' hp'
            obtain rfl := Option.some.inj (hr.symm.trans hr')
            obtain ⟨rfl, -⟩ := List.cons.inj (hp.symm.trans hp')
            exact hroom
          · exact fun hroom => hroom b o rest hr hp
  | ingest | persist | select | commit | crash =>
    exact iff_of_true (sessionsFit_step hsound hstored h hs (by simp)) trivial

theorem countersFit_iff (hsound : Sound s) (hstored : Stored s) :
    CountersFit s ↔ SessionsFit s :=
  ⟨fun h => h.session, fun h => ⟨hstored, h, fun _ _ hr hp => commits_of_session hsound h hr hp⟩⟩

/-- In a run of any number of relays, with any pattern of failed sends, the counters fit in
every state exactly when no send raises for a row whose counter stands at 32767. -/
theorem counters_fit_iff (as : List RelayAction) :
    Throughout Outbox.step CountersFit Outbox.init as ↔
      Along Outbox.step CounterRoom Outbox.init as := by
  have hinit : Sound Outbox.init ∧ Stored Outbox.init :=
    ⟨sound_init, fun o ho => absurd ho List.not_mem_nil⟩
  have hfit : CountersFit Outbox.init :=
    (countersFit_iff hinit.1 hinit.2).mpr fun r b hb => by cases hb
  refine throughout_iff_along (I := fun s => Sound s ∧ Stored s) ?_ ?_ ?_ hinit hfit
  · intro s a s' h _ hs
    exact ⟨h.1.moves (moves_of_step h.1.tables.event_ids hs), stored_step h.2 hs⟩
  · intro s a s' h hp hs
    have hsound' := h.1.moves (moves_of_step h.1.tables.event_ids hs)
    rw [countersFit_iff hsound' (stored_step h.2 hs)]
    exact sessionsFit_step_iff h.1 h.2 hp.session hs
  · intro s a h _ hs
    cases a with
    | send r result now =>
      cases result with
      | acknowledged => trivial
      | raised =>
        intro b o rest hr hpend
        simp [Outbox.step, hr, hpend] at hs
    | ingest | persist | select | commit | crash => trivial

end Counters

/-! ## An outage of 32768 batches -/

/-- The row of one delivery after `n` failed sends. -/
def failingRow (n : Nat) : OutboxEvent :=
  { orderRow.outboxEvent 3 with id := 1, publishAttempts := n }

/-- A batch of one row whose send raises. -/
def failingBatch (n : Nat) : List RelayAction :=
  [.select 0 100 [failingRow n], .send 0 .raised 4, .commit 0]

/-- The outbox holds one row that failed `n` times, and no relay is at work. -/
structure Failing (n : Nat) (s : Outbox) : Prop where
  rows : s.rows = [failingRow n]
  seq : s.seq = 1
  inboundEvents : s.inboundEvents = []
  relays : s.relays = fun _ => none
  locks : s.locks = fun _ => none

theorem Failing.selectable {n : Nat} {s : Outbox} (h : Failing n s) :
    s.selectable = [failingRow n] := by
  rw [Outbox.selectable, h.rows, h.locks]
  rfl

/-- One more failed batch counts one more failed send. -/
theorem failing_step {n : Nat} {s : Outbox} (h : Failing n s) (hn : n < smallIntegerMax) :
    ∃ s', exec Outbox.step s (failingBatch n) = some s' ∧ Failing (n + 1) s' := by
  let started : Batch := ⟨s.starts.length, [failingRow n], [], []⟩
  let sent : Batch := ⟨s.starts.length, [], [], [failingRow n]⟩
  let s₁ := s.selected 0 [failingRow n]
  let s₂ := s₁.raised 0 started (failingRow n) []
  have hselect : s.step (.select 0 100 [failingRow n]) = some s₁ := by
    have hfree : s.relays 0 = none := by rw [h.relays]
    have hscan : [failingRow n].Perm s.selectable := h.selectable ▸ .refl _
    simp only [Outbox.step, if_pos (And.intro hfree hscan)]
    rfl
  have hstarted : s₁.relays 0 = some started := by
    simp [s₁, started, Outbox.selected, Outbox.setBatch]
  have hsend : s₁.step (.send 0 .raised 4) = some s₂ := by
    simp only [Outbox.step, hstarted]
    rfl
  have hsent : s₂.relays 0 = some sent := by
    simp [s₂, started, sent, Outbox.raised, Outbox.setBatch]
  have hmark : sent.mark (failingRow n) = failingRow (n + 1) := by
    simp [Batch.mark, sent, failingRow]
  have hrows : s₂.rows = [failingRow n] := h.rows
  have hfits : ∀ o ∈ s₂.rows, (sent.mark o).publishAttempts ≤ smallIntegerMax := by
    intro o ho
    rw [hrows] at ho
    rw [List.mem_singleton.mp ho, hmark]
    exact hn
  have hcommit : s₂.step (.commit 0) = some (s₂.written 0 sent) := by
    simp only [Outbox.step, hsent, sent]
    exact congrArg some (if_pos hfits)
  refine ⟨s₂.written 0 sent, ?_, ?_⟩
  · simp only [failingBatch, exec_cons, exec_nil, hselect, hsend, hcommit, Option.bind_some]
  · refine ⟨?_, h.seq, ?_, ?_, ?_⟩
    · change s₂.rows.map sent.mark = _
      rw [hrows, List.map_singleton, hmark]
    · exact h.inboundEvents
    · funext i
      change Function.update (Function.update (Function.update s.relays 0 _) 0 _) 0 none i = none
      rw [Function.update_idem, Function.update_idem, h.relays, Function.update_apply]
      split <;> rfl
    · funext i
      change (if (if i ∈ [failingRow n].map (·.id) then some 0 else s.locks i) = some 0 then none
        else if i ∈ [failingRow n].map (·.id) then some 0 else s.locks i) = none
      rw [h.locks]
      by_cases hi : i ∈ [failingRow n].map (·.id)
      · rw [if_pos (if_pos hi)]
      · rw [if_neg hi, if_neg (by simp)]

theorem failing_batches {n : Nat} (hn : n ≤ smallIntegerMax) :
    ∃ as s, exec Outbox.step Outbox.init as = some s ∧ Failing n s := by
  induction n with
  | zero => exact ⟨[.persist [orderRow] 3], _, rfl, rfl, rfl, rfl, rfl, rfl⟩
  | succ n ih =>
    obtain ⟨as, s, hrun, hs⟩ := ih (by omega)
    obtain ⟨s', hbatch, hs'⟩ := failing_step hs (by omega)
    exact ⟨as ++ failingBatch n, s', by rw [exec_append, hrun]; exact hbatch, hs'⟩

/-- A younger row, which Kafka will acknowledge. -/
def youngerRow : OutboxEvent := { orderRow.outboxEvent 5 with id := 2 }

/-- Both rows are sent in one batch. -/
def lastBatch (n : Nat) : List RelayAction :=
  [.persist [orderRow] 5, .select 0 100 [failingRow n, youngerRow], .send 0 .raised 6,
    .send 0 .acknowledged 7]

/-- The session of the last batch before its commit. -/
def lastSession (number n : Nat) : Batch := ⟨number, [], [(youngerRow, 7)], [failingRow n]⟩

theorem last_batch {n : Nat} {s : Outbox} (h : Failing n s) :
    ∃ s', exec Outbox.step s (lastBatch n) = some s' ∧ s'.rows = [failingRow n, youngerRow] ∧
      s'.relays 0 = some (lastSession s.starts.length n) ∧ ∃ a ∈ s'.acks, a.row = 2 := by
  let s₀ := s.inserted [youngerRow] []
  let s₁ := s₀.selected 0 [failingRow n, youngerRow]
  let started : Batch := ⟨s.starts.length, [failingRow n, youngerRow], [], []⟩
  let s₂ := s₁.raised 0 started (failingRow n) [youngerRow]
  let counted : Batch := ⟨s.starts.length, [youngerRow], [], [failingRow n]⟩
  let s₃ := s₂.acked 0 counted youngerRow [] 7
  have hpersist : s.step (.persist [orderRow] 5) = some s₀ := by
    simp only [Outbox.step, h.seq]
    rfl
  have hrows : s₀.rows = [failingRow n, youngerRow] := by
    simp [s₀, Outbox.inserted, h.rows]
  have hselect : s₀.step (.select 0 100 [failingRow n, youngerRow]) = some s₁ := by
    have hfree : s₀.relays 0 = none := by simp [s₀, Outbox.inserted, h.relays]
    have hselectable : s₀.selectable = [failingRow n, youngerRow] := by
      rw [Outbox.selectable, hrows]
      simp [s₀, Outbox.inserted, h.locks, failingRow, youngerRow, DeliveryRow.outboxEvent]
    have hscan : [failingRow n, youngerRow].Perm s₀.selectable := hselectable ▸ .refl _
    have horder : unpublishedOutboxSelect 100 [failingRow n, youngerRow] =
        [failingRow n, youngerRow] := by
      norm_num [unpublishedOutboxSelect, failingRow, youngerRow, DeliveryRow.outboxEvent]
    simp only [Outbox.step, if_pos (And.intro hfree hscan), horder]
    rfl
  have hstarted : s₁.relays 0 = some started := by
    simp [s₁, s₀, started, Outbox.inserted, Outbox.selected, Outbox.setBatch]
  have hraised : s₁.step (.send 0 .raised 6) = some s₂ := by
    simp only [Outbox.step, hstarted]
    rfl
  have hcounted : s₂.relays 0 = some counted := by
    simp [s₂, started, counted, Outbox.raised, Outbox.setBatch]
  have hacked : s₂.step (.send 0 .acknowledged 7) = some s₃ := by
    simp only [Outbox.step, hcounted]
    rfl
  refine ⟨s₃, ?_, hrows, ?_, ?_⟩
  · simp only [lastBatch, exec_cons, exec_nil, hpersist, hselect, hraised, hacked,
      Option.bind_some]
  · simp [s₃, counted, lastSession, Outbox.acked, Outbox.setBatch]
  · exact ⟨_, List.mem_append_right _ (List.mem_singleton_self _), rfl⟩

/-- After 32767 failed sends of a row its next failure rolls back the whole batch: a row that
Kafka has acknowledged is unpublished again. -/
theorem acknowledged_row_rolled_back :
    ∃ as s s', exec Outbox.step Outbox.init as = some s ∧ s.step (.commit 0) = some s' ∧
      ¬ CountersFit s ∧ (∃ a ∈ s.acks, a.row = 2) ∧
      ∃ o ∈ s'.rows, o.id = 2 ∧ o.publishedAt = none := by
  obtain ⟨as, s, hrun, hs⟩ := failing_batches (n := smallIntegerMax) le_rfl
  obtain ⟨s', hlast, hrows, hbatch, hack⟩ := last_batch hs
  have hover : ¬ ∀ o ∈ s'.rows,
      ((lastSession s.starts.length smallIntegerMax).mark o).publishAttempts ≤
        smallIntegerMax := by
    intro hall
    have hle := hall (failingRow smallIntegerMax) (by rw [hrows]; exact List.mem_cons_self)
    rw [mark_publishAttempts, if_pos (by simp [lastSession, failingRow, youngerRow])] at hle
    exact absurd hle (Nat.not_succ_le_self _)
  refine ⟨as ++ lastBatch smallIntegerMax, s', s'.endTransaction 0, ?_, ?_, ?_, hack, ?_⟩
  · rw [exec_append, hrun]
    exact hlast
  · simp only [Outbox.step, hbatch, lastSession]
    exact congrArg some (if_neg hover)
  · exact fun hfit => hover (hfit.session 0 _ hbatch)
  · refine ⟨youngerRow, ?_, rfl, rfl⟩
    change youngerRow ∈ s'.rows
    rw [hrows]
    exact List.mem_cons_of_mem _ List.mem_cons_self

end PartnerHub.Relay
