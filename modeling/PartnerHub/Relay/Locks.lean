import PartnerHub.Relay.Batch

/-!
# Rows, locks and batch numbers

What holds of the tables and of the open batches in every reachable state: keys are unique,
each inbound event has one outbox row, an open batch works on unpublished rows that it alone
has locked, and no two batches have one number.
-/
namespace PartnerHub.Relay

open PartnerHub.Domain PartnerHub.Lib

/-- The rows a batch selected, in the order published, failed, pending. -/
def Batch.rows (b : Batch) : List OutboxEvent :=
  b.published.map Prod.fst ++ b.failed ++ b.pending

theorem mem_rows {b : Batch} {o : OutboxEvent} :
    o ∈ b.rows ↔ (∃ t, (o, t) ∈ b.published) ∨ o ∈ b.failed ∨ o ∈ b.pending := by
  simp [Batch.rows]

/-! ## What a commit writes -/

@[simp] theorem mark_id (b : Batch) (o : OutboxEvent) : (b.mark o).id = o.id := by
  unfold Batch.mark
  split
  · rfl
  · split <;> rfl

@[simp] theorem mark_message (b : Batch) (o : OutboxEvent) : (b.mark o).message = o.message := by
  unfold Batch.mark
  split
  · rfl
  · split <;> rfl

@[simp] theorem mark_aggregateType (b : Batch) (o : OutboxEvent) :
    (b.mark o).aggregateType = o.aggregateType := by
  unfold Batch.mark
  split
  · rfl
  · split <;> rfl

@[simp] theorem mark_createdAt (b : Batch) (o : OutboxEvent) :
    (b.mark o).createdAt = o.createdAt := by
  unfold Batch.mark
  split
  · rfl
  · split <;> rfl

@[simp] theorem mark_publishes (b : Batch) (o : OutboxEvent) :
    publishes (b.mark o) = publishes o := by
  have hp : (b.mark o).payload = o.payload := congrArg Message.value (mark_message b o)
  unfold publishes
  rw [mark_aggregateType, hp]

/-- A row keeps its `published_at` unless the batch acknowledged it. -/
theorem mark_publishedAt (b : Batch) (o : OutboxEvent) :
    (∃ p ∈ b.published, p.1.id = o.id ∧ (b.mark o).publishedAt = some p.2) ∨
      (∀ p ∈ b.published, p.1.id ≠ o.id) ∧ (b.mark o).publishedAt = o.publishedAt := by
  unfold Batch.mark
  cases hf : b.published.find? fun p => p.1.id = o.id with
  | some p =>
    have hid : p.1.id = o.id := by simpa using List.find?_some hf
    exact .inl ⟨p, List.mem_of_find?_eq_some hf, hid, rfl⟩
  | none =>
    refine .inr ⟨?_, ?_⟩
    · intro p hp
      simpa using List.find?_eq_none.mp hf p hp
    · simp only
      split <;> rfl

theorem mark_of_other {b : Batch} {o : OutboxEvent} (h : ∀ x ∈ b.rows, x.id ≠ o.id) :
    b.mark o = o := by
  have hpub : b.published.find? (fun p => p.1.id = o.id) = none := by
    rw [List.find?_eq_none]
    intro p hp
    simpa using h p.1 (mem_rows.mpr (.inl ⟨p.2, hp⟩))
  have hfail : ¬ ∃ f ∈ b.failed, f.id = o.id := by
    rintro ⟨f, hf, hid⟩
    exact h f (mem_rows.mpr (.inr (.inl hf))) hid
  unfold Batch.mark
  rw [hpub]
  exact if_neg hfail

/-- What the UPDATEs of a batch leave in one inbound event. -/
def Batch.stamp (b : Batch) (e : InboundEvent) : InboundEvent :=
  b.published.foldl (fun e p =>
    if publishes p.1 = some e.id then { e with publishedAt := some p.2 } else e) e

theorem markInbound_eq_map (b : Batch) (events : List InboundEvent) :
    b.markInbound events = events.map b.stamp := by
  unfold Batch.markInbound Batch.stamp
  induction b.published generalizing events with
  | nil => simp
  | cons p rest ih =>
    rw [List.foldl_cons, ih]
    cases hp : publishes p.1 with
    | none => simp [hp]
    | some i =>
      simp only [markInboundPublished, Lib.Table.modify, List.map_map]
      apply List.map_congr_left
      intro e _
      simp only [Function.comp_apply, List.foldl_cons, hp, Option.some.injEq, eq_comm]

/-- An event keeps its `published_at` unless the batch acknowledged a row that names it. -/
theorem stamp_spec (b : Batch) (e : InboundEvent) :
    (b.stamp e).id = e.id ∧
      ((∃ p ∈ b.published, publishes p.1 = some e.id ∧ (b.stamp e).publishedAt = some p.2) ∨
        (∀ p ∈ b.published, publishes p.1 ≠ some e.id) ∧ b.stamp e = e) := by
  unfold Batch.stamp
  induction b.published generalizing e with
  | nil => simp
  | cons p rest ih =>
    rw [List.foldl_cons]
    by_cases hp : publishes p.1 = some e.id
    · rw [if_pos hp]
      obtain ⟨hid, hcase⟩ := ih { e with publishedAt := some p.2 }
      refine ⟨hid, .inl ?_⟩
      rcases hcase with ⟨q, hq, hname, hat⟩ | ⟨_, heq⟩
      · exact ⟨q, List.mem_cons_of_mem _ hq, hname, hat⟩
      · exact ⟨p, List.mem_cons_self, hp, by rw [heq]⟩
    · rw [if_neg hp]
      obtain ⟨hid, hcase⟩ := ih e
      refine ⟨hid, ?_⟩
      rcases hcase with ⟨q, hq, hname, hat⟩ | ⟨hnone, heq⟩
      · exact .inl ⟨q, List.mem_cons_of_mem _ hq, hname, hat⟩
      · refine .inr ⟨?_, heq⟩
        intro q hq
        rcases List.mem_cons.mp hq with rfl | hq
        · exact hp
        · exact hnone q hq

@[simp] theorem stamp_id (b : Batch) (e : InboundEvent) : (b.stamp e).id = e.id :=
  (stamp_spec b e).1

/-! ## The tables -/

/-- Primary keys, and one outbox row for each inbound event. -/
structure WellFormed (s : Outbox) : Prop where
  row_ids : (s.rows.map (·.id)).Nodup
  row_seq : ∀ o ∈ s.rows, o.id ≤ s.seq
  event_ids : (s.inboundEvents.map (·.id)).Nodup
  named : ∀ o ∈ s.rows, o.aggregateType = .inboundEvent →
    ∃ e ∈ s.inboundEvents, publishes o = some e.id
  one_row : ∀ o ∈ s.rows, ∀ o' ∈ s.rows, publishes o ≠ none → publishes o = publishes o' → o = o'

theorem publishes_inbound {o : OutboxEvent} (h : publishes o ≠ none) :
    o.aggregateType = .inboundEvent := by
  cases ht : o.aggregateType with
  | inboundEvent => rfl
  | delivery =>
    unfold publishes at h
    rw [ht] at h
    exact absurd rfl h

theorem wellFormed_init : WellFormed Outbox.init where
  row_ids := List.nodup_nil
  row_seq := fun _ h => absurd h List.not_mem_nil
  event_ids := List.nodup_nil
  named := fun _ h => absurd h List.not_mem_nil
  one_row := fun _ h => absurd h List.not_mem_nil

theorem WellFormed.inserted {s : Outbox} (h : WellFormed s) {events : List OutboxEvent}
    {inbound : List InboundEvent} (hi : Inserts s events inbound) :
    WellFormed (s.inserted events inbound) where
  row_ids := by
    change ((s.rows ++ events).map (·.id)).Nodup
    rw [List.map_append, hi.ids]
    refine Outbound.nodup_append_range h.row_ids ?_
    intro i hmem
    obtain ⟨o, ho, rfl⟩ := List.mem_map.mp hmem
    exact h.row_seq o ho
  row_seq := by
    intro o ho
    change o.id ≤ s.seq + events.length
    rcases List.mem_append.mp ho with ho | ho
    · have hle := h.row_seq o ho
      omega
    · have hmem : o.id ∈ events.map (·.id) := List.mem_map_of_mem ho
      rw [hi.ids] at hmem
      exact Outbound.mem_range_le hmem
  event_ids := hi.event_ids
  named := by
    intro o ho hin
    rcases List.mem_append.mp ho with ho | ho
    · obtain ⟨e, he, hname⟩ := h.named o ho hin
      exact ⟨e, List.mem_append_left _ he, hname⟩
    · obtain ⟨e, he, hname⟩ := hi.named o ho hin
      exact ⟨e, List.mem_append_right _ he, hname⟩
  one_row := by
    -- an old and a new row name different events: the new events have new ids
    have hapart : ∀ o ∈ s.rows, ∀ o' ∈ events, publishes o ≠ none → publishes o ≠ publishes o' := by
      intro o ho o' ho' hne heq
      obtain ⟨e, he, hname⟩ := h.named o ho (publishes_inbound hne)
      obtain ⟨e', he', hname'⟩ := hi.named o' ho' (publishes_inbound (heq ▸ hne))
      have hid : e.id = e'.id := Option.some.inj (hname.symm.trans (heq.trans hname'))
      have hnd := hi.event_ids
      rw [List.map_append, List.nodup_append] at hnd
      exact hnd.2.2 e.id (List.mem_map_of_mem he) e'.id (List.mem_map_of_mem he') hid
    intro o ho o' ho' hne heq
    rcases List.mem_append.mp ho with ho | ho
    · rcases List.mem_append.mp ho' with ho' | ho'
      · exact h.one_row o ho o' ho' hne heq
      · exact absurd heq (hapart o ho o' ho' hne)
    · rcases List.mem_append.mp ho' with ho' | ho'
      · exact absurd heq.symm (hapart o' ho' o ho (heq ▸ hne))
      · exact hi.one_row o ho o' ho' hne heq

theorem WellFormed.written {s : Outbox} (h : WellFormed s) (r : Nat) (b : Batch) :
    WellFormed (s.written r b) where
  row_ids := by
    change ((s.rows.map b.mark).map (·.id)).Nodup
    rw [List.map_map]
    simpa [Function.comp_def] using h.row_ids
  row_seq := by
    intro o ho
    obtain ⟨o₀, ho₀, rfl⟩ := List.mem_map.mp ho
    rw [mark_id]
    exact h.row_seq o₀ ho₀
  event_ids := by
    change ((b.markInbound s.inboundEvents).map (·.id)).Nodup
    rw [markInbound_eq_map, List.map_map]
    simpa [Function.comp_def] using h.event_ids
  named := by
    intro o ho hin
    obtain ⟨o₀, ho₀, rfl⟩ := List.mem_map.mp ho
    rw [mark_aggregateType] at hin
    obtain ⟨e, he, hname⟩ := h.named o₀ ho₀ hin
    refine ⟨b.stamp e, ?_, ?_⟩
    · change b.stamp e ∈ b.markInbound s.inboundEvents
      rw [markInbound_eq_map]
      exact List.mem_map_of_mem he
    · rw [mark_publishes, stamp_id]
      exact hname
  one_row := by
    intro o ho o' ho' hne heq
    obtain ⟨o₀, ho₀, rfl⟩ := List.mem_map.mp ho
    obtain ⟨o₁, ho₁, rfl⟩ := List.mem_map.mp ho'
    rw [mark_publishes] at hne heq
    rw [mark_publishes] at heq
    rw [h.one_row o₀ ho₀ o₁ ho₁ hne heq]

theorem WellFormed.moves {s s' : Outbox} {a : RelayAction} (h : WellFormed s)
    (hm : Moves s a s') : WellFormed s' := by
  cases hm with
  | insert _ hi => exact h.inserted hi
  | select _ _ => exact ⟨h.1, h.2, h.3, h.4, h.5⟩
  | raised _ _ => exact ⟨h.1, h.2, h.3, h.4, h.5⟩
  | acked _ _ => exact ⟨h.1, h.2, h.3, h.4, h.5⟩
  | died _ _ => exact ⟨h.1, h.2, h.3, h.4, h.5⟩
  | written _ _ => exact h.written _ _
  | ended _ _ => exact ⟨h.1, h.2, h.3, h.4, h.5⟩

/-! ## Open batches and their locks -/

/-- An open batch works on unpublished rows of the table that it has locked, and nothing
else is locked. -/
structure Held (s : Outbox) : Prop where
  row : ∀ r b, s.relays r = some b → ∀ o ∈ b.rows,
    o ∈ s.rows ∧ o.publishedAt = none ∧ s.locks o.id = some r
  ids : ∀ r b, s.relays r = some b → (b.rows.map (·.id)).Nodup
  lock : ∀ i r, s.locks i = some r → ∃ b, s.relays r = some b ∧ i ∈ b.rows.map (·.id)

theorem held_init : Held Outbox.init where
  row := fun _ _ h => nomatch h
  ids := fun _ _ h => nomatch h
  lock := fun _ _ h => nomatch h

theorem mem_selectable {s : Outbox} {o : OutboxEvent} :
    o ∈ s.selectable ↔ o ∈ s.rows ∧ o.publishedAt = none ∧ s.locks o.id = none := by
  simp [Outbox.selectable]

theorem mem_select {s : Outbox} {limit : Nat} {scan : List OutboxEvent}
    (hscan : scan.Perm s.selectable) {o : OutboxEvent}
    (h : o ∈ unpublishedOutboxSelect limit scan) : o ∈ s.selectable := by
  have hs := List.mem_of_mem_take h
  rw [List.mem_insertionSort] at hs
  exact hscan.mem_iff.mp hs

theorem nodup_select {s : Outbox} (hn : (s.rows.map (·.id)).Nodup) {limit : Nat}
    {scan : List OutboxEvent} (hscan : scan.Perm s.selectable) :
    ((unpublishedOutboxSelect limit scan).map (·.id)).Nodup := by
  have hsel : (s.selectable.map (·.id)).Nodup :=
    (List.filter_sublist.map _).nodup hn
  have hperm : (scan.insertionSort fun a b => a.createdAt ≤ b.createdAt).Perm s.selectable :=
    (List.perm_insertionSort _ scan).trans hscan
  have hsort := (hperm.map (·.id)).nodup_iff.mpr hsel
  exact ((List.take_sublist limit _).map _).nodup hsort

theorem Held.inserted {s : Outbox} (h : Held s) (events : List OutboxEvent)
    (inbound : List InboundEvent) : Held (s.inserted events inbound) where
  row := by
    intro r b hr o ho
    obtain ⟨hmem, hrest⟩ := h.row r b hr o ho
    exact ⟨List.mem_append_left _ hmem, hrest⟩
  ids := h.ids
  lock := h.lock

theorem Held.selected {s : Outbox} (h : Held s) (hw : WellFormed s) {r limit : Nat}
    {scan : List OutboxEvent} (hr : s.relays r = none) (hscan : scan.Perm s.selectable) :
    Held (s.selected r (unpublishedOutboxSelect limit scan)) := by
  have hfree : ∀ o ∈ unpublishedOutboxSelect limit scan,
      o ∈ s.rows ∧ o.publishedAt = none ∧ s.locks o.id = none :=
    fun o ho => mem_selectable.mp (mem_select hscan ho)
  refine ⟨?_, ?_, ?_⟩
  · intro r' b hb o ho
    rcases Slots.update_some_cases hb with ⟨rfl, he⟩ | ⟨-, hb⟩
    · obtain rfl := Option.some.inj he
      obtain ⟨hmem, hunp, -⟩ := hfree o ho
      exact ⟨hmem, hunp, if_pos (List.mem_map_of_mem ho)⟩
    · obtain ⟨hmem, hunp, hlock⟩ := h.row r' b hb o ho
      refine ⟨hmem, hunp, ?_⟩
      have hnot : o.id ∉ (unpublishedOutboxSelect limit scan).map (·.id) := by
        intro hin
        obtain ⟨x, hx, hid⟩ := List.mem_map.mp hin
        have hnone := (hfree x hx).2.2
        rw [hid, hlock] at hnone
        cases hnone
      exact (if_neg hnot).trans hlock
  · intro r' b hb
    rcases Slots.update_some_cases hb with ⟨rfl, he⟩ | ⟨-, hb⟩
    · obtain rfl := Option.some.inj he
      exact nodup_select hw.row_ids hscan
    · exact h.ids r' b hb
  · intro i r' hl
    change (if i ∈ (unpublishedOutboxSelect limit scan).map (·.id) then some r else s.locks i) =
      some r' at hl
    split at hl
    · rename_i hin
      obtain rfl := Option.some.inj hl
      exact ⟨_, Function.update_self _ _ _, hin⟩
    · obtain ⟨b, hb, hin⟩ := h.lock i r' hl
      have hne : r' ≠ r := by
        rintro rfl
        rw [hr] at hb
        cases hb
      exact ⟨b, (Function.update_of_ne hne _ _).trans hb, hin⟩

/-- The loop moves one row from the pending rows to the others. -/
theorem Held.advance {s t : Outbox} (h : Held s) {r : Nat} {b b' : Batch}
    (hr : s.relays r = some b) (ht : t.relays = Function.update s.relays r (some b'))
    (hrows : t.rows = s.rows) (hlocks : t.locks = s.locks) (hperm : b'.rows.Perm b.rows) :
    Held t := by
  refine ⟨?_, ?_, ?_⟩
  · intro r' x hx o ho
    rw [ht] at hx
    rw [hrows, hlocks]
    rcases Slots.update_some_cases hx with ⟨rfl, he⟩ | ⟨-, hx⟩
    · obtain rfl := Option.some.inj he
      exact h.row r' b hr o (hperm.mem_iff.mp ho)
    · exact h.row r' x hx o ho
  · intro r' x hx
    rw [ht] at hx
    rcases Slots.update_some_cases hx with ⟨rfl, he⟩ | ⟨-, hx⟩
    · obtain rfl := Option.some.inj he
      exact (hperm.map _).nodup_iff.mpr (h.ids r' b hr)
    · exact h.ids r' x hx
  · intro i r' hl
    rw [hlocks] at hl
    rw [ht]
    obtain ⟨x, hx, hin⟩ := h.lock i r' hl
    by_cases hrr : r' = r
    · subst hrr
      obtain rfl := Option.some.inj (hr.symm.trans hx)
      exact ⟨b', Function.update_self _ _ _, (hperm.map _).mem_iff.mpr hin⟩
    · exact ⟨x, (Function.update_of_ne hrr _ _).trans hx, hin⟩

theorem rows_raised {b : Batch} {o : OutboxEvent} {rest : List OutboxEvent}
    (hp : b.pending = o :: rest) :
    Batch.rows { b with pending := rest, failed := b.failed ++ [o] } = b.rows := by
  simp [Batch.rows, hp]

theorem perm_acked {b : Batch} {o : OutboxEvent} {rest : List OutboxEvent} {now : Time}
    (hp : b.pending = o :: rest) :
    (Batch.rows { b with pending := rest, published := b.published ++ [(o, now)] }).Perm
      b.rows := by
  simp only [Batch.rows, hp, List.map_append, List.map_cons, List.map_nil, List.append_assoc]
  refine List.Perm.append_left _ ?_
  exact List.perm_append_comm_assoc [o] b.failed rest

theorem Held.endTransaction {s : Outbox} (h : Held s) (r : Nat) : Held (s.endTransaction r) := by
  refine ⟨?_, ?_, ?_⟩
  · intro r' b hb o ho
    obtain ⟨hb, hne⟩ := Slots.update_none_some hb
    obtain ⟨hmem, hunp, hlock⟩ := h.row r' b hb o ho
    have hnot : s.locks o.id ≠ some r := by
      rw [hlock]
      exact fun hc => hne (Option.some.inj hc)
    exact ⟨hmem, hunp, (if_neg hnot).trans hlock⟩
  · intro r' b hb
    exact h.ids r' b (Slots.update_none_some hb).1
  · intro i r' hl
    change (if s.locks i = some r then none else s.locks i) = some r' at hl
    split at hl
    · cases hl
    · rename_i hnot
      obtain ⟨b, hb, hin⟩ := h.lock i r' hl
      have hne : r' ≠ r := by
        rintro rfl
        exact hnot hl
      exact ⟨b, (Function.update_of_ne hne _ _).trans hb, hin⟩

/-- No other relay holds a row of the batch that commits, so the rows the others work on
stay as they are. -/
theorem Held.written {s : Outbox} (h : Held s) {r : Nat} {b : Batch} (hr : s.relays r = some b) :
    Held (s.written r b) := by
  have he := h.endTransaction r
  refine ⟨?_, he.ids, he.lock⟩
  intro r' b' hb' o ho
  obtain ⟨hmem, hunp, hlock⟩ := he.row r' b' hb' o ho
  refine ⟨?_, hunp, hlock⟩
  have hkeep : ∀ x ∈ b.rows, x.id ≠ o.id := by
    intro x hx hid
    have hxl := (h.row r b hr x hx).2.2
    change (if s.locks o.id = some r then none else s.locks o.id) = some r' at hlock
    rw [← hid, if_pos hxl] at hlock
    cases hlock
  exact List.mem_map.mpr ⟨o, hmem, mark_of_other hkeep⟩

theorem Held.acked {s : Outbox} (h : Held s) {r : Nat} {b : Batch} {o : OutboxEvent}
    {rest : List OutboxEvent} {now : Time} (hr : s.relays r = some b)
    (hp : b.pending = o :: rest) : Held (s.acked r b o rest now) :=
  h.advance hr rfl rfl rfl (perm_acked hp)

theorem Held.moves {s s' : Outbox} {a : RelayAction} (h : Held s) (hw : WellFormed s)
    (hm : Moves s a s') : Held s' := by
  cases hm with
  | insert _ _ => exact h.inserted _ _
  | select hr hscan => exact h.selected hw hr hscan
  | raised hr hp => exact h.advance hr rfl rfl rfl (List.Perm.of_eq (rows_raised hp))
  | acked hr hp => exact h.acked hr hp
  | died hr hp => exact (h.acked hr hp).endTransaction _
  | written hr _ => exact h.written hr
  | ended _ _ => exact h.endTransaction _

/-! ## Batch numbers -/

/-- Batch numbers are given once, and an open batch has not committed. -/
structure Numbered (s : Outbox) : Prop where
  number_lt : ∀ r b, s.relays r = some b → b.number < s.starts.length
  number_ne : ∀ r b r' b', s.relays r = some b → s.relays r' = some b' →
    b.number = b'.number → r = r'
  uncommitted : ∀ r b, s.relays r = some b → b.number ∉ s.committed
  committed_lt : ∀ n ∈ s.committed, n < s.starts.length
  ack_lt : ∀ a ∈ s.acks, a.batch < s.starts.length
  failure_lt : ∀ f ∈ s.failures, f.batch < s.starts.length

theorem numbered_init : Numbered Outbox.init where
  number_lt := fun _ _ h => nomatch h
  number_ne := fun _ _ _ _ h => nomatch h
  uncommitted := fun _ _ h => nomatch h
  committed_lt := fun _ h => absurd h List.not_mem_nil
  ack_lt := fun _ h => absurd h List.not_mem_nil
  failure_lt := fun _ h => absurd h List.not_mem_nil

theorem Numbered.selected {s : Outbox} (h : Numbered s) (r : Nat) (rows : List OutboxEvent) :
    Numbered (s.selected r rows) := by
  have hlen : (s.selected r rows).starts.length = s.starts.length + 1 := List.length_append
  refine ⟨?_, ?_, ?_, ?_, ?_, ?_⟩
  · intro r' b hb
    rw [hlen]
    rcases Slots.update_some_cases hb with ⟨-, he⟩ | ⟨-, hb⟩
    · obtain rfl := Option.some.inj he
      exact Nat.lt_succ_self _
    · have hlt := h.number_lt r' b hb
      omega
  · intro r₁ b₁ r₂ b₂ h₁ h₂ hn
    rcases Slots.update_some_cases h₁ with ⟨rfl, he₁⟩ | ⟨-, g₁⟩
    · rcases Slots.update_some_cases h₂ with ⟨rfl, -⟩ | ⟨-, g₂⟩
      · rfl
      · obtain rfl := Option.some.inj he₁
        have hlt := h.number_lt r₂ b₂ g₂
        rw [← hn] at hlt
        exact absurd hlt (Nat.lt_irrefl _)
    · rcases Slots.update_some_cases h₂ with ⟨rfl, he₂⟩ | ⟨-, g₂⟩
      · obtain rfl := Option.some.inj he₂
        have hlt := h.number_lt r₁ b₁ g₁
        rw [hn] at hlt
        exact absurd hlt (Nat.lt_irrefl _)
      · exact h.number_ne r₁ b₁ r₂ b₂ g₁ g₂ hn
  · intro r' b hb hc
    rcases Slots.update_some_cases hb with ⟨-, he⟩ | ⟨-, hb⟩
    · obtain rfl := Option.some.inj he
      exact absurd (h.committed_lt _ hc) (Nat.lt_irrefl _)
    · exact h.uncommitted r' b hb hc
  · intro n hn
    have hlt := h.committed_lt n hn
    omega
  · intro a ha
    have hlt := h.ack_lt a ha
    omega
  · intro f hf
    have hlt := h.failure_lt f hf
    omega

/-- The loop goes on in a batch of the same number. -/
theorem Numbered.advance {s t : Outbox} (h : Numbered s) {r : Nat} {b b' : Batch}
    (hr : s.relays r = some b) (ht : t.relays = Function.update s.relays r (some b'))
    (hnum : b'.number = b.number) (hstarts : t.starts = s.starts)
    (hcomm : t.committed = s.committed) (hacks : ∀ a ∈ t.acks, a ∈ s.acks ∨ a.batch = b.number)
    (hfail : ∀ f ∈ t.failures, f ∈ s.failures ∨ f.batch = b.number) : Numbered t := by
  have hold : ∀ r' x, t.relays r' = some x → ∃ y, s.relays r' = some y ∧ x.number = y.number := by
    intro r' x hx
    rw [ht] at hx
    rcases Slots.update_some_cases hx with ⟨rfl, he⟩ | ⟨-, hx⟩
    · obtain rfl := Option.some.inj he
      exact ⟨b, hr, hnum⟩
    · exact ⟨x, hx, rfl⟩
  have hlt := h.number_lt r b hr
  refine ⟨?_, ?_, ?_, ?_, ?_, ?_⟩
  · intro r' x hx
    obtain ⟨y, hy, hxy⟩ := hold r' x hx
    rw [hxy, hstarts]
    exact h.number_lt r' y hy
  · intro r₁ x₁ r₂ x₂ h₁ h₂ hn
    obtain ⟨y₁, hy₁, hxy₁⟩ := hold r₁ x₁ h₁
    obtain ⟨y₂, hy₂, hxy₂⟩ := hold r₂ x₂ h₂
    exact h.number_ne r₁ y₁ r₂ y₂ hy₁ hy₂ (by rw [← hxy₁, ← hxy₂, hn])
  · intro r' x hx
    obtain ⟨y, hy, hxy⟩ := hold r' x hx
    rw [hxy, hcomm]
    exact h.uncommitted r' y hy
  · rw [hcomm, hstarts]
    exact h.committed_lt
  · intro a ha
    rw [hstarts]
    rcases hacks a ha with ha | ha
    · exact h.ack_lt a ha
    · omega
  · intro f hf
    rw [hstarts]
    rcases hfail f hf with hf | hf
    · exact h.failure_lt f hf
    · omega

theorem Numbered.acked {s : Outbox} (h : Numbered s) {r : Nat} {b : Batch} {o : OutboxEvent}
    {rest : List OutboxEvent} {now : Time} (hr : s.relays r = some b) :
    Numbered (s.acked r b o rest now) := by
  refine h.advance hr rfl rfl rfl rfl ?_ fun f hf => .inl hf
  intro a ha
  rcases List.mem_append.mp ha with ha | ha
  · exact .inl ha
  · rw [List.mem_singleton.mp ha]
    exact .inr rfl

theorem Numbered.raised {s : Outbox} (h : Numbered s) {r : Nat} {b : Batch} {o : OutboxEvent}
    {rest : List OutboxEvent} (hr : s.relays r = some b) : Numbered (s.raised r b o rest) := by
  refine h.advance hr rfl rfl rfl rfl (fun a ha => .inl ha) ?_
  intro f hf
  rcases List.mem_append.mp hf with hf | hf
  · exact .inl hf
  · rw [List.mem_singleton.mp hf]
    exact .inr rfl

theorem Numbered.endTransaction {s : Outbox} (h : Numbered s) (r : Nat) :
    Numbered (s.endTransaction r) where
  number_lt := fun r' b hb => h.number_lt r' b (Slots.update_none_some hb).1
  number_ne := fun r₁ b₁ r₂ b₂ h₁ h₂ =>
    h.number_ne r₁ b₁ r₂ b₂ (Slots.update_none_some h₁).1 (Slots.update_none_some h₂).1
  uncommitted := fun r' b hb => h.uncommitted r' b (Slots.update_none_some hb).1
  committed_lt := h.committed_lt
  ack_lt := h.ack_lt
  failure_lt := h.failure_lt

theorem Numbered.written {s : Outbox} (h : Numbered s) {r : Nat} {b : Batch}
    (hr : s.relays r = some b) : Numbered (s.written r b) := by
  have he := h.endTransaction r
  refine ⟨he.number_lt, he.number_ne, ?_, ?_, he.ack_lt, he.failure_lt⟩
  · intro r' b' hb' hc
    obtain ⟨hb', hne⟩ := Slots.update_none_some hb'
    rcases List.mem_append.mp hc with hc | hc
    · exact h.uncommitted r' b' hb' hc
    · exact hne (h.number_ne r' b' r b hb' hr (List.mem_singleton.mp hc))
  · intro n hn
    rcases List.mem_append.mp hn with hn | hn
    · exact h.committed_lt n hn
    · rw [List.mem_singleton.mp hn]
      exact h.number_lt r b hr

theorem Numbered.moves {s s' : Outbox} {a : RelayAction} (h : Numbered s) (hm : Moves s a s') :
    Numbered s' := by
  cases hm with
  | insert _ _ => exact ⟨h.1, h.2, h.3, h.4, h.5, h.6⟩
  | select _ _ => exact h.selected _ _
  | raised hr _ => exact h.raised hr
  | acked hr _ => exact h.acked hr
  | died hr _ => exact (h.acked hr).endTransaction _
  | written hr _ => exact h.written hr
  | ended _ _ => exact h.endTransaction _

structure Sound (s : Outbox) : Prop where
  tables : WellFormed s
  held : Held s
  numbered : Numbered s

theorem sound_init : Sound Outbox.init :=
  ⟨wellFormed_init, held_init, numbered_init⟩

theorem Sound.moves {s s' : Outbox} {a : RelayAction} (h : Sound s) (hm : Moves s a s') :
    Sound s' :=
  ⟨h.tables.moves hm, h.held.moves h.tables hm, h.numbered.moves hm⟩

/-- A row of the table with the id of a batch's row is that row. -/
theorem Sound.row_of_batch {s : Outbox} (h : Sound s) {r : Nat} {b : Batch}
    (hr : s.relays r = some b) {x o : OutboxEvent} (hx : x ∈ b.rows) (ho : o ∈ s.rows)
    (hid : x.id = o.id) : x = o :=
  Table.eq_of_unique h.tables.row_ids (h.held.row r b hr x hx).1 ho hid

/-- The row the loop sends next is in no other place of the batch. -/
theorem Sound.sending {s : Outbox} (h : Sound s) {r : Nat} {b : Batch} {o : OutboxEvent}
    {rest : List OutboxEvent} (hr : s.relays r = some b) (hp : b.pending = o :: rest) :
    (∀ p ∈ b.published, p.1.id ≠ o.id) ∧ ∀ x ∈ b.failed, x.id ≠ o.id := by
  have hn := h.held.ids r b hr
  rw [Batch.rows, hp, List.map_append, List.nodup_append] at hn
  have hapart := fun i hi => hn.2.2 i hi o.id (List.mem_map_of_mem List.mem_cons_self)
  refine ⟨?_, ?_⟩
  · intro p hpub
    exact hapart p.1.id (List.mem_map_of_mem (List.mem_append_left _ (List.mem_map_of_mem hpub)))
  · intro x hx
    exact hapart x.id (List.mem_map_of_mem (List.mem_append_right _ hx))

/-- A batch acknowledges a row once. -/
theorem Sound.published_once {s : Outbox} (h : Sound s) {r : Nat} {b : Batch}
    (hr : s.relays r = some b) {p q : OutboxEvent × Time} (hp : p ∈ b.published)
    (hq : q ∈ b.published) (hid : p.1.id = q.1.id) : p = q := by
  have hn := h.held.ids r b hr
  rw [Batch.rows, List.append_assoc, List.map_append, List.nodup_append, List.map_map] at hn
  exact Table.eq_of_unique hn.1 hp hq hid

end PartnerHub.Relay
