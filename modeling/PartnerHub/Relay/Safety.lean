import PartnerHub.Lib.System
import PartnerHub.Relay.Locks

/-!
# What the relays guarantee

Every reachable state of any number of relays: published rows were acknowledged, rows whose
send raised stay unpublished and can be selected again, an acknowledgement is repeated only
after a batch that did not commit, and an inbound event is stamped with its outbox row.
-/
namespace PartnerHub.Relay

open PartnerHub.Domain PartnerHub.Lib PartnerHub.Lib.System

def Batch.ack (b : Batch) (p : OutboxEvent × Time) : Ack :=
  ⟨b.number, p.1.id, p.1.message, p.2⟩

/-- No batch under way has this number. -/
def Outbox.Closed (s : Outbox) (number : Nat) : Prop :=
  ∀ r b, s.relays r = some b → b.number ≠ number

theorem Outbox.Closed.advance {s t : Outbox} {number : Nat} (h : s.Closed number) {r : Nat}
    {b b' : Batch} (hr : s.relays r = some b)
    (ht : t.relays = Function.update s.relays r (some b')) (hnum : b'.number = b.number) :
    t.Closed number := by
  intro r' x hx
  rw [ht] at hx
  rcases Slots.update_some_cases hx with ⟨rfl, he⟩ | ⟨-, hx⟩
  · obtain rfl := Option.some.inj he
    rw [hnum]
    exact h r' b hr
  · exact h r' x hx

/-! ## Acknowledgements -/

/-- The acknowledgements against the open batches and the committed rows. -/
structure Acknowledged (s : Outbox) : Prop where
  open_batch : ∀ r b, s.relays r = some b →
    ∀ a, a ∈ s.acks ∧ a.batch = b.number ↔ ∃ p ∈ b.published, a = b.ack p
  row : ∀ a ∈ s.acks, ∃ o ∈ s.rows, o.id = a.row ∧ o.message = a.message
  published : ∀ o ∈ s.rows, ∀ t, o.publishedAt = some t ↔
    ∃ a ∈ s.acks, a.row = o.id ∧ a.publishedAt = t ∧ a.batch ∈ s.committed
  once : s.acks.Pairwise fun a a' => a.row = a'.row → a.batch ∉ s.committed ∧ s.Closed a.batch

theorem acknowledged_init : Acknowledged Outbox.init where
  open_batch := fun _ _ h => nomatch h
  row := fun _ h => absurd h List.not_mem_nil
  published := fun _ h => absurd h List.not_mem_nil
  once := List.Pairwise.nil

theorem Acknowledged.inserted {s : Outbox} (h : Acknowledged s) (hs : Sound s)
    {events : List OutboxEvent} {inbound : List InboundEvent} (hi : Inserts s events inbound) :
    Acknowledged (s.inserted events inbound) where
  open_batch := h.open_batch
  row := by
    intro a ha
    obtain ⟨o, ho, hrow⟩ := h.row a ha
    exact ⟨o, List.mem_append_left _ ho, hrow⟩
  published := by
    intro o ho t
    rcases List.mem_append.mp ho with ho | ho
    · exact h.published o ho t
    · have hmem : o.id ∈ events.map (·.id) := List.mem_map_of_mem ho
      rw [hi.ids] at hmem
      have hgt := (List.mem_range'_1.mp hmem).1
      rw [hi.unpublished o ho]
      constructor
      · intro hc
        cases hc
      · rintro ⟨a, ha, hrow, -⟩
        obtain ⟨o', ho', hid, -⟩ := h.row a ha
        have hle := hs.tables.row_seq o' ho'
        omega
  once := h.once

theorem Acknowledged.selected {s : Outbox} (h : Acknowledged s) (hs : Sound s) (r : Nat)
    (rows : List OutboxEvent) : Acknowledged (s.selected r rows) where
  open_batch := by
    intro r' b hb a
    rcases Slots.update_some_cases hb with ⟨-, he⟩ | ⟨-, hb⟩
    · obtain rfl := Option.some.inj he
      constructor
      · rintro ⟨ha, hn⟩
        have hlt := hs.numbered.ack_lt a ha
        rw [hn] at hlt
        exact absurd hlt (Nat.lt_irrefl _)
      · rintro ⟨p, hp, -⟩
        exact absurd hp List.not_mem_nil
    · exact h.open_batch r' b hb a
  row := h.row
  published := h.published
  once := by
    have hall := h.once
    rw [List.pairwise_iff_forall_sublist] at hall ⊢
    intro a a' hsub hrow
    obtain ⟨hc, hclosed⟩ := hall hsub hrow
    refine ⟨hc, ?_⟩
    intro r' b hb
    rcases Slots.update_some_cases hb with ⟨-, he⟩ | ⟨-, hb⟩
    · obtain rfl := Option.some.inj he
      have hlt := hs.numbered.ack_lt a (hsub.subset List.mem_cons_self)
      exact Nat.ne_of_gt hlt
    · exact hclosed r' b hb

theorem Acknowledged.raised {s : Outbox} (h : Acknowledged s) {r : Nat} {b : Batch}
    {o : OutboxEvent} {rest : List OutboxEvent} (hr : s.relays r = some b) :
    Acknowledged (s.raised r b o rest) where
  open_batch := by
    intro r' x hx a
    rcases Slots.update_some_cases hx with ⟨rfl, he⟩ | ⟨-, hx⟩
    · obtain rfl := Option.some.inj he
      exact h.open_batch r' b hr a
    · exact h.open_batch r' x hx a
  row := h.row
  published := h.published
  once := by
    refine h.once.imp ?_
    intro a a' hall hrow
    obtain ⟨hc, hclosed⟩ := hall hrow
    exact ⟨hc, hclosed.advance hr rfl rfl⟩

/-- Earlier acknowledgements of the row that is sent now are of batches that are over and did
not commit: a committed one would have published the row, an open one would hold its lock. -/
theorem Acknowledged.earlier {s : Outbox} (h : Acknowledged s) (hs : Sound s) {r : Nat} {b : Batch}
    {o : OutboxEvent} {rest : List OutboxEvent} (hr : s.relays r = some b)
    (hp : b.pending = o :: rest) {a : Ack} (ha : a ∈ s.acks) (hrow : a.row = o.id) :
    a.batch ∉ s.committed ∧ s.Closed a.batch := by
  have hmem : o ∈ b.rows := mem_rows.mpr (.inr (.inr (hp ▸ List.mem_cons_self)))
  obtain ⟨hin, hunp, hlock⟩ := hs.held.row r b hr o hmem
  refine ⟨?_, ?_⟩
  · intro hc
    have hpub := (h.published o hin a.publishedAt).mpr ⟨a, ha, hrow, rfl, hc⟩
    rw [hunp] at hpub
    cases hpub
  · intro r' x hx hn
    obtain ⟨p, hpub, rfl⟩ := (h.open_batch r' x hx a).mp ⟨ha, hn.symm⟩
    have hlock' := (hs.held.row r' x hx p.1 (mem_rows.mpr (.inl ⟨p.2, hpub⟩))).2.2
    have hid : p.1.id = o.id := hrow
    rw [hid, hlock] at hlock'
    obtain rfl := Option.some.inj hlock'
    obtain rfl := Option.some.inj (hr.symm.trans hx)
    exact (hs.sending hr hp).1 p hpub hid

theorem Acknowledged.acked {s : Outbox} (h : Acknowledged s) (hs : Sound s) {r : Nat} {b : Batch}
    {o : OutboxEvent} {rest : List OutboxEvent} {now : Time} (hr : s.relays r = some b)
    (hp : b.pending = o :: rest) : Acknowledged (s.acked r b o rest now) := by
  have hmem : o ∈ b.rows := mem_rows.mpr (.inr (.inr (hp ▸ List.mem_cons_self)))
  have hrow := (hs.held.row r b hr o hmem).1
  refine ⟨?_, ?_, ?_, ?_⟩
  · intro r' x hx a
    change (a ∈ s.acks ++ [b.ack (o, now)] ∧ _) ↔ _
    rw [List.mem_append, List.mem_singleton]
    rcases Slots.update_some_cases hx with ⟨rfl, he⟩ | ⟨hne, hx⟩
    · obtain rfl := Option.some.inj he
      have hold := h.open_batch r' b hr a
      constructor
      · rintro ⟨ha | rfl, hn⟩
        · obtain ⟨p, hpub, rfl⟩ := hold.mp ⟨ha, hn⟩
          exact ⟨p, List.mem_append_left _ hpub, rfl⟩
        · exact ⟨(o, now), List.mem_append_right _ (List.mem_singleton_self _), rfl⟩
      · rintro ⟨p, hpub, rfl⟩
        refine ⟨?_, rfl⟩
        rcases List.mem_append.mp hpub with hpub | hpub
        · exact .inl ((h.open_batch r' b hr _).mpr ⟨p, hpub, rfl⟩).1
        · rw [List.mem_singleton.mp hpub]
          exact .inr rfl
    · rw [← h.open_batch r' x hx a]
      refine and_congr_left ?_
      intro hn
      refine or_iff_left ?_
      rintro rfl
      exact hne (hs.numbered.number_ne r' x r b hx hr hn.symm)
  · intro a ha
    rcases List.mem_append.mp ha with ha | ha
    · exact h.row a ha
    · rw [List.mem_singleton.mp ha]
      exact ⟨o, hrow, rfl, rfl⟩
  · intro x hx t
    rw [h.published x hx t]
    constructor
    · rintro ⟨a, ha, hrest⟩
      exact ⟨a, List.mem_append_left _ ha, hrest⟩
    · rintro ⟨a, ha, hrest⟩
      rcases List.mem_append.mp ha with ha | ha
      · exact ⟨a, ha, hrest⟩
      · rw [List.mem_singleton.mp ha] at hrest
        exact absurd hrest.2.2 (hs.numbered.uncommitted r b hr)
  · refine List.pairwise_append.mpr ⟨?_, List.pairwise_singleton _ _, ?_⟩
    · refine h.once.imp ?_
      intro a a' hall hrow
      obtain ⟨hc, hclosed⟩ := hall hrow
      exact ⟨hc, hclosed.advance hr rfl rfl⟩
    · intro a ha a' ha' hrow
      rw [List.mem_singleton.mp ha'] at hrow
      obtain ⟨hc, hclosed⟩ := h.earlier hs hr hp ha hrow
      exact ⟨hc, hclosed.advance hr rfl rfl⟩

theorem Acknowledged.endTransaction {s : Outbox} (h : Acknowledged s) (r : Nat) :
    Acknowledged (s.endTransaction r) where
  open_batch := fun r' b hb => h.open_batch r' b (Slots.update_none_some hb).1
  row := h.row
  published := h.published
  once := by
    refine h.once.imp ?_
    intro a a' hall hrow
    obtain ⟨hc, hclosed⟩ := hall hrow
    exact ⟨hc, fun r' b hb => hclosed r' b (Slots.update_none_some hb).1⟩

/-- The commit publishes the rows the batch acknowledged, at the times of the
acknowledgements, and no others. -/
theorem Acknowledged.published_mark {s : Outbox} (h : Acknowledged s) (hs : Sound s) {r : Nat}
    {b : Batch} (hr : s.relays r = some b) {o : OutboxEvent} (ho : o ∈ s.rows) (t : Time) :
    (b.mark o).publishedAt = some t ↔
      ∃ a ∈ s.acks, a.row = o.id ∧ a.publishedAt = t ∧ (a.batch ∈ s.committed ∨ a.batch = b.number) := by
  rcases mark_publishedAt b o with ⟨p, hp, hid, hat⟩ | ⟨hnone, hat⟩
  · have hrow : p.1 ∈ b.rows := mem_rows.mpr (.inl ⟨p.2, hp⟩)
    rw [hat]
    constructor
    · intro ht
      obtain ⟨ha, hn⟩ := (h.open_batch r b hr (b.ack p)).mpr ⟨p, hp, rfl⟩
      exact ⟨b.ack p, ha, hid, Option.some.inj ht, .inr hn⟩
    · rintro ⟨a, ha, hrowa, rfl, hc | hn⟩
      · have hpub := (h.published o ho a.publishedAt).mpr ⟨a, ha, hrowa, rfl, hc⟩
        have hunp := (hs.held.row r b hr p.1 hrow).2.1
        rw [hs.row_of_batch hr hrow ho hid, hpub] at hunp
        cases hunp
      · obtain ⟨q, hq, rfl⟩ := (h.open_batch r b hr a).mp ⟨ha, hn⟩
        have hpq : p = q := hs.published_once hr hp hq (hid.trans hrowa.symm)
        rw [hpq]
        rfl
  · rw [hat, h.published o ho t]
    constructor
    · rintro ⟨a, ha, hrow, hta, hc⟩
      exact ⟨a, ha, hrow, hta, .inl hc⟩
    · rintro ⟨a, ha, hrow, hta, hc | hn⟩
      · exact ⟨a, ha, hrow, hta, hc⟩
      · obtain ⟨q, hq, rfl⟩ := (h.open_batch r b hr a).mp ⟨ha, hn⟩
        exact absurd hrow (hnone q hq)

theorem Acknowledged.written {s : Outbox} (h : Acknowledged s) (hs : Sound s) {r : Nat}
    {b : Batch} (hr : s.relays r = some b) : Acknowledged (s.written r b) := by
  have he := h.endTransaction r
  refine ⟨he.open_batch, ?_, ?_, ?_⟩
  · intro a ha
    obtain ⟨o, ho, hid, hmsg⟩ := h.row a ha
    exact ⟨b.mark o, List.mem_map_of_mem ho, (mark_id b o).trans hid, (mark_message b o).trans hmsg⟩
  · intro o' ho' t
    obtain ⟨o, ho, rfl⟩ := List.mem_map.mp ho'
    rw [h.published_mark hs hr ho t, mark_id]
    change _ ↔ ∃ a ∈ s.acks, a.row = o.id ∧ a.publishedAt = t ∧ a.batch ∈ s.committed ++ [b.number]
    simp only [List.mem_append, List.mem_singleton]
  · refine h.once.imp ?_
    intro a a' hall hrow
    obtain ⟨hc, hclosed⟩ := hall hrow
    refine ⟨?_, fun r' x hx => hclosed r' x (Slots.update_none_some hx).1⟩
    intro hmem
    rcases List.mem_append.mp hmem with hmem | hmem
    · exact hc hmem
    · exact hclosed r b hr (List.mem_singleton.mp hmem).symm

theorem Acknowledged.moves {s s' : Outbox} {a : RelayAction} (h : Acknowledged s) (hs : Sound s)
    (hm : Moves s a s') : Acknowledged s' := by
  cases hm with
  | insert _ hi => exact h.inserted hs hi
  | select _ _ => exact h.selected hs _ _
  | raised hr _ => exact h.raised hr
  | acked hr hp => exact h.acked hs hr hp
  | died hr hp => exact (h.acked hs hr hp).endTransaction _
  | written hr _ => exact h.written hs hr
  | ended _ _ => exact h.endTransaction _

/-! ## Failed sends -/

structure Failed (s : Outbox) : Prop where
  open_batch : ∀ r b, s.relays r = some b →
    ∀ f ∈ s.failures, f.batch = b.number → ∃ o ∈ b.failed, o.id = f.row
  row : ∀ f ∈ s.failures, ∃ o ∈ s.rows, o.id = f.row
  apart : ∀ a ∈ s.acks, ∀ f ∈ s.failures, a.batch = f.batch → a.row ≠ f.row

theorem failed_init : Failed Outbox.init where
  open_batch := fun _ _ h => nomatch h
  row := fun _ h => absurd h List.not_mem_nil
  apart := fun _ h => absurd h List.not_mem_nil

theorem Failed.selected {s : Outbox} (h : Failed s) (hs : Sound s) (r : Nat)
    (rows : List OutboxEvent) : Failed (s.selected r rows) where
  open_batch := by
    intro r' b hb f hf hn
    rcases Slots.update_some_cases hb with ⟨-, he⟩ | ⟨-, hb⟩
    · obtain rfl := Option.some.inj he
      have hlt := hs.numbered.failure_lt f hf
      rw [hn] at hlt
      exact absurd hlt (Nat.lt_irrefl _)
    · exact h.open_batch r' b hb f hf hn
  row := h.row
  apart := h.apart

theorem Failed.raised {s : Outbox} (h : Failed s) (hs : Sound s) (ha : Acknowledged s) {r : Nat}
    {b : Batch} {o : OutboxEvent} {rest : List OutboxEvent} (hr : s.relays r = some b)
    (hp : b.pending = o :: rest) : Failed (s.raised r b o rest) where
  open_batch := by
    intro r' x hx f hf hn
    rcases Slots.update_some_cases hx with ⟨rfl, he⟩ | ⟨hne, hx⟩
    · obtain rfl := Option.some.inj he
      rcases List.mem_append.mp hf with hf | hf
      · obtain ⟨y, hy, hid⟩ := h.open_batch r' b hr f hf hn
        exact ⟨y, List.mem_append_left _ hy, hid⟩
      · rw [List.mem_singleton.mp hf]
        exact ⟨o, List.mem_append_right _ (List.mem_singleton_self o), rfl⟩
    · rcases List.mem_append.mp hf with hf | hf
      · exact h.open_batch r' x hx f hf hn
      · rw [List.mem_singleton.mp hf] at hn
        exact absurd (hs.numbered.number_ne r' x r b hx hr hn.symm) hne
  row := by
    intro f hf
    rcases List.mem_append.mp hf with hf | hf
    · exact h.row f hf
    · rw [List.mem_singleton.mp hf]
      have hmem : o ∈ b.rows := mem_rows.mpr (.inr (.inr (hp ▸ List.mem_cons_self)))
      exact ⟨o, (hs.held.row r b hr o hmem).1, rfl⟩
  apart := by
    intro a hacked f hf hn
    rcases List.mem_append.mp hf with hf | hf
    · exact h.apart a hacked f hf hn
    · rw [List.mem_singleton.mp hf] at hn ⊢
      obtain ⟨p, hpub, rfl⟩ := (ha.open_batch r b hr a).mp ⟨hacked, hn⟩
      exact (hs.sending hr hp).1 p hpub

theorem Failed.acked {s : Outbox} (h : Failed s) (hs : Sound s) {r : Nat} {b : Batch}
    {o : OutboxEvent} {rest : List OutboxEvent} {now : Time} (hr : s.relays r = some b)
    (hp : b.pending = o :: rest) : Failed (s.acked r b o rest now) where
  open_batch := by
    intro r' x hx f hf hn
    rcases Slots.update_some_cases hx with ⟨rfl, he⟩ | ⟨-, hx⟩
    · obtain rfl := Option.some.inj he
      exact h.open_batch r' b hr f hf hn
    · exact h.open_batch r' x hx f hf hn
  row := h.row
  apart := by
    intro a ha f hf hn
    rcases List.mem_append.mp ha with ha | ha
    · exact h.apart a ha f hf hn
    · rw [List.mem_singleton.mp ha] at hn ⊢
      obtain ⟨x, hx, hid⟩ := h.open_batch r b hr f hf hn.symm
      rw [← hid]
      exact ((hs.sending hr hp).2 x hx).symm

theorem Failed.endTransaction {s : Outbox} (h : Failed s) (r : Nat) :
    Failed (s.endTransaction r) where
  open_batch := fun r' b hb => h.open_batch r' b (Slots.update_none_some hb).1
  row := h.row
  apart := h.apart

theorem Failed.moves {s s' : Outbox} {a : RelayAction} (h : Failed s) (hs : Sound s)
    (ha : Acknowledged s) (hm : Moves s a s') : Failed s' := by
  cases hm with
  | insert _ _ =>
    refine ⟨h.open_batch, ?_, h.apart⟩
    intro f hf
    obtain ⟨o, ho, hid⟩ := h.row f hf
    exact ⟨o, List.mem_append_left _ ho, hid⟩
  | select _ _ => exact h.selected hs _ _
  | raised hr hp => exact h.raised hs ha hr hp
  | acked hr hp => exact h.acked hs hr hp
  | died hr hp => exact (h.acked hs hr hp).endTransaction _
  | @written r b _ _ =>
    have he := h.endTransaction r
    refine ⟨he.open_batch, ?_, h.apart⟩
    intro f hf
    obtain ⟨o, ho, hid⟩ := h.row f hf
    exact ⟨b.mark o, List.mem_map_of_mem ho, (mark_id b o).trans hid⟩
  | ended _ _ => exact h.endTransaction _

/-! ## Inbound events -/

/-- An inbound event and the outbox row that names it have one `published_at`. -/
structure Stamped (s : Outbox) : Prop where
  same : ∀ o ∈ s.rows, ∀ e ∈ s.inboundEvents, publishes o = some e.id →
    e.publishedAt = o.publishedAt
  source : ∀ e ∈ s.inboundEvents, e.publishedAt ≠ none → ∃ o ∈ s.rows, publishes o = some e.id

theorem stamped_init : Stamped Outbox.init where
  same := fun _ h => absurd h List.not_mem_nil
  source := fun _ h => absurd h List.not_mem_nil

theorem Stamped.inserted {s : Outbox} (h : Stamped s) (hs : Sound s) {events : List OutboxEvent}
    {inbound : List InboundEvent} (hi : Inserts s events inbound) :
    Stamped (s.inserted events inbound) := by
  refine ⟨?_, ?_⟩
  · intro o ho e he hname
    -- the event an inbound row names is the one of its own insert
    have hevent : ∀ e' ∈ s.inboundEvents ++ inbound, publishes o = some e'.id → e = e' := by
      intro e' he' hname'
      exact Table.eq_of_unique hi.event_ids he he' (Option.some.inj (hname.symm.trans hname'))
    have hin : o.aggregateType = .inboundEvent := publishes_inbound (by simp [hname])
    rcases List.mem_append.mp ho with ho | ho
    · obtain ⟨e', he', hname'⟩ := hs.tables.named o ho hin
      obtain rfl := hevent e' (List.mem_append_left _ he') hname'
      exact h.same o ho e he' hname
    · obtain ⟨e', he', hname'⟩ := hi.named o ho hin
      obtain rfl := hevent e' (List.mem_append_right _ he') hname'
      rw [hi.event_unpublished e he', hi.unpublished o ho]
  · intro e he hne
    rcases List.mem_append.mp he with he | he
    · obtain ⟨o, ho, hname⟩ := h.source e he hne
      exact ⟨o, List.mem_append_left _ ho, hname⟩
    · exact absurd (hi.event_unpublished e he) hne

theorem Stamped.written {s : Outbox} (h : Stamped s) (hs : Sound s) {r : Nat} {b : Batch}
    (hr : s.relays r = some b) : Stamped (s.written r b) := by
  have hevents : (s.written r b).inboundEvents = s.inboundEvents.map b.stamp :=
    markInbound_eq_map b s.inboundEvents
  have hbatch : ∀ p ∈ b.published, p.1 ∈ s.rows := by
    intro p hp
    exact (hs.held.row r b hr p.1 (mem_rows.mpr (.inl ⟨p.2, hp⟩))).1
  refine ⟨?_, ?_⟩
  · intro o' ho' e' he' hname
    rw [hevents] at he'
    obtain ⟨o, ho, rfl⟩ := List.mem_map.mp ho'
    obtain ⟨e, he, rfl⟩ := List.mem_map.mp he'
    rw [mark_publishes, stamp_id] at hname
    rcases (stamp_spec b e).2 with ⟨p, hp, hnamep, hat⟩ | ⟨hnone, hkept⟩
    · -- the acknowledged row that names the event is this row
      have hpo : p.1 = o := by
        refine hs.tables.one_row p.1 (hbatch p hp) o ho ?_ (hnamep.trans hname.symm)
        simp [hnamep]
      rcases mark_publishedAt b o with ⟨q, hq, hid, hatq⟩ | ⟨hno, -⟩
      · have hpq : p = q := hs.published_once hr hp hq (by rw [hpo, hid])
        rw [hat, hatq, hpq]
      · exact absurd (by rw [hpo]) (hno p hp)
    · rw [hkept, h.same o ho e he hname]
      rcases mark_publishedAt b o with ⟨q, hq, hid, -⟩ | ⟨-, hat⟩
      · have hqo : q.1 = o := Table.eq_of_unique hs.tables.row_ids (hbatch q hq) ho hid
        exact absurd (hqo ▸ hname) (hnone q hq)
      · exact hat.symm
  · intro e' he' hne
    rw [hevents] at he'
    obtain ⟨e, he, rfl⟩ := List.mem_map.mp he'
    have hsource : ∃ o ∈ s.rows, publishes o = some e.id := by
      rcases (stamp_spec b e).2 with ⟨p, hp, hnamep, -⟩ | ⟨-, hkept⟩
      · exact ⟨p.1, hbatch p hp, hnamep⟩
      · rw [hkept] at hne
        exact h.source e he hne
    obtain ⟨o, ho, hname⟩ := hsource
    refine ⟨b.mark o, List.mem_map_of_mem ho, ?_⟩
    rw [mark_publishes, stamp_id]
    exact hname

theorem Stamped.moves {s s' : Outbox} {a : RelayAction} (h : Stamped s) (hs : Sound s)
    (hm : Moves s a s') : Stamped s' := by
  cases hm with
  | insert _ hi => exact h.inserted hs hi
  | select _ _ => exact ⟨h.1, h.2⟩
  | raised _ _ => exact ⟨h.1, h.2⟩
  | acked _ _ => exact ⟨h.1, h.2⟩
  | died _ _ => exact ⟨h.1, h.2⟩
  | written hr _ => exact h.written hs hr
  | ended _ _ => exact ⟨h.1, h.2⟩

/-! ## Whole runs -/

structure RelayInvariant (s : Outbox) : Prop where
  sound : Sound s
  acknowledged : Acknowledged s
  failed : Failed s
  stamped : Stamped s

theorem relayInvariant_init : RelayInvariant Outbox.init :=
  ⟨sound_init, acknowledged_init, failed_init, stamped_init⟩

theorem RelayInvariant.step {s s' : Outbox} {a : RelayAction} (h : RelayInvariant s)
    (hs : s.step a = some s') : RelayInvariant s' := by
  have hm := moves_of_step h.sound.tables.event_ids hs
  exact ⟨h.sound.moves hm, h.acknowledged.moves h.sound hm,
    h.failed.moves h.sound h.acknowledged hm, h.stamped.moves h.sound hm⟩

theorem relayInvariant_reachable {s : Outbox} (h : Reachable Outbox.step Outbox.init s) :
    RelayInvariant s :=
  h.invariant RelayInvariant (fun _ _ _ hi hs => hi.step hs) relayInvariant_init

/-- What the outbox promises. A batch that is closed and not committed never commits. -/
structure Safe (s : Outbox) : Prop where
  published_acknowledged : ∀ o ∈ s.rows, ∀ t, o.publishedAt = some t →
    ∃ a ∈ s.acks, a.row = o.id ∧ a.message = o.message ∧ a.publishedAt = t ∧ a.batch ∈ s.committed
  failed_unpublished : ∀ f ∈ s.failures, ∃ o ∈ s.rows, o.id = f.row ∧
    (o.publishedAt = none ∨
      ∃ a ∈ s.acks, a.row = f.row ∧ a.batch ≠ f.batch ∧ a.batch ∈ s.committed)
  unpublished_selectable : ∀ o ∈ s.rows, o.publishedAt = none →
    o ∈ s.selectable ∨ ∃ r b, s.relays r = some b ∧ o ∈ b.rows
  acknowledged_once : s.acks.Pairwise fun a a' =>
    a.row = a'.row → a.batch ∉ s.committed ∧ s.Closed a.batch
  inbound_published : ∀ o ∈ s.rows, o.aggregateType = .inboundEvent →
    ∃ e ∈ s.inboundEvents, eventId o.payload = some e.id ∧ e.publishedAt = o.publishedAt
  event_published : ∀ e ∈ s.inboundEvents, e.publishedAt ≠ none →
    ∃ o ∈ s.rows, o.aggregateType = .inboundEvent ∧ eventId o.payload = some e.id ∧
      o.publishedAt = e.publishedAt

theorem eventId_of_publishes {o : OutboxEvent} {i : Uuid} (h : publishes o = some i) :
    o.aggregateType = .inboundEvent ∧ eventId o.payload = some i := by
  have hin : o.aggregateType = .inboundEvent := publishes_inbound (by simp [h])
  unfold publishes at h
  rw [hin] at h
  exact ⟨hin, h⟩

theorem relay_safe {s : Outbox} (h : Reachable Outbox.step Outbox.init s) : Safe s := by
  obtain ⟨hs, ha, hf, hst⟩ := relayInvariant_reachable h
  have hpub : ∀ o ∈ s.rows, ∀ t, o.publishedAt = some t →
      ∃ a ∈ s.acks, a.row = o.id ∧ a.message = o.message ∧ a.publishedAt = t ∧
        a.batch ∈ s.committed := by
    intro o ho t ht
    obtain ⟨a, hacked, hrow, hat, hc⟩ := (ha.published o ho t).mp ht
    obtain ⟨o', ho', hid, hmsg⟩ := ha.row a hacked
    obtain rfl := Table.eq_of_unique hs.tables.row_ids ho' ho (hid.trans hrow)
    exact ⟨a, hacked, hrow, hmsg.symm, hat, hc⟩
  refine ⟨hpub, ?_, ?_, ha.once, ?_, ?_⟩
  · intro f hfail
    obtain ⟨o, ho, hid⟩ := hf.row f hfail
    refine ⟨o, ho, hid, ?_⟩
    cases hat : o.publishedAt with
    | none => exact .inl rfl
    | some t =>
      obtain ⟨a, hacked, hrow, -, -, hc⟩ := hpub o ho t hat
      have hrowf : a.row = f.row := hrow.trans hid
      exact .inr ⟨a, hacked, hrowf, fun hn => hf.apart a hacked f hfail hn hrowf, hc⟩
  · intro o ho hunp
    cases hl : s.locks o.id with
    | none => exact .inl (mem_selectable.mpr ⟨ho, hunp, hl⟩)
    | some r =>
      obtain ⟨b, hr, hin⟩ := hs.held.lock o.id r hl
      obtain ⟨x, hx, hid⟩ := List.mem_map.mp hin
      exact .inr ⟨r, b, hr, hs.row_of_batch hr hx ho hid ▸ hx⟩
  · intro o ho hin
    obtain ⟨e, he, hname⟩ := hs.tables.named o ho hin
    exact ⟨e, he, (eventId_of_publishes hname).2, hst.same o ho e he hname⟩
  · intro e he hne
    obtain ⟨o, ho, hname⟩ := hst.source e he hne
    obtain ⟨hin, hid⟩ := eventId_of_publishes hname
    exact ⟨o, ho, hin, hid, (hst.same o ho e he hname).symm⟩

def shop : Partner where
  id := 1
  publicId := 7
  slug := "shop"
  status := .active
  slaSeconds := 60
  rateLimitRps := 10
  autoReplayEnabled := false

def orderRequest : Inbound.IngestRequest where
  partner := shop
  idempotencyHeader := "order-1"
  eventType := "order.created"
  payload := ⟨"null"⟩
  correlationId := "corr"
  receivedAt := 1
  redis := true
  eventId := 11

def orderRow : DeliveryRow where
  aggregateId := 3
  topic := .outboundPending
  messageKey := 7
  payload := .outbound ⟨5, 7, 9, "order.created", 1, ⟨"null"⟩, "order-1", "corr", 3, 63⟩

/-- One batch: the inbound row is acknowledged, the send of the other row raises. -/
def mixedBatch : List RelayAction :=
  [.ingest orderRequest 2, .persist [orderRow] 3,
    .select 0 100 [orderRequest.outboxEvent 1 2, { orderRow.outboxEvent 3 with id := 2 }],
    .send 0 .acknowledged 4, .send 0 .raised 5, .commit 0]

/-- The state after a batch of one success and one failure. -/
theorem mixed_batch_safe :
    ∃ s, exec Outbox.step Outbox.init mixedBatch = some s ∧
      s.committed = [0] ∧ s.failures = [⟨0, 2⟩] ∧ s.acks.map (·.row) = [1] ∧ Safe s := by
  have hrun : (exec Outbox.step Outbox.init mixedBatch).map
      (fun s => (s.committed, s.failures, s.acks.map (·.row))) = some ([0], [⟨0, 2⟩], [1]) := by
    decide +kernel
  obtain ⟨s, hs, he⟩ := Option.map_eq_some_iff.mp hrun
  simp only [Prod.mk.injEq] at he
  exact ⟨s, hs, he.1, he.2.1, he.2.2, relay_safe ⟨_, hs⟩⟩

end PartnerHub.Relay
