import PartnerHub.Relay.Safety

/-!
# The order in which one relay publishes

The partition key keeps the records of a partner in one partition, in the order in which
they are acknowledged. A single relay selects rows by creation time, but its loop goes on
after a send that raised: the partner's next row is then acknowledged first. Along a run the
order is kept exactly when no row is acknowledged while an earlier row of its key has failed
in the same batch.
-/
namespace PartnerHub.Relay

open PartnerHub.Domain PartnerHub.Lib PartnerHub.Lib.System

/-- The system with relay `r` alone. -/
def single (r : Nat) (s : Outbox) (a : RelayAction) : Option Outbox :=
  if a.relay = none ∨ a.relay = some r then s.step a else none

/-- Two rows of one key that were unpublished when a batch started are from then on
acknowledged in the order of their creation. -/
def Ordered (s : Outbox) : Prop :=
  ∀ start ∈ s.starts, ∀ x ∈ start.unpublished, ∀ y ∈ start.unpublished,
    x.messageKey = y.messageKey → x.createdAt < y.createdAt →
      ∀ i a, start.acks ≤ i → s.acks[i]? = some a → a.row = y.id →
        ∃ j a', j < i ∧ s.acks[j]? = some a' ∧ a'.row = x.id

/-- A row is acknowledged only if the earlier rows of its key whose sends raised in this
batch had been acknowledged before, in a batch that was rolled back. -/
def InOrder (s : Outbox) : RelayAction → Prop
  | .send r .acknowledged _ => ∀ b o rest, s.relays r = some b → b.pending = o :: rest →
      ∀ x ∈ b.failed, x.messageKey = o.messageKey → x.createdAt < o.createdAt →
        ∃ a ∈ s.acks, a.row = x.id
  | _ => True

/-! ## The selection -/

theorem pairwise_select (limit : Nat) (scan : List OutboxEvent) :
    (unpublishedOutboxSelect limit scan).Pairwise fun a b => a.createdAt ≤ b.createdAt := by
  have : Std.Total fun a b : OutboxEvent => a.createdAt ≤ b.createdAt :=
    ⟨fun a b => le_total a.createdAt b.createdAt⟩
  have : IsTrans OutboxEvent fun a b => a.createdAt ≤ b.createdAt :=
    ⟨fun _ _ _ h h' => le_trans h h'⟩
  exact (List.pairwise_insertionSort _ scan).sublist (List.take_sublist limit _)

/-- The limit cuts off later rows only. -/
theorem mem_select_of_lt {limit : Nat} {scan : List OutboxEvent} {x y : OutboxEvent}
    (hx : x ∈ scan) (hy : y ∈ unpublishedOutboxSelect limit scan)
    (hlt : x.createdAt < y.createdAt) : x ∈ unpublishedOutboxSelect limit scan := by
  have hsorted := pairwise_select scan.length scan
  unfold unpublishedOutboxSelect at hsorted hy ⊢
  rw [List.take_of_length_le (by rw [List.length_insertionSort])] at hsorted
  have hin : x ∈ scan.insertionSort fun a b => a.createdAt ≤ b.createdAt :=
    (List.mem_insertionSort _).mpr hx
  rw [← List.take_append_drop limit (scan.insertionSort _)] at hsorted hin
  rcases List.mem_append.mp hin with hin | hin
  · exact hin
  · have hle := (List.pairwise_append.mp hsorted).2.2 y hy x hin
    exact absurd hlt (not_lt.mpr hle)

/-! ## What one relay knows -/

/-- The row `x` of an earlier snapshot is still in the table. -/
def Outbox.Keeps (s : Outbox) (x : OutboxEvent) : Prop :=
  ∃ o ∈ s.rows, o.id = x.id ∧ o.messageKey = x.messageKey ∧ o.createdAt = x.createdAt

/-- A single relay's batch was cut from the unpublished rows: it is part of a snapshot, is
sent in the order of creation, and leaves out no earlier row of any snapshot. -/
structure Alone (r : Nat) (s : Outbox) : Prop where
  invariant : RelayInvariant s
  only : ∀ r' b, s.relays r' = some b → r' = r
  kept : ∀ start ∈ s.starts, ∀ x ∈ start.unpublished, s.Keeps x
  snapshot : ∀ b, s.relays r = some b →
    ∃ start ∈ s.starts, start.acks ≤ s.acks.length ∧ ∀ x ∈ b.rows, x ∈ start.unpublished
  sorted : ∀ b, s.relays r = some b →
    b.pending.Pairwise fun x y => x.createdAt ≤ y.createdAt
  complete : ∀ b, s.relays r = some b → ∀ start ∈ s.starts, ∀ x ∈ start.unpublished,
    ∀ o ∈ s.rows, o.id = x.id → o.publishedAt = none →
      ∀ y ∈ b.rows, o.createdAt < y.createdAt → o ∈ b.rows

theorem alone_init (r : Nat) : Alone r Outbox.init where
  invariant := relayInvariant_init
  only := fun _ _ h => nomatch h
  kept := fun _ h => absurd h List.not_mem_nil
  snapshot := fun _ h => nomatch h
  sorted := fun _ h => nomatch h
  complete := fun _ h => nomatch h

theorem Alone.inserted {r : Nat} {s : Outbox} (h : Alone r s) {events : List OutboxEvent}
    {inbound : List InboundEvent} (hinv : RelayInvariant (s.inserted events inbound)) :
    Alone r (s.inserted events inbound) where
  invariant := hinv
  only := h.only
  kept := by
    intro start hst x hx
    obtain ⟨o, ho, hsame⟩ := h.kept start hst x hx
    exact ⟨o, List.mem_append_left _ ho, hsame⟩
  snapshot := h.snapshot
  sorted := h.sorted
  complete := by
    intro b hb start hst x hx o ho hid hunp y hy hlt
    obtain ⟨o', ho', hid', -⟩ := h.kept start hst x hx
    obtain rfl := Table.eq_of_unique hinv.sound.tables.row_ids ho (List.mem_append_left _ ho')
      (hid.trans hid'.symm)
    exact h.complete b hb start hst x hx o ho' hid hunp y hy hlt

/-- With one relay and no open batch no row is locked. -/
theorem Alone.unlocked {r : Nat} {s : Outbox} (h : Alone r s) (hr : s.relays r = none) (i : Nat) :
    s.locks i = none := by
  cases hl : s.locks i with
  | none => rfl
  | some r' =>
    obtain ⟨b, hb, -⟩ := h.invariant.sound.held.lock i r' hl
    rw [h.only r' b hb, hr] at hb
    cases hb

theorem Alone.selected {r limit : Nat} {s : Outbox} (h : Alone r s) {scan : List OutboxEvent}
    (hr : s.relays r = none) (hscan : scan.Perm s.selectable)
    (hinv : RelayInvariant (s.selected r (unpublishedOutboxSelect limit scan))) :
    Alone r (s.selected r (unpublishedOutboxSelect limit scan)) := by
  have hbatch : ∀ b, (s.selected r (unpublishedOutboxSelect limit scan)).relays r = some b →
      b.rows = unpublishedOutboxSelect limit scan ∧
        b.pending = unpublishedOutboxSelect limit scan := by
    intro b hb
    rcases Slots.update_some_cases hb with ⟨-, he⟩ | ⟨hne, -⟩
    · obtain rfl := Option.some.inj he
      exact ⟨rfl, rfl⟩
    · exact absurd rfl hne
  refine ⟨hinv, ?_, ?_, ?_, ?_, ?_⟩
  · intro r' b hb
    rcases Slots.update_some_cases hb with ⟨rfl, -⟩ | ⟨-, hb⟩
    · rfl
    · exact h.only r' b hb
  · intro start hst x hx
    rcases List.mem_append.mp hst with hst | hst
    · exact h.kept start hst x hx
    · rw [List.mem_singleton.mp hst] at hx
      exact ⟨x, (List.mem_filter.mp hx).1, rfl, rfl, rfl⟩
  · intro b hb
    rw [(hbatch b hb).1]
    refine ⟨_, List.mem_append_right _ (List.mem_singleton_self _), le_refl _, ?_⟩
    intro x hx
    obtain ⟨hrow, hunp, -⟩ := mem_selectable.mp (mem_select hscan hx)
    exact List.mem_filter.mpr ⟨hrow, by simpa using hunp⟩
  · intro b hb
    rw [(hbatch b hb).2]
    exact pairwise_select limit scan
  · intro b hb start _ x _ o ho _ hunp y hy hlt
    rw [(hbatch b hb).1] at hy ⊢
    have hsel : o ∈ s.selectable := mem_selectable.mpr ⟨ho, hunp, h.unlocked hr o.id⟩
    exact mem_select_of_lt (hscan.mem_iff.mpr hsel) hy hlt

/-- The loop goes on with the rest of the batch. -/
theorem Alone.advance {r : Nat} {s t : Outbox} (h : Alone r s) {b b' : Batch} {o : OutboxEvent}
    (hr : s.relays r = some b) (hp : b.pending = o :: b'.pending) (hinv : RelayInvariant t)
    (ht : t.relays = Function.update s.relays r (some b')) (hrows : t.rows = s.rows)
    (hstarts : t.starts = s.starts) (hacks : s.acks.length ≤ t.acks.length)
    (hperm : b'.rows.Perm b.rows) : Alone r t := by
  have hbatch : ∀ x, t.relays r = some x → x = b' := by
    intro x hx
    rw [ht, Function.update_self] at hx
    exact (Option.some.inj hx).symm
  refine ⟨hinv, ?_, ?_, ?_, ?_, ?_⟩
  · intro r' x hx
    rw [ht] at hx
    rcases Slots.update_some_cases hx with ⟨rfl, -⟩ | ⟨-, hx⟩
    · rfl
    · exact h.only r' x hx
  · intro start hst x hx
    rw [hstarts] at hst
    unfold Outbox.Keeps
    rw [hrows]
    exact h.kept start hst x hx
  · intro x hx
    obtain ⟨start, hst, hle, hin⟩ := h.snapshot b hr
    rw [hbatch x hx, hstarts]
    exact ⟨start, hst, hle.trans hacks, fun y hy => hin y (hperm.mem_iff.mp hy)⟩
  · intro x hx
    rw [hbatch x hx]
    have hsorted := h.sorted b hr
    rw [hp] at hsorted
    exact hsorted.of_cons
  · intro x hx start hst y hy z hz hid hunp w hw hlt
    rw [hbatch x hx] at hw ⊢
    rw [hstarts] at hst
    rw [hrows] at hz
    exact hperm.mem_iff.mpr (h.complete b hr start hst y hy z hz hid hunp w (hperm.mem_iff.mp hw) hlt)

/-- Between two batches only the snapshots matter. -/
theorem Alone.ended {r : Nat} {s t : Outbox} (h : Alone r s) (hinv : RelayInvariant t)
    (ht : t.relays = Function.update s.relays r none) (hstarts : t.starts = s.starts)
    (hkeep : ∀ x, s.Keeps x → t.Keeps x) : Alone r t := by
  have hnone : ∀ r' b, t.relays r' ≠ some b := by
    intro r' b hb
    rw [ht] at hb
    obtain ⟨hb, hne⟩ := Slots.update_none_some hb
    exact hne (h.only r' b hb)
  refine ⟨hinv, fun r' b hb => absurd hb (hnone r' b), ?_, fun b hb => absurd hb (hnone r b),
    fun b hb => absurd hb (hnone r b), fun b hb => absurd hb (hnone r b)⟩
  intro start hst x hx
  rw [hstarts] at hst
  exact hkeep x (h.kept start hst x hx)

theorem moves_of_single {r : Nat} {s s' : Outbox} {a : RelayAction} (h : RelayInvariant s)
    (hs : single r s a = some s') :
    Moves s a s' ∧ RelayInvariant s' ∧ (a.relay = none ∨ a.relay = some r) := by
  unfold single at hs
  split at hs
  · rename_i ha
    exact ⟨moves_of_step h.sound.tables.event_ids hs, h.step hs, ha⟩
  · cases hs

theorem Outbox.Keeps.written {s : Outbox} {x : OutboxEvent} (h : s.Keeps x) (r : Nat) (b : Batch) :
    (s.written r b).Keeps x := by
  obtain ⟨o, ho, hid, hkey, hat⟩ := h
  have hmsg : (b.mark o).messageKey = o.messageKey := congrArg Message.key (mark_message b o)
  refine ⟨b.mark o, List.mem_map_of_mem ho, (mark_id b o).trans hid, hmsg.trans hkey, ?_⟩
  exact (mark_createdAt b o).trans hat

theorem Alone.step {r : Nat} {s s' : Outbox} {a : RelayAction} (h : Alone r s)
    (hs : single r s a = some s') : Alone r s' := by
  obtain ⟨hm, hinv, hrelay⟩ := moves_of_single h.invariant hs
  cases hm with
  | insert _ _ => exact h.inserted hinv
  | select hr hscan =>
    obtain rfl := Option.some.inj (hrelay.resolve_left nofun)
    exact h.selected hr hscan hinv
  | raised hr hp =>
    obtain rfl := Option.some.inj (hrelay.resolve_left nofun)
    exact h.advance hr hp hinv rfl rfl rfl le_rfl (List.Perm.of_eq (rows_raised hp))
  | acked hr hp =>
    obtain rfl := Option.some.inj (hrelay.resolve_left nofun)
    refine h.advance hr hp hinv rfl rfl rfl ?_ (perm_acked hp)
    exact (List.sublist_append_left _ _).length_le
  | died hr hp =>
    obtain rfl := Option.some.inj (hrelay.resolve_left nofun)
    exact h.ended hinv (Function.update_idem _ _ _) rfl fun _ hx => hx
  | written hr hp =>
    obtain rfl := Option.some.inj (hrelay.resolve_left nofun)
    exact h.ended hinv rfl rfl fun _ hx => hx.written _ _
  | ended ha hr =>
    have hr' := h.only _ _ hr
    subst hr'
    exact h.ended hinv rfl rfl fun _ hx => hx

/-! ## Acknowledgements in order -/

theorem acked_before {acks : List Ack} {row i : Nat} (hi : i = acks.length) :
    (∃ j a, j < i ∧ acks[j]? = some a ∧ a.row = row) ↔ ∃ a ∈ acks, a.row = row := by
  constructor
  · rintro ⟨j, a, -, ha, hrow⟩
    exact ⟨a, List.mem_of_getElem? ha, hrow⟩
  · rintro ⟨a, ha, hrow⟩
    obtain ⟨j, hj, rfl⟩ := List.mem_iff_getElem.mp ha
    exact ⟨j, acks[j], hi ▸ hj, List.getElem?_eq_getElem hj, hrow⟩

/-- An earlier row of the key is acknowledged already or has failed in this batch. -/
theorem Alone.earlier {r : Nat} {s : Outbox} (h : Alone r s) {b : Batch} {o : OutboxEvent}
    {rest : List OutboxEvent} (hr : s.relays r = some b) (hp : b.pending = o :: rest)
    {start : BatchStart} (hst : start ∈ s.starts) {x : OutboxEvent} (hx : x ∈ start.unpublished)
    {z : OutboxEvent} (hz : z ∈ s.rows) (hid : z.id = x.id) (hlt : z.createdAt < o.createdAt) :
    (∃ a ∈ s.acks, a.row = z.id) ∨ z ∈ b.failed := by
  cases hat : z.publishedAt with
  | some t =>
    obtain ⟨a, ha, hrow, -⟩ := (h.invariant.acknowledged.published z hz t).mp hat
    exact .inl ⟨a, ha, hrow⟩
  | none =>
    have ho : o ∈ b.rows := mem_rows.mpr (.inr (.inr (hp ▸ List.mem_cons_self)))
    rcases mem_rows.mp (h.complete b hr start hst x hx z hz hid hat o ho hlt) with
      ⟨t, hpub⟩ | hfail | hpend
    · have hack := (h.invariant.acknowledged.open_batch r b hr (b.ack (z, t))).mpr ⟨_, hpub, rfl⟩
      exact .inl ⟨b.ack (z, t), hack.1, rfl⟩
    · exact .inr hfail
    · have hsorted := h.sorted b hr
      rw [hp] at hsorted hpend
      rcases List.mem_cons.mp hpend with rfl | hpend
      · exact absurd hlt (lt_irrefl _)
      · exact absurd hlt (not_lt.mpr (List.rel_of_pairwise_cons hsorted hpend))

/-- One more acknowledgement keeps the order exactly when no earlier row of the key has
failed in the batch without an acknowledgement. -/
theorem ordered_acked_iff {r : Nat} {s t : Outbox} (h : Alone r s) (ho : Ordered s) {b : Batch}
    {o : OutboxEvent} {rest : List OutboxEvent} {now : Time} (hr : s.relays r = some b)
    (hp : b.pending = o :: rest) (hstarts : t.starts = s.starts)
    (hacks : t.acks = s.acks ++ [b.ack (o, now)]) :
    Ordered t ↔ ∀ x ∈ b.failed, x.messageKey = o.messageKey → x.createdAt < o.createdAt →
      ∃ a ∈ s.acks, a.row = x.id := by
  have hrow : o ∈ b.rows := mem_rows.mpr (.inr (.inr (hp ▸ List.mem_cons_self)))
  have hin := (h.invariant.sound.held.row r b hr o hrow).1
  have hlen : t.acks[s.acks.length]? = some (b.ack (o, now)) := by
    rw [hacks, List.getElem?_append_right le_rfl, Nat.sub_self]
    rfl
  have hold : ∀ j, j < s.acks.length → t.acks[j]? = s.acks[j]? := by
    intro j hj
    rw [hacks, List.getElem?_append_left hj]
  constructor
  · intro hord x hx hkey hlt
    obtain ⟨start, hst, hle, hsnap⟩ := h.snapshot b hr
    have hxs := hsnap x (mem_rows.mpr (.inr (.inl hx)))
    obtain ⟨j, a, hj, ha, hrowa⟩ := hord start (hstarts ▸ hst) x hxs o (hsnap o hrow) hkey hlt
      s.acks.length _ hle hlen rfl
    rw [hold j hj] at ha
    exact ⟨a, List.mem_of_getElem? ha, hrowa⟩
  · intro hfail start hst x hx y hy hkey hlt i a hle ha hrowa
    rw [hstarts] at hst
    rcases Nat.lt_or_ge i s.acks.length with hi | hi
    · rw [hold i hi] at ha
      obtain ⟨j, a', hj, ha', hrow'⟩ := ho start hst x hx y hy hkey hlt i a hle ha hrowa
      exact ⟨j, a', hj, (hold j (hj.trans hi)).trans ha', hrow'⟩
    · -- the acknowledgement of this step
      have hlt' : i < t.acks.length := (List.getElem?_eq_some_iff.mp ha).1
      have hilen : i = s.acks.length := by
        rw [hacks, List.length_append, List.length_singleton] at hlt'
        omega
      rw [hilen, hlen] at ha
      obtain rfl := Option.some.inj ha
      obtain ⟨z, hz, hzid, hzkey, hzat⟩ := h.kept start hst x hx
      obtain ⟨w, hw, hwid, hwkey, hwat⟩ := h.kept start hst y hy
      have hwo : w = o := Table.eq_of_unique h.invariant.sound.tables.row_ids hw hin
        (hwid.trans hrowa.symm)
      subst hwo
      have hzlt : z.createdAt < w.createdAt := by rwa [hzat, hwat]
      have hacked : ∃ a ∈ s.acks, a.row = x.id := by
        rw [← hzid]
        rcases h.earlier hr hp hst hx hz hzid hzlt with hack | hzf
        · exact hack
        · exact hfail z hzf (by rw [hzkey, hwkey, hkey]) hzlt
      obtain ⟨j, a', hj, ha', hrow'⟩ := (acked_before rfl).mpr hacked
      exact ⟨j, a', hilen ▸ hj, (hold j hj).trans ha', hrow'⟩

theorem ordered_single_iff {r : Nat} {s s' : Outbox} {a : RelayAction} (h : Alone r s)
    (ho : Ordered s) (hs : single r s a = some s') : Ordered s' ↔ InOrder s a := by
  obtain ⟨hm, -, hrelay⟩ := moves_of_single h.invariant hs
  -- an acknowledgement is judged by its batch alone
  have hjudge : ∀ {r' : Nat} {b : Batch} {o : OutboxEvent} {rest : List OutboxEvent} {now : Time},
      s.relays r' = some b → b.pending = o :: rest →
        ((∀ x ∈ b.failed, x.messageKey = o.messageKey → x.createdAt < o.createdAt →
          ∃ a ∈ s.acks, a.row = x.id) ↔ InOrder s (.send r' .acknowledged now)) := by
    intro r' b o rest now hr hp
    constructor
    · intro hall b' o' rest' hr' hp'
      obtain rfl := Option.some.inj (hr.symm.trans hr')
      obtain ⟨rfl, -⟩ := List.cons.inj (hp.symm.trans hp')
      exact hall
    · intro hall
      exact hall b o rest hr hp
  cases hm with
  | insert ha _ =>
    refine iff_of_true ho ?_
    cases a <;> trivial
  | select hr hscan =>
    refine iff_of_true ?_ trivial
    intro start hst x hx y hy hkey hlt i a hle hai hrow
    rcases List.mem_append.mp hst with hst | hst
    · exact ho start hst x hx y hy hkey hlt i a hle hai hrow
    · rw [List.mem_singleton.mp hst] at hle
      have hi := (List.getElem?_eq_some_iff.mp hai).1
      exact absurd hi (Nat.not_lt.mpr hle)
  | raised hr hp => exact iff_of_true ho trivial
  | @acked r' b o rest now hr hp =>
    obtain rfl := Option.some.inj (hrelay.resolve_left nofun)
    have hiff := ordered_acked_iff (t := s.acked r' b o rest now) h ho hr hp rfl rfl
    exact hiff.trans (hjudge hr hp)
  | @died r' b o rest now hr hp =>
    obtain rfl := Option.some.inj (hrelay.resolve_left nofun)
    have hiff := ordered_acked_iff (t := (s.acked r' b o rest now).endTransaction r') h ho hr hp
      rfl rfl
    exact hiff.trans (hjudge hr hp)
  | written hr hp => exact iff_of_true ho trivial
  | ended ha hr =>
    refine iff_of_true ho ?_
    rcases ha with rfl | rfl <;> trivial

theorem inOrder_of_disabled {r : Nat} {s : Outbox} {a : RelayAction} (h : Alone r s)
    (hs : single r s a = none) : InOrder s a := by
  match a with
  | .send r' .acknowledged now =>
    intro b o rest hr hp
    have hstep : single r s (.send r' .acknowledged now) ≠ none := by
      simp [single, RelayAction.relay, h.only r' b hr, Outbox.step, h.only r' b hr ▸ hr, hp]
    exact absurd hs hstep
  | .send r' .raised now => trivial
  | .ingest _ _ => trivial
  | .persist _ _ => trivial
  | .select _ _ _ => trivial
  | .commit _ => trivial
  | .crash _ => trivial

theorem ordered_init : Ordered Outbox.init :=
  fun _ h => absurd h List.not_mem_nil

/-- A single relay keeps the order of creation for each key throughout a run exactly when it
never acknowledges a row after an earlier row of the key has failed in the same batch. -/
theorem publish_order_iff (r : Nat) (as : List RelayAction) :
    Throughout (single r) Ordered Outbox.init as ↔ Along (single r) InOrder Outbox.init as :=
  throughout_iff_along (I := Alone r) (fun _ _ _ h _ hs => h.step hs)
    (fun _ _ _ h ho hs => ordered_single_iff h ho hs) (fun _ _ h _ hs => inOrder_of_disabled h hs)
    (alone_init r) ordered_init

def updateRow : DeliveryRow where
  aggregateId := 4
  topic := .outboundPending
  messageKey := 7
  payload := .outbound ⟨6, 7, 9, "order.updated", 1, ⟨"null"⟩, "order-2", "corr", 4, 64⟩

/-- The send of `order.created` raises, then `order.updated` is acknowledged. -/
def overtaken : List RelayAction :=
  [.persist [orderRow] 3, .persist [updateRow] 4,
    .select 0 100 [{ orderRow.outboxEvent 3 with id := 1 }, { updateRow.outboxEvent 4 with id := 2 }],
    .send 0 .raised 5, .send 0 .acknowledged 6]

theorem later_row_published_first :
    ¬ ∀ (r : Nat) (as : List RelayAction), Throughout (single r) Ordered Outbox.init as := by
  intro hall
  have hrun : (exec (single 0) Outbox.init overtaken).map (fun s => (s.starts, s.acks.map (·.row))) =
      some ([⟨[{ orderRow.outboxEvent 3 with id := 1 }, { updateRow.outboxEvent 4 with id := 2 }], 0⟩],
        [2]) := by
    decide +kernel
  obtain ⟨s, hs, he⟩ := Option.map_eq_some_iff.mp hrun
  obtain ⟨hstarts, hacks⟩ := Prod.mk.inj he
  have hord : Ordered s := (hall 0 overtaken).last hs
  obtain ⟨a, ha⟩ : ∃ a, s.acks = [a] := by
    cases hl : s.acks with
    | nil => simp [hl] at hacks
    | cons a rest => cases rest <;> simp_all
  have hrow : a.row = 2 := by simpa [ha] using hacks
  obtain ⟨j, a', hj, -⟩ := hord _ (hstarts ▸ List.mem_singleton_self _) _ List.mem_cons_self _
    (List.mem_cons_of_mem _ (List.mem_singleton_self _)) (by decide) (by decide +kernel) 0 a le_rfl
    (by rw [ha]; rfl) hrow
  exact absurd hj (Nat.not_lt_zero j)

end PartnerHub.Relay
