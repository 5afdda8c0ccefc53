import PartnerHub.Lib.Table
import PartnerHub.Domain.Rules

/-!
# The hub database

`Tables` are the PostgreSQL tables of the outbound path, `Tables.Consistent` the
constraints the schema declares on them (UNIQUE, FOREIGN KEY, identity columns),
and `Db` a database on which they hold: every write below either keeps them or
fails with the constraint it would break, as an `IntegrityError` does.
-/
namespace PartnerHub.Outbound

open PartnerHub.Domain PartnerHub.Lib

structure Tables where
  partners : List Partner := []
  endpoints : List PartnerEndpoint := []
  schemas : List PayloadSchema := []
  deliveries : List Delivery := []
  attempts : List DeliveryAttempt := []
  deadLetters : List DeadLetter := []
  outbox : List OutboxEvent := []
  auditLogs : List AuditLog := []
  deliverySeq : Nat := 0
  outboxSeq : Nat := 0

inductive Constraint where
  | deliveriesPublicId
  | deliveriesPartnerKey
  | attemptsDeliveryNumber
  | deadLettersDelivery
  | foreignKey
  deriving DecidableEq, Repr

structure Tables.Consistent (t : Tables) : Prop where
  delivery_id : (t.deliveries.map (·.id)).Nodup
  delivery_publicId : (t.deliveries.map (·.publicId)).Nodup
  delivery_key : (t.deliveries.map fun d => (d.partnerId, d.idempotencyKey)).Nodup
  delivery_seq : ∀ d ∈ t.deliveries, d.id ≤ t.deliverySeq
  delivery_partner : ∀ d ∈ t.deliveries, ∃ p ∈ t.partners, p.id = d.partnerId
  delivery_endpoint : ∀ d ∈ t.deliveries, ∃ e ∈ t.endpoints, e.id = d.endpointId
  attempt_number : (t.attempts.map fun a => (a.deliveryId, a.attemptNumber)).Nodup
  attempt_delivery : ∀ a ∈ t.attempts, ∃ d ∈ t.deliveries, d.id = a.deliveryId
  deadLetter_unique : (t.deadLetters.map (·.deliveryId)).Nodup
  deadLetter_delivery : ∀ l ∈ t.deadLetters, ∃ d ∈ t.deliveries, d.id = l.deliveryId
  outbox_id : (t.outbox.map (·.id)).Nodup
  outbox_seq : ∀ o ∈ t.outbox, o.id ≤ t.outboxSeq

/-- A database whose declared constraints hold. -/
structure Db where
  tables : Tables
  consistent : tables.Consistent

theorem empty_consistent : Tables.Consistent {} := by
  constructor <;> simp

def Db.empty : Db := ⟨{}, empty_consistent⟩

/-- The delivery has a recorded attempt with this number. -/
def Tables.HasAttempt (t : Tables) (deliveryId number : Nat) : Prop :=
  ∃ a ∈ t.attempts, a.deliveryId = deliveryId ∧ a.attemptNumber = number

/-- The recorded attempts of a delivery, in the order of their insertion. -/
def Tables.attemptsOf (t : Tables) (deliveryId : Nat) : List DeliveryAttempt :=
  t.attempts.filter fun a => a.deliveryId = deliveryId

theorem mem_attemptsOf {t : Tables} {i : Nat} {a : DeliveryAttempt} :
    a ∈ t.attemptsOf i ↔ a ∈ t.attempts ∧ a.deliveryId = i := by
  simp [Tables.attemptsOf]

theorem hasAttempt_iff_mem {t : Tables} {i n : Nat} :
    t.HasAttempt i n ↔ ∃ a ∈ t.attemptsOf i, a.attemptNumber = n := by
  simp [Tables.HasAttempt, mem_attemptsOf, and_assoc]

def Tables.HasDeadLetter (t : Tables) (deliveryId : Nat) : Prop :=
  ∃ l ∈ t.deadLetters, l.deliveryId = deliveryId

instance (t : Tables) (i n : Nat) : Decidable (t.HasAttempt i n) :=
  inferInstanceAs (Decidable (∃ _ ∈ _, _))

instance (t : Tables) (i : Nat) : Decidable (t.HasDeadLetter i) :=
  inferInstanceAs (Decidable (∃ _ ∈ _, _))

/-- Column value after an UPDATE that carries only changed columns: a column the
session did not change keeps the value of the row, whatever the session had read. -/
def written {α : Type*} [DecidableEq α] (loaded mine row : α) : α :=
  if mine = loaded then row else mine

@[simp] theorem written_unchanged {α : Type*} [DecidableEq α] (loaded row : α) :
    written loaded loaded row = row := if_pos rfl

@[simp] theorem written_same {α : Type*} [DecidableEq α] (loaded mine : α) :
    written loaded mine loaded = mine := by
  unfold written
  split
  · exact Eq.symm ‹_›
  · rfl

/-- The UPDATE of `deliveries` a session emits for the row it loaded. The status
is always among the columns: a worker flushes DELIVERING when it reads the signing
secret, and a replay changes FAILED to REPLAYING. -/
def flushDelivery (loaded mine row : Delivery) : Delivery :=
  { row with
    status := mine.status
    attemptCount := written loaded.attemptCount mine.attemptCount row.attemptCount
    nextRetryAt := written loaded.nextRetryAt mine.nextRetryAt row.nextRetryAt
    firstSuccessAt := written loaded.firstSuccessAt mine.firstSuccessAt row.firstSuccessAt
    slaBreached := written loaded.slaBreached mine.slaBreached row.slaBreached
    lastErrorCode := written loaded.lastErrorCode mine.lastErrorCode row.lastErrorCode
    lastErrorMessage := written loaded.lastErrorMessage mine.lastErrorMessage row.lastErrorMessage }

/-- What a worker's session holds when it commits: the row as it was loaded, its
changed copy, and the rows it adds. -/
structure Session where
  loaded : Delivery
  delivery : Delivery
  attempt : Option DeliveryAttempt := none
  deadLetter : Option DeadLetter := none
  deriving DecidableEq

def attemptTexts (a : DeliveryAttempt) : List PyStr :=
  a.responseBody :: a.errorType.toList.map PyStr.ofString

/-- A column the session did not change is not in the UPDATE. -/
def changedText {α : Type*} [DecidableEq α] (loaded mine : Option α) : List α :=
  if mine = loaded then [] else mine.toList

/-- The texts a commit sends to PostgreSQL. -/
def Session.texts (s : Session) : List PyStr :=
  [(changedText s.loaded.lastErrorCode s.delivery.lastErrorCode).map PyStr.ofString,
    changedText s.loaded.lastErrorMessage s.delivery.lastErrorMessage,
    s.attempt.toList.flatMap attemptTexts,
    s.deadLetter.toList.map (·.lastErrorMessage)].flatten

/-- Every text the session writes is one PostgreSQL takes. -/
def Session.Storable (s : Session) : Prop := ∀ text ∈ s.texts, Domain.Storable text

/-- The new attempt repeats a number the delivery already has. -/
def Session.AttemptClash (s : Session) (t : Tables) : Prop :=
  ∃ a ∈ s.attempt, t.HasAttempt a.deliveryId a.attemptNumber

def Session.DeadLetterClash (s : Session) (t : Tables) : Prop :=
  ∃ l ∈ s.deadLetter, t.HasDeadLetter l.deliveryId

/-- Every row the session adds refers to a stored delivery. -/
def Session.References (s : Session) (t : Tables) : Prop :=
  (∀ a ∈ s.attempt, ∃ d ∈ t.deliveries, d.id = a.deliveryId) ∧
    ∀ l ∈ s.deadLetter, ∃ d ∈ t.deliveries, d.id = l.deliveryId

instance (s : Session) : Decidable s.Storable :=
  List.decidableBAll _ _

instance (s : Session) (t : Tables) : Decidable (s.AttemptClash t) :=
  inferInstanceAs (Decidable (∃ a ∈ s.attempt, t.HasAttempt a.deliveryId a.attemptNumber))

instance (s : Session) (t : Tables) : Decidable (s.DeadLetterClash t) :=
  inferInstanceAs (Decidable (∃ l ∈ s.deadLetter, t.HasDeadLetter l.deliveryId))

instance (s : Session) (t : Tables) : Decidable (s.References t) :=
  inferInstanceAs (Decidable (_ ∧ _))

/-- The UPDATE of one delivery, by primary key. -/
def Tables.flush (t : Tables) (loaded mine : Delivery) : Tables :=
  { t with deliveries := Table.modify (·.id) loaded.id (flushDelivery loaded mine) t.deliveries }

theorem mem_flush {t : Tables} {loaded mine d : Delivery} :
    d ∈ (t.flush loaded mine).deliveries ↔
      ∃ d₀ ∈ t.deliveries, d = if d₀.id = loaded.id then flushDelivery loaded mine d₀ else d₀ :=
  Table.mem_modify

/-- An UPDATE from a copy that is still current replaces exactly that row. -/
theorem mem_flush_current {t : Tables} (h : t.Consistent) {d mine d' : Delivery}
    (hd : d ∈ t.deliveries) (hm : flushDelivery d mine d = mine) :
    d' ∈ (t.flush d mine).deliveries ↔ d' = mine ∨ (d' ∈ t.deliveries ∧ d'.id ≠ d.id) := by
  rw [mem_flush]
  constructor
  · rintro ⟨d₀, hd₀, rfl⟩
    by_cases he : d₀.id = d.id
    · obtain rfl := Table.eq_of_unique h.delivery_id hd₀ hd he
      exact .inl (by rw [if_pos rfl, hm])
    · exact .inr ⟨by rwa [if_neg he], by rwa [if_neg he]⟩
  · rintro (rfl | ⟨hd', hne⟩)
    · exact ⟨d, hd, by rw [if_pos rfl, hm]⟩
    · exact ⟨d', hd', by rw [if_neg hne]⟩

/-- An UPDATE of a delivery writes no identity or owner column. -/
theorem flush_keys {t : Tables} {loaded mine d : Delivery}
    (h : d ∈ (t.flush loaded mine).deliveries) :
    ∃ d₀ ∈ t.deliveries, d.id = d₀.id ∧ d.publicId = d₀.publicId ∧ d.partnerId = d₀.partnerId ∧
      d.endpointId = d₀.endpointId := by
  obtain ⟨d₀, hd₀, rfl⟩ := mem_flush.mp h
  refine ⟨d₀, hd₀, ?_⟩
  split <;> exact ⟨rfl, rfl, rfl, rfl⟩

/-- An UPDATE of a delivery drops none. -/
theorem exists_publicId_flush {t : Tables} {loaded mine : Delivery} {i : Uuid}
    (h : ∃ d ∈ t.deliveries, d.publicId = i) :
    ∃ d ∈ (t.flush loaded mine).deliveries, d.publicId = i := by
  have hm := Table.map_modify Delivery.id loaded.id (flushDelivery loaded mine) Delivery.publicId
    t.deliveries fun _ => rfl
  rw [← List.mem_map] at h ⊢
  exact hm ▸ h

theorem flush_ids (t : Tables) (loaded mine : Delivery) :
    (t.flush loaded mine).deliveries.map (·.id) = t.deliveries.map (·.id) :=
  Table.map_modify _ _ _ _ _ fun _ => rfl

theorem exists_id_flush {t : Tables} {loaded mine : Delivery} {i : Nat} :
    (∃ d ∈ (t.flush loaded mine).deliveries, d.id = i) ↔ ∃ d ∈ t.deliveries, d.id = i := by
  rw [← List.mem_map, ← List.mem_map, flush_ids]

theorem Tables.Consistent.flush {t : Tables} (h : t.Consistent) (loaded mine : Delivery) :
    (t.flush loaded mine).Consistent where
  delivery_id := by rw [flush_ids]; exact h.delivery_id
  delivery_publicId := by
    have hm := Table.map_modify Delivery.id loaded.id (flushDelivery loaded mine)
      Delivery.publicId t.deliveries fun _ => rfl
    exact hm ▸ h.delivery_publicId
  delivery_key := by
    have hm := Table.map_modify Delivery.id loaded.id (flushDelivery loaded mine)
      (fun d => (d.partnerId, d.idempotencyKey)) t.deliveries fun _ => rfl
    exact hm ▸ h.delivery_key
  delivery_seq := by
    intro d hd
    obtain ⟨d₀, hd₀, hi, -⟩ := flush_keys hd
    exact hi ▸ h.delivery_seq d₀ hd₀
  delivery_partner := by
    intro d hd
    obtain ⟨d₀, hd₀, -, -, hp, -⟩ := flush_keys hd
    exact hp ▸ h.delivery_partner d₀ hd₀
  delivery_endpoint := by
    intro d hd
    obtain ⟨d₀, hd₀, -, -, -, he⟩ := flush_keys hd
    exact he ▸ h.delivery_endpoint d₀ hd₀
  attempt_number := h.attempt_number
  attempt_delivery := fun a ha => exists_id_flush.mpr (h.attempt_delivery a ha)
  deadLetter_unique := h.deadLetter_unique
  deadLetter_delivery := fun l hl => exists_id_flush.mpr (h.deadLetter_delivery l hl)
  outbox_id := h.outbox_id
  outbox_seq := h.outbox_seq

/-- The tables after a worker's commit. -/
def Tables.written (t : Tables) (s : Session) : Tables :=
  { t.flush s.loaded s.delivery with
    attempts := t.attempts ++ s.attempt.toList
    deadLetters := t.deadLetters ++ s.deadLetter.toList }

theorem Tables.Consistent.written {t : Tables} (h : t.Consistent) {s : Session}
    (hr : s.References t) (ha : ¬ s.AttemptClash t) (hd : ¬ s.DeadLetterClash t) :
    (t.written s).Consistent where
  __ := h.flush s.loaded s.delivery
  attempt_number := by
    simp only [Tables.written, List.map_append, List.nodup_append]
    refine ⟨h.attempt_number, by cases s.attempt <;> simp, ?_⟩
    intro x hx y hy he
    obtain ⟨a, hat, rfl⟩ := List.mem_map.mp hx
    obtain ⟨b, hb, rfl⟩ := List.mem_map.mp hy
    obtain ⟨hi, hn⟩ := Prod.mk.inj he
    exact ha ⟨b, Option.mem_toList.mp hb, a, hat, hi, hn⟩
  attempt_delivery := by
    intro a hat
    rcases List.mem_append.mp hat with hold | hnew
    · exact exists_id_flush.mpr (h.attempt_delivery a hold)
    · exact exists_id_flush.mpr (hr.1 a (Option.mem_toList.mp hnew))
  deadLetter_unique := by
    simp only [Tables.written, List.map_append, List.nodup_append]
    refine ⟨h.deadLetter_unique, by cases s.deadLetter <;> simp, ?_⟩
    intro x hx y hy he
    obtain ⟨l, hl, rfl⟩ := List.mem_map.mp hx
    obtain ⟨m, hm, rfl⟩ := List.mem_map.mp hy
    exact hd ⟨m, Option.mem_toList.mp hm, l, hl, he⟩
  deadLetter_delivery := by
    intro l hl
    rcases List.mem_append.mp hl with hold | hnew
    · exact exists_id_flush.mpr (h.deadLetter_delivery l hold)
    · exact exists_id_flush.mpr (hr.2 l (Option.mem_toList.mp hnew))

/-- Why a commit fails: a text that PostgreSQL refuses, or a constraint. -/
inductive CommitError where
  | dataError
  | integrity (constraint : Constraint)
  deriving DecidableEq, Repr

/-- `session.commit()` of a worker: all of its writes, or none of them and what refused
them. The texts are bound before a statement runs, and the UPDATE of `deliveries`, with the
error message a dead letter repeats, is the first one. -/
def Db.commit (db : Db) (s : Session) : Except CommitError Db :=
  if s.Storable then
    if hr : s.References db.tables then
      if ha : s.AttemptClash db.tables then .error (.integrity .attemptsDeliveryNumber)
      else if hd : s.DeadLetterClash db.tables then .error (.integrity .deadLettersDelivery)
      else .ok ⟨db.tables.written s, db.consistent.written hr ha hd⟩
    else .error (.integrity .foreignKey)
  else .error .dataError

theorem Db.ext {a b : Db} (h : a.tables = b.tables) : a = b := by
  cases a; cases b; cases h; rfl

theorem Db.commit_ok {db db' : Db} {s : Session} :
    db.commit s = .ok db' ↔ s.Storable ∧ s.References db.tables ∧ ¬ s.AttemptClash db.tables ∧
      ¬ s.DeadLetterClash db.tables ∧ db'.tables = db.tables.written s := by
  unfold Db.commit
  split_ifs with ht hr ha hd
  · simp [ha]
  · simp [hd]
  · simp only [Except.ok.injEq, ht, hr, ha, hd, not_false_eq_true, true_and]
    exact ⟨fun h => h ▸ rfl, fun h => Db.ext h.symm⟩
  · simp [hr]
  · simp [ht]

theorem Db.commit_succeeds {db : Db} {s : Session} (ht : s.Storable) (hr : s.References db.tables)
    (ha : ¬ s.AttemptClash db.tables) (hd : ¬ s.DeadLetterClash db.tables) :
    ∃ db', db.commit s = .ok db' :=
  ⟨⟨_, db.consistent.written hr ha hd⟩, Db.commit_ok.mpr ⟨ht, hr, ha, hd, rfl⟩⟩

theorem Db.commit_storable {db db' : Db} {s : Session} (h : db.commit s = .ok db') :
    s.Storable := (Db.commit_ok.mp h).1

/-- A commit that adds a second dead letter for a delivery fails. -/
theorem Db.commit_deadLetter_clash {db db' : Db} {s : Session} (h : s.DeadLetterClash db.tables) :
    db.commit s ≠ .ok db' := fun hc => (Db.commit_ok.mp hc).2.2.2.1 h

theorem Db.commit_attempt_clash {db : Db} {s : Session}
    (h : db.commit s = .error (.integrity .attemptsDeliveryNumber)) :
    s.AttemptClash db.tables := by
  unfold Db.commit at h
  split_ifs at h with ht hr ha hd
  · exact ha
  all_goals cases h

end PartnerHub.Outbound
