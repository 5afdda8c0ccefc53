import PartnerHub.Outbound.Operations

/-!
# Attempt numbers across replays

An attempt is numbered `attempt_count + 1`, but only a retryable answer bumps the
counter and a replay may clear it. The recorded numbers stay below the next one
exactly in those runs whose replays find them there.
-/
namespace PartnerHub.Outbound

open PartnerHub.Domain PartnerHub.Lib PartnerHub.Lib.System

/-- Every recorded attempt of the delivery is numbered below the one the next
execution would insert. -/
def CounterCovers (t : Tables) (d : Delivery) : Prop :=
  ∀ a ∈ t.attempts, a.deliveryId = d.id → a.attemptNumber < d.attemptCount + 1

def NumbersBelow (t : Tables) : Prop :=
  ∀ d ∈ t.deliveries, d.status.Open → CounterCovers t d

/-- The freshness of attempt numbers: none is taken, and no execution of
`process_outbound_message` fails on UNIQUE (delivery_id, attempt_number). -/
def AttemptsFresh (settings : Settings) (db : Db) : Prop :=
  NumbersBelow db.tables ∧ ∀ i input,
    db.processOutboundMessage settings i input ≠ .error (.commit (.integrity .attemptsDeliveryNumber))

/-- The condition on a replay: the counter it leaves is not below a recorded
attempt number. Without a reset this fails after a poison answer, whose attempt
the counter does not include; with a reset it fails as soon as there is an attempt. -/
def ReplayKeepsNumbers (db : Db) : Op → Prop
  | .replay i req => ∀ d ∈ db.tables.deliveries, d.publicId = i → d.status = .failed →
      ∀ a ∈ db.tables.attempts, a.deliveryId = d.id →
        a.attemptNumber ≤ if req.resetAttemptCounter then 0 else d.attemptCount
  | _ => True

/-- A counter that covers the recorded numbers leaves the next one free. -/
theorem Decided.no_attempt_clash {ctx : Context} {input : ProcessInput} {s : Session}
    {pub : Option Message} (hdec : Decided ctx input s pub) {t : Tables}
    (h : CounterCovers t ctx.delivery) : ¬ s.AttemptClash t := by
  rintro ⟨a, ha, b, hb, hid, hnum⟩
  have hn := hdec.numbers ha
  have hlt := h b hb (hid.trans hn.delivery)
  rw [hnum, hn.number] at hlt
  exact lt_irrefl _ hlt

theorem no_clash_of_below {settings : Settings} {db : Db} (h : NumbersBelow db.tables) (i : Uuid)
    (input : ProcessInput) :
    db.processOutboundMessage settings i input ≠ .error (.commit (.integrity .attemptsDeliveryNumber)) := by
  intro he
  obtain ⟨ctx, s, pub, hp, hc⟩ := processMessage_commit_error he
  obtain ⟨hmem, -⟩ := fetchContext_some hp.found
  exact hp.decided.no_attempt_clash (h ctx.delivery hmem hp.isOpen) (Db.commit_attempt_clash hc)

theorem fresh_iff_below {settings : Settings} {db : Db} :
    AttemptsFresh settings db ↔ NumbersBelow db.tables :=
  ⟨fun h => h.1, fun h => ⟨h, no_clash_of_below h⟩⟩

/-- An execution keeps the counter of an open delivery above its attempts: the
delivery it works on leaves the open statuses, or its new counter covers the attempt
it records. -/
theorem covers_processed {settings : Settings} {db db' : Db} {i : Uuid} {input : ProcessInput}
    {ctx : Context} {s : Session} {pub : Option Message}
    (hp : Processes settings db i input ctx s pub) (hc : db.commit s = .ok db') {d : Delivery}
    (hd : d ∈ db'.tables.deliveries) (ho : d.status.Open)
    (h : ∀ d₀ ∈ db.tables.deliveries, d₀.publicId = d.publicId → d₀.status.Open →
      CounterCovers db.tables d₀) : CounterCovers db'.tables d := by
  intro a ha hid
  rw [processed_attempts hc] at ha
  obtain ⟨hmem, -⟩ := fetchContext_some hp.found
  rcases (processed_mem hp hc).mp hd with rfl | ⟨hold, hne⟩
  · obtain ⟨hsid, hspub⟩ := hp.decided.id_eq
    rcases List.mem_append.mp ha with hin | hnew
    · have hlt := h ctx.delivery hmem hspub.symm hp.isOpen a hin (hid.trans hsid)
      have hle := hp.decided.counter_le
      omega
    · exact hp.decided.number_lt ho (Option.mem_toList.mp hnew)
  · rcases List.mem_append.mp ha with hin | hnew
    · exact h d hold rfl ho a hin hid
    · have hn := hp.decided.numbers (Option.mem_toList.mp hnew)
      exact absurd (hid.symm.trans hn.delivery) hne

/-- A new delivery has no attempts yet. -/
theorem below_accepted {db : Db} {partner : Partner} {endpoints : List PartnerEndpoint}
    {req : EnqueueRequest} {rows : List Delivery} {events : List OutboxEvent}
    (h : NumbersBelow db.tables) (ha : Accepts db.tables partner endpoints req rows events) :
    NumbersBelow (db.tables.inserted rows events) := by
  intro d hd ho a hat hid
  rcases List.mem_append.mp hd with hold | hnew
  · exact h d hold ho a hat hid
  · exact absurd hid (ha.no_attempt hnew hat)

/-- A replay keeps the numbers below exactly when its counter covers the numbers of
the delivery it reopens. -/
theorem below_replayed {db : Db} {i : Uuid} {req : ReplayRequest} {loaded : Delivery}
    {s : ReplaySession} (h : NumbersBelow db.tables) (hl : loaded ∈ db.tables.deliveries)
    (hi : loaded.publicId = i) (hr : Replays loaded req s) :
    NumbersBelow (db.commitReplay s).tables ↔ ReplayKeepsNumbers db (.replay i req) := by
  constructor
  · intro hb d hd hpub hf a ha hid
    obtain rfl := Table.eq_of_unique db.consistent.delivery_publicId hd hl (hpub.trans hi.symm)
    have hmem := (replayed_mem hl hr).mpr (.inl rfl)
    have hlt := hb s.delivery hmem (by simp [hr.delivery_eq])
      a ha (by rw [hr.delivery_eq]; exact hid)
    rw [hr.delivery_eq] at hlt
    exact Nat.le_of_lt_succ hlt
  · intro hk d hd ho a ha hid
    rcases (replayed_mem hl hr).mp hd with rfl | ⟨hold, -⟩
    · rw [hr.delivery_eq] at hid ⊢
      exact Nat.lt_succ_of_le (hk loaded hl hi hr.failed a ha hid)
    · exact h d hold ho a ha hid

theorem below_of_frame {t t' : Tables} (h : NumbersBelow t) (hd : t'.deliveries = t.deliveries)
    (ha : t'.attempts = t.attempts) : NumbersBelow t' := by
  intro d hmem ho a hat hid
  rw [hd] at hmem
  rw [ha] at hat
  exact h d hmem ho a hat hid

theorem below_change {settings : Settings} {db db' : Db} {op : Op}
    (hch : Change settings db op db') (h : NumbersBelow db.tables)
    (hop : ReplayKeepsNumbers db op) : NumbersBelow db'.tables := by
  cases hch with
  | keep => exact h
  | admin partners endpoints he => exact below_of_frame h (by rw [he]) (by rw [he])
  | accepted ha he => exact he ▸ below_accepted h ha
  | processed hp hc => exact fun d hd ho => covers_processed hp hc hd ho fun d₀ hd₀ _ => h d₀ hd₀
  | replayed hl hi hr => exact (below_replayed h hl hi hr).mpr hop
  | deadLetter hw => exact below_of_frame h (by rw [hw.frame]) (by rw [hw.frame])

/-- One operation keeps the numbers below exactly when it meets the condition. -/
theorem below_apply {settings : Settings} {db : Db} (h : NumbersBelow db.tables) (op : Op) :
    NumbersBelow (db.apply settings op).tables ↔ ReplayKeepsNumbers db op := by
  refine ⟨?_, below_change (apply_change settings db op) h⟩
  intro hb
  cases op with
  | replay i req =>
    intro d hd hi hf
    subst hi
    obtain ⟨s, hr, he⟩ := apply_replay_failed settings req hd hf
    rw [he] at hb
    exact (below_replayed h hd rfl hr).mp hb d hd rfl hf
  | _ => trivial

/-- Over complete operations from an empty database, attempt numbers are fresh in
every state exactly when no replay leaves the counter below a recorded number. -/
theorem attempts_fresh_iff (settings : Settings) (ops : List Op) :
    Throughout (Db.step settings) (AttemptsFresh settings) Db.empty ops ↔
      Along (Db.step settings) ReplayKeepsNumbers Db.empty ops := by
  apply throughout_iff_along (I := fun _ => True)
  · intros
    trivial
  · intro db op db' _ hfresh hs
    obtain rfl := Option.some.inj hs
    rw [fresh_iff_below]
    exact below_apply (fresh_iff_below.mp hfresh) op
  · intro db op _ _ hs
    cases hs
  · trivial
  · exact fresh_iff_below.mpr (by simp [NumbersBelow, Db.empty])

/-- A 400 is recorded as attempt 1 and leaves the counter at 0; after the replay the
next execution numbers its attempt 1 again. -/
def poisonReplayRun : List Op :=
  acceptedRun ++ [.process 10 (answer 1 400), .replay 10 (manualReplay false)]

theorem poison_then_replay_repeats_number :
    ¬ Throughout (Db.step {}) (AttemptsFresh {}) Db.empty poisonReplayRun := by
  intro h
  obtain ⟨db, hrun, hraise⟩ : ∃ db, exec (Db.step {}) Db.empty poisonReplayRun = some db ∧
      db.processOutboundMessage {} 10 (answer 200 200) =
        .error (.commit (.integrity .attemptsDeliveryNumber)) := ⟨_, rfl, rfl⟩
  exact (h.last hrun).2 10 (answer 200 200) hraise

end PartnerHub.Outbound
