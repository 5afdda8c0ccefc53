import PartnerHub.Outbound.FinishedMessages

/-!
# Deliveries that can still be finished

When an execution of `process_outbound_message` can still bring an open delivery to DELIVERED
or FAILED, whatever the partner answers and the circuit decides, without a further replay.
Operations are taken one after another; an execution works with the signing secret its
partner has.
-/
namespace PartnerHub.Outbound

open PartnerHub.Domain PartnerHub.Lib PartnerHub.Lib.System PartnerHub.Secrets

/-- The texts a POST of the delivery puts into its headers can be encoded. -/
structure Sendable (d : Delivery) : Prop where
  eventType : Ascii d.eventType
  idempotencyKey : Ascii d.idempotencyKey
  correlationId : Ascii d.correlationId

/-- An operation that is no replay. An execution signs with the secret of its partner and is
given the answer httpx has for the headers of its delivery. -/
def Unaided (digest : Secret → List UInt8 → List UInt8) (secretOf : Nat → Option Secret) (db : Db) :
    Op → Prop
  | .replay _ _ => False
  | .process i input => ∀ ctx, db.tables.fetchDeliveryContext i = some ctx →
      input = ctx.learned digest (secretOf ctx.partner.id) input
  | _ => True

/-- Some unaided run ends with the delivery DELIVERED or FAILED. -/
def CanFinish (settings : Settings) (digest : Secret → List UInt8 → List UInt8)
    (secretOf : Nat → Option Secret) (db : Db) (i : Uuid) : Prop :=
  ∃ db', Leads (Db.step settings) (Unaided digest secretOf) db db' ∧
    ∃ d ∈ db'.tables.deliveries, d.publicId = i ∧ ¬ d.status.Open

/-- What keeps executions of a delivery from finishing it: without a secret they fail it, which
takes a dead letter it already has; with one they post it, which takes headers that can be
encoded and an attempt number that is free. -/
def Blocked (t : Tables) (secret : Option Secret) (d : Delivery) : Prop :=
  if secret = none then t.HasDeadLetter d.id
  else Sendable d → t.HasAttempt d.id (d.attemptCount + 1)

section Blocked

variable {settings : Settings} {digest : Secret → List UInt8 → List UInt8}
  {secretOf : Nat → Option Secret} {db db' : Db} {n : Nat} {i : Uuid}

theorem Blocked.mono {t t' : Tables} {secret : Option Secret} {d : Delivery}
    (h : Blocked t secret d) (hl : t.HasDeadLetter d.id → t'.HasDeadLetter d.id)
    (ha : ∀ k, t.HasAttempt d.id k → t'.HasAttempt d.id k) : Blocked t' secret d := by
  unfold Blocked at h ⊢
  split
  · rename_i hsec
    rw [if_pos hsec] at h
    exact hl h
  · rename_i hsec
    rw [if_neg hsec] at h
    exact fun hs => ha _ (h hs)

theorem Blocked.same {t : Tables} {secret : Option Secret} {d d' : Delivery}
    (h : Blocked t secret d) (hid : d'.id = d.id) (hcount : d'.attemptCount = d.attemptCount)
    (hs : Sendable d' → Sendable d) : Blocked t secret d' := by
  unfold Blocked at h ⊢
  rw [hid, hcount]
  split
  · rename_i hsec
    rw [if_pos hsec] at h
    exact h
  · rename_i hsec
    rw [if_neg hsec] at h
    exact fun hs' => h (hs hs')

/-- The delivery is open and its executions are blocked. -/
def Stuck (secretOf : Nat → Option Secret) (t : Tables) (n : Nat) (i : Uuid) : Prop :=
  ∃ d ∈ t.deliveries, d.id = n ∧ d.publicId = i ∧ d.status.Open ∧
    Blocked t (secretOf d.partnerId) d

/-- An operation that keeps the delivery's row, the attempts and the dead letters. -/
theorem Stuck.frame {t t' : Tables} (h : Stuck secretOf t n i)
    (hd : ∀ d ∈ t.deliveries, d ∈ t'.deliveries) (ha : t'.attempts = t.attempts)
    (hl : ∀ k, t.HasDeadLetter k → t'.HasDeadLetter k) : Stuck secretOf t' n i := by
  obtain ⟨d, hmem, hid, hpub, hopen, hb⟩ := h
  refine ⟨d, hd d hmem, hid, hpub, hopen, hb.mono (hl d.id) ?_⟩
  intro k hk
  rw [Tables.HasAttempt, ha]
  exact hk

/-- An attempt is recorded only of a delivery whose headers httpx took. -/
theorem sendable_of_attempt {ctx : Context} {input : ProcessInput} {s : Session}
    {record : Option Message} {out : ProcessOutcome} {secret : Option Secret}
    (hlearned : input = ctx.learned digest secret input)
    (hv : processDelivery settings ctx input = .ok (.commit s record out)) (ha : s.attempt ≠ none) :
    Sendable ctx.delivery := by
  obtain ⟨a, hat⟩ := Option.ne_none_iff_exists'.mp ha
  obtain ⟨post, hpost, -⟩ := process_attempt hv hat
  have hsecret : input.signingSecret = secret := congrArg ProcessInput.signingSecret hlearned
  cases secret with
  | none =>
    obtain ⟨s', record', out', hv', hnone⟩ :=
      process_unposted settings (process_decided hv).1 (.inl hsecret)
    obtain ⟨rfl, -, -⟩ := Verdict.commit.inj (Except.ok.inj (hv'.symm.trans hv))
    exact absurd hnone ha
  | some key =>
    by_cases hascii : ∀ x ∈ ctx.headers digest input.now key, Ascii x.2
    · obtain ⟨he, hk, hc⟩ := (headers_ascii_iff digest _ _ _ _ _ _ _).mp hascii
      exact ⟨he, hk, hc⟩
    · have hreply : input.reply = .otherException "UnicodeEncodeError" := by
        rw [hlearned]
        simp only [Context.learned, httpxPost, if_neg hascii]
      rw [hreply] at hpost
      cases hpost

/-- A blocked execution that commits has met an open circuit: it records nothing and leaves
the delivery RETRYING. -/
theorem blocked_defers {ctx : Context} {input : ProcessInput} {s : Session}
    {record : Option Message} {out : ProcessOutcome} {secret : Option Secret}
    (hb : Blocked db.tables secret ctx.delivery)
    (hlearned : input = ctx.learned digest secret input)
    (hv : processDelivery settings ctx input = .ok (.commit s record out))
    (hc : db.commit s = .ok db') : s.attempt = none ∧ s.delivery.status = .retrying := by
  obtain ⟨-, hdec⟩ := process_decided hv
  have hsecret : input.signingSecret = secret := congrArg ProcessInput.signingSecret hlearned
  have hattempt : s.attempt = none := by
    by_contra ha
    have hsend := sendable_of_attempt hlearned hv ha
    obtain ⟨a, hat⟩ := Option.ne_none_iff_exists'.mp ha
    have hn := hdec.numbers hat
    by_cases hsec : secret = none
    · obtain ⟨s', record', out', hv', hnone⟩ :=
        process_unposted settings (process_decided hv).1 (.inl (hsecret.trans hsec))
      obtain ⟨rfl, -, -⟩ := Verdict.commit.inj (Except.ok.inj (hv'.symm.trans hv))
      exact ha hnone
    · rw [Blocked, if_neg hsec] at hb
      refine (Db.commit_ok.mp hc).2.2.1 ⟨a, hat, ?_⟩
      rw [hn.delivery, hn.number]
      exact hb hsend
  refine ⟨hattempt, (hdec.without_attempt hattempt).resolve_right ?_⟩
  intro hletter
  obtain ⟨l, hl⟩ := Option.ne_none_iff_exists'.mp hletter
  have hnone : input.signingSecret = none := by
    cases hdec with
    | missingSecret h => exact h
    | circuitOpen | success | retry => cases hl
    | poison | exhausted => cases hattempt
  rw [Blocked, if_pos (hsecret.symm.trans hnone)] at hb
  refine (Db.commit_ok.mp hc).2.2.2.1 ⟨l, hl, ?_⟩
  rw [hdec.deadLetter_delivery hl]
  exact hb

/-- The commit of an execution leaves a stuck delivery stuck: it worked on another one, or
it met an open circuit. -/
theorem stuck_commit {j : Uuid} {ctx : Context} {input : ProcessInput} {s : Session}
    {record : Option Message} (h : Stuck secretOf db.tables n i)
    (hp : Processes settings db j input ctx s record)
    (hlearned : input = ctx.learned digest (secretOf ctx.partner.id) input)
    (hc : db.commit s = .ok db') : Stuck secretOf db'.tables n i := by
  obtain ⟨out, hv⟩ := hp.verdict
  have hdec := hp.decided
  obtain ⟨d, hd, hid, hpub, hopen, hb⟩ := h
  have hkeeps : ∀ c : Delivery, Blocked db.tables (secretOf c.partnerId) c →
      Blocked db'.tables (secretOf c.partnerId) c := fun c hbc =>
    hbc.mono (fun hl => (hasDeadLetter_processed hdec hc _).mpr (.inl hl))
      fun k hk => (hasAttempt_commit hdec hc _ _).mpr (.inl hk)
  by_cases hown : d.id = ctx.delivery.id
  · obtain rfl := Table.eq_of_unique db.consistent.delivery_id hd (fetchContext_some hp.found).1 hown
    have hpartner := fetchContext_partner hp.found
    rw [← hpartner] at hb
    obtain ⟨hattempt, hretry⟩ := blocked_defers hb hlearned hv hc
    have hkeep : s.delivery.attemptCount = ctx.delivery.attemptCount :=
      hdec.counter_cases.resolve_right fun hx => hx.2 hattempt
    have hcount : (flushDelivery ctx.delivery s.delivery ctx.delivery).attemptCount =
        ctx.delivery.attemptCount := by
      show written _ _ _ = _
      rw [hkeep, written_unchanged]
    refine ⟨_, (mem_commit hdec hc).mpr ⟨ctx.delivery, hd, rfl⟩, ?_⟩
    rw [if_pos rfl]
    refine ⟨hid, hpub, ?_, ?_⟩
    · show s.delivery.status.Open
      rw [hretry]
      exact open_retrying
    · refine (hkeeps ctx.delivery (hpartner ▸ hb)).same rfl hcount ?_
      exact fun hs => ⟨hs.eventType, hs.idempotencyKey, hs.correlationId⟩
  · refine ⟨d, (mem_commit hdec hc).mpr ⟨d, hd, by rw [if_neg hown]⟩, hid, hpub, hopen, hkeeps d hb⟩

theorem stuck_step {op : Op} (h : Stuck secretOf db.tables n i) (hu : Unaided digest secretOf db op)
    (hs : Db.step settings db op = some db') : Stuck secretOf db'.tables n i := by
  have hch : Change settings db op db' := Option.some.inj hs ▸ apply_change settings db op
  cases hch with
  | keep => exact h
  | admin partners endpoints he =>
    exact h.frame (by rw [he]; exact fun _ hd => hd) (by rw [he]) (by rw [he]; exact fun _ hl => hl)
  | accepted ha he =>
    refine h.frame ?_ (by rw [he]; rfl) (by rw [he]; exact fun _ hl => hl)
    rw [he]
    exact fun d hd => List.mem_append_left _ hd
  | processed hp hc => exact stuck_commit h hp (hu _ hp.found) hc
  | replayed => exact absurd hu id
  | deadLetter hw =>
    refine h.frame (by rw [hw.frame]; exact fun _ hd => hd) (by rw [hw.frame]) ?_
    intro k hl
    have hids := hw.deadLetters
    simp only [Tables.HasDeadLetter, ← List.mem_map] at hl ⊢
    rw [hids]
    exact hl

end Blocked

section Finishing

variable (settings : Settings) (digest : Secret → List UInt8 → List UInt8) {db : Db}

/-- The answer that finishes a delivery: a 200 without a body. -/
def succeeding : ProcessInput where
  now := 0
  signingSecret := none
  allowOutbound := true
  reply := .response 200 ""
  durationMs := 0
  respondedAt := 0
  deadLetterId := 0
  deadLetterAt := 0

theorem recordable_succeeding : Recordable succeeding.reply := by
  show Storable (truncateResponseBody "")
  exact storable_truncate (by simp)

theorem learned_again (ctx : Context) (secret : Option Secret) (input : ProcessInput) :
    ctx.learned digest secret input = ctx.learned digest secret (ctx.learned digest secret input) := by
  cases secret with
  | none => rfl
  | some key =>
    simp only [Context.learned, httpxPost]
    split <;> rfl

/-- An execution that is not blocked ends a delivery: without a secret it fails it, with one the
200 makes it DELIVERED. -/
theorem finishes {ctx : Context} {secret : Option Secret} (hopen : ctx.delivery.status.Open)
    (hd : ctx.delivery ∈ db.tables.deliveries) (hb : ¬ Blocked db.tables secret ctx.delivery) :
    ∃ s record out db', processDelivery settings ctx (ctx.learned digest secret succeeding) =
      .ok (.commit s record out) ∧ db.commit s = .ok db' ∧ ¬ s.delivery.status.Open := by
  unfold Blocked at hb
  cases secret with
  | none =>
    rw [if_pos rfl] at hb
    obtain ⟨s, record, hv, hattempt, hstatus⟩ : ∃ s record, processDelivery settings ctx
        (ctx.learned digest none succeeding) = .ok (.commit s record .dlq) ∧
        s.attempt = none ∧ s.delivery.status = .failed := by
      rw [process_without_secret settings hopen rfl]
      exact ⟨_, _, rfl, rfl, rfl⟩
    have hdec := (process_decided hv).2
    have hstored : s.Storable := (process_storable_iff hv).mpr fun hsec _ => absurd rfl hsec
    obtain ⟨db', hc⟩ := db.commit_succeeds hstored (hdec.references hd)
      (by simp [Session.AttemptClash, hattempt]) (by
        rintro ⟨l, hl, hclash⟩
        rw [hdec.deadLetter_delivery hl] at hclash
        exact hb hclash)
    exact ⟨s, record, _, db', hv, hc, by simp [hstatus]⟩
  | some key =>
    rw [if_neg (by simp), Classical.not_imp] at hb
    obtain ⟨hsend, hfree⟩ := hb
    have hreply : (ctx.learned digest (some key) succeeding).reply = .response 200 "" := by
      simp only [Context.learned, httpxPost]
      rw [if_pos]
      · rfl
      · exact (headers_ascii_iff digest _ _ _ _ _ _ _).mpr
          ⟨hsend.eventType, hsend.idempotencyKey, hsend.correlationId⟩
    obtain ⟨s, record, hv, hletter, hstatus⟩ : ∃ s record, processDelivery settings ctx
        (ctx.learned digest (some key) succeeding) = .ok (.commit s record .delivered) ∧
        s.deadLetter = none ∧ s.delivery.status = .delivered := by
      rw [processDelivery, if_neg (open_checks hopen).1, if_neg (open_checks hopen).2,
        transition_delivering.mpr hopen, hreply]
      exact ⟨_, _, rfl, rfl, rfl⟩
    have hdec := (process_decided hv).2
    have hstored : s.Storable := by
      refine (process_storable_iff hv).mpr fun _ _ => ?_
      rw [hreply]
      exact recordable_succeeding
    obtain ⟨db', hc⟩ := db.commit_succeeds hstored (hdec.references hd) (by
        rintro ⟨a, hat, hclash⟩
        have hn := hdec.numbers hat
        rw [hn.delivery, hn.number] at hclash
        exact hfree hclash)
      (by simp [Session.DeadLetterClash, hletter])
    exact ⟨s, record, _, db', hv, hc, by simp [hstatus]⟩

end Finishing

/-- In every database, an open delivery can be brought to DELIVERED or FAILED without a further
replay exactly when its partner has no signing secret and it no dead letter, or its partner has
one, its headers can be encoded and the number of its next attempt is free. -/
theorem open_delivery_can_finish_iff (settings : Settings)
    (digest : Secret → List UInt8 → List UInt8) (secretOf : Nat → Option Secret) (db : Db) :
    ∀ d ∈ db.tables.deliveries, d.status.Open →
      (CanFinish settings digest secretOf db d.publicId ↔
        (secretOf d.partnerId = none ∧ ¬ db.tables.HasDeadLetter d.id) ∨
        (secretOf d.partnerId ≠ none ∧ Sendable d ∧
          ¬ db.tables.HasAttempt d.id (d.attemptCount + 1))) := by
  intro d hd ho
  have hblocked : Blocked db.tables (secretOf d.partnerId) d ↔
      ¬ ((secretOf d.partnerId = none ∧ ¬ db.tables.HasDeadLetter d.id) ∨
        (secretOf d.partnerId ≠ none ∧ Sendable d ∧
          ¬ db.tables.HasAttempt d.id (d.attemptCount + 1))) := by
    unfold Blocked
    split <;> rename_i hsec <;> simp [hsec]
  constructor
  · rintro ⟨db', hlead, d', hd', hpub, hclosed⟩
    by_contra hnone
    have hstuck : Stuck secretOf db.tables d.id d.publicId :=
      ⟨d, hd, rfl, rfl, ho, hblocked.mpr hnone⟩
    have hstill : Stuck secretOf db'.tables d.id d.publicId :=
      hlead.invariant (fun s => Stuck secretOf s.tables d.id d.publicId)
        (fun s a s' hs hu hstep => stuck_step hs hu hstep) hstuck
    obtain ⟨d₁, hd₁, -, hpub₁, hopen₁, -⟩ := hstill
    obtain rfl := Table.eq_of_unique db'.consistent.delivery_publicId hd' hd₁
      (hpub.trans hpub₁.symm)
    exact hclosed hopen₁
  · intro hcan
    obtain ⟨ctx, hctx, rfl⟩ := fetchContext_of_mem hd
    have hpartner := fetchContext_partner hctx
    obtain ⟨s, record, out, db', hv, hc, hclosed⟩ := finishes settings digest ho hd
      (mt hblocked.mp (not_not.mpr hcan))
    rw [← hpartner] at hv
    refine ⟨db', Leads.single (a := .process ctx.delivery.publicId
      (ctx.learned digest (secretOf ctx.partner.id) succeeding)) ?_ ?_,
      flushDelivery ctx.delivery s.delivery ctx.delivery, ?_, rfl, hclosed⟩
    · intro ctx' hctx'
      obtain rfl := Option.some.inj (hctx.symm.trans hctx')
      exact learned_again digest ctx _ succeeding
    · simp only [Db.step, Db.apply, Db.processOutboundMessage, hctx, hv, hc, Except.map, Db.orKeep]
    · exact (mem_commit (process_decided hv).2 hc).mpr ⟨ctx.delivery, hd, by rw [if_pos rfl]⟩

/-- A 400, recorded as attempt 1 and as a dead letter, and a replay that keeps the counter. -/
def poisonedRun : List Op :=
  acceptedRun ++ [.process 10 (answer 1 400), .replay 10 (manualReplay false)]

/-- After it the delivery is REPLAYING for good, whatever its partner answers. -/
theorem replayed_poison_never_finishes :
    ∃ d ∈ (poisonedRun.foldl (Db.apply {}) Db.empty).tables.deliveries,
      d.publicId = 10 ∧ d.status = .replaying ∧
        ¬ CanFinish {} (fun _ _ => []) (fun _ => some [1])
          (poisonedRun.foldl (Db.apply {}) Db.empty) 10 := by
  obtain ⟨d, hd, hi, hst, hattempt⟩ :
      ∃ d ∈ (poisonedRun.foldl (Db.apply {}) Db.empty).tables.deliveries,
        d.publicId = 10 ∧ d.status = .replaying ∧
          (poisonedRun.foldl (Db.apply {}) Db.empty).tables.HasAttempt d.id (d.attemptCount + 1) := by
    decide +kernel
  refine ⟨d, hd, hi, hst, ?_⟩
  rw [← hi, open_delivery_can_finish_iff {} (fun _ _ => []) (fun _ => some [1]) _ d hd
    (by simp [hst])]
  rintro (⟨hsec, -⟩ | ⟨-, -, hfree⟩)
  · cases hsec
  · exact hfree hattempt

end PartnerHub.Outbound
