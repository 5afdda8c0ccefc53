import PartnerHub.Domain.Wire
import PartnerHub.Outbound.Processor

/-!
# The verdict of an execution, from its input

Which branch of `process_outbound_message` an execution takes is decided by the signing
secret, the circuit and the class of the answer, and whether PostgreSQL takes what it writes
by the texts of the answer.
-/
namespace PartnerHub.Outbound

open PartnerHub.Domain PartnerHub.Lib

/-- `post_outbound` returns for this behaviour of httpx, and PostgreSQL stores what the
attempt records of it: `truncate_response_body` keeps the first 4096 characters. -/
def Recordable : HttpxReply → Prop
  | .response _ text => Storable (truncateResponseBody text)
  | .timeoutException | .connectError => True
  | .networkError name => Storable name
  | .otherException _ => False

/-- PostgreSQL takes what the execution records of the reply; without a POST it records none. -/
def ProcessInput.Recordable (input : ProcessInput) : Prop :=
  input.signingSecret ≠ none → input.allowOutbound = true → Outbound.Recordable input.reply

theorem recordable_of_secret {input : ProcessInput} {key : Secret}
    (h : input.signingSecret = some key) :
    input.Recordable ↔ (input.allowOutbound = true → Outbound.Recordable input.reply) := by
  simp [ProcessInput.Recordable, h]

/-- What ends an open delivery in `_mark_failed_dlq`: no signing secret, an answer that is not
retried, or a retryable one at the last attempt. -/
inductive EndsFailed (ctx : Context) (input : ProcessInput) : Prop
  | missingSecret (hsec : input.signingSecret = none)
  | poison {post : OutboundPostResult} (hallow : input.allowOutbound = true)
      (hpost : postOutbound input.reply input.durationMs = .ok post)
      (hc : ctx.classOf (attemptRow ctx input post) = .poison)
  | exhausted {post : OutboundPostResult} (hallow : input.allowOutbound = true)
      (hpost : postOutbound input.reply input.durationMs = .ok post)
      (hc : ctx.classOf (attemptRow ctx input post) = .retryable)
      (hlast : ctx.delivery.maxAttempts ≤ ctx.delivery.attemptCount + 1)

/-- What lets an execution set RETRYING: the circuit is open, or a retryable answer leaves
another attempt. -/
def Defers (ctx : Context) (input : ProcessInput) : Prop :=
  input.allowOutbound = false ∨
    ∃ post ∈ (postOutbound input.reply input.durationMs).toOption,
      ctx.classOf (attemptRow ctx input post) = .retryable ∧
        ctx.delivery.attemptCount + 1 < ctx.delivery.maxAttempts

instance (ctx : Context) (input : ProcessInput) : Decidable (Defers ctx input) :=
  inferInstanceAs (Decidable (_ ∨ _))

section Calls

variable {settings : Settings} {ctx : Context} {input : ProcessInput}

theorem deferDelay_returns (settings : Settings) (n : Nat) :
    ∃ delay, deferDelay settings n = .ok delay := by
  unfold deferDelay backoffDelay computeDelaySeconds
  split
  · exact ⟨_, rfl⟩
  · exact ⟨_, rfl⟩

/-- An open delivery passes both status checks of `process_outbound_message`. -/
theorem open_checks {status : DeliveryStatus} (ho : status.Open) :
    ¬ (status = .delivered ∨ status = .failed) ∧ ¬ status ∉ deliveringSources := by
  refine ⟨?_, not_not.mpr ho⟩
  rintro (he | he) <;> simp [he] at ho

theorem process_without_secret (settings : Settings) (ho : ctx.delivery.status.Open)
    (hsec : input.signingSecret = none) :
    processDelivery settings ctx input =
      markFailedDlq ctx input ctx.delivery none .nonRetryableError none
        "missing signing secret" := by
  rw [processDelivery, if_neg (open_checks ho).1, if_neg (open_checks ho).2,
    transition_delivering.mpr ho, hsec]
  rfl

theorem process_denied (settings : Settings) (ho : ctx.delivery.status.Open)
    (hsec : input.signingSecret ≠ none) (hdeny : input.allowOutbound = false) :
    processDelivery settings ctx input = deferCircuitOpen settings ctx input := by
  obtain ⟨key, hkey⟩ := Option.ne_none_iff_exists'.mp hsec
  rw [processDelivery, if_neg (open_checks ho).1, if_neg (open_checks ho).2,
    transition_delivering.mpr ho, hkey]
  simp only [hdeny, Bool.not_false, if_true]
  rfl

/-- Without a POST the call returns and records no attempt. -/
theorem process_unposted (settings : Settings) (ho : ctx.delivery.status.Open)
    (h : input.signingSecret = none ∨ input.allowOutbound = false) :
    ∃ s pub out, processDelivery settings ctx input = .ok (.commit s pub out) ∧
      s.attempt = none := by
  by_cases hsec : input.signingSecret = none
  · rw [process_without_secret settings ho hsec]
    exact ⟨_, _, _, rfl, rfl⟩
  · obtain ⟨delay, hdelay⟩ := deferDelay_returns settings ctx.delivery.attemptCount
    rw [process_denied settings ho hsec (h.resolve_left hsec), deferCircuitOpen, hdelay]
    exact ⟨_, _, _, rfl, rfl⟩

theorem recordRetryable_returns (settings : Settings) (ctx : Context) (input : ProcessInput)
    (post : OutboundPostResult) (a : DeliveryAttempt) :
    ∃ v, recordRetryable settings ctx input post a = .ok v ∧ v.attempt = some a := by
  unfold recordRetryable
  simp only
  split
  · exact ⟨_, rfl, rfl⟩
  · exact ⟨_, rfl, rfl⟩

/-- The retryable branch gives up exactly at the last attempt. -/
theorem recordRetryable_dlq_iff (settings : Settings) (ctx : Context) (input : ProcessInput)
    (post : OutboundPostResult) (a : DeliveryAttempt) :
    (∃ s pub, recordRetryable settings ctx input post a = .ok (.commit s pub .dlq)) ↔
      ctx.delivery.maxAttempts ≤ ctx.delivery.attemptCount + 1 := by
  unfold recordRetryable
  simp only
  split
  · rename_i hlt
    refine iff_of_false ?_ (not_le.mpr hlt)
    rintro ⟨s, pub, h⟩
    obtain ⟨delay, -, h⟩ := bind_ok h
    cases h
  · rename_i hge
    exact iff_of_true ⟨_, _, rfl⟩ (not_lt.mp hge)

/-- With a POST the call raises what `post_outbound` raises, or records the attempt. -/
theorem process_posted (settings : Settings) (ho : ctx.delivery.status.Open) {key : Secret}
    (hsec : input.signingSecret = some key) (hallow : input.allowOutbound = true) :
    (∃ e, postOutbound input.reply input.durationMs = .error e ∧
      processDelivery settings ctx input = .error e) ∨
    ∃ post v, postOutbound input.reply input.durationMs = .ok post ∧
      processDelivery settings ctx input = .ok v ∧
      v.attempt = some (attemptRow ctx input post) := by
  rw [processDelivery, if_neg (open_checks ho).1, if_neg (open_checks ho).2,
    transition_delivering.mpr ho, hsec]
  simp only [hallow, Bool.not_true, Bool.false_eq_true, if_false]
  cases hpost : postOutbound input.reply input.durationMs with
  | error e => exact .inl ⟨e, rfl, rfl⟩
  | ok post =>
    refine .inr ⟨post, ?_⟩
    dsimp only [bind, Except.bind]
    cases classifyHttpOutcome post.httpStatusCode ctx.endpoint.retryOnStatusCodes
        (networkErrorFromResult post.errorType) with
    | success => exact ⟨_, rfl, rfl, rfl⟩
    | poison => exact ⟨_, rfl, rfl, rfl⟩
    | retryable =>
      obtain ⟨v, hv, ha⟩ :=
        recordRetryable_returns settings ctx input post (attemptRow ctx input post)
      exact ⟨v, rfl, hv, ha⟩

/-- After a POST the class of its answer and the counter decide. -/
theorem endsFailed_posted_iff {post : OutboundPostResult} (hsec : input.signingSecret ≠ none)
    (hallow : input.allowOutbound = true)
    (hpost : postOutbound input.reply input.durationMs = .ok post) :
    EndsFailed ctx input ↔ ctx.classOf (attemptRow ctx input post) = .poison ∨
      (ctx.classOf (attemptRow ctx input post) = .retryable ∧
        ctx.delivery.maxAttempts ≤ ctx.delivery.attemptCount + 1) := by
  constructor
  · intro h
    cases h with
    | missingSecret h => exact absurd h hsec
    | poison _ h hc =>
      obtain rfl := Except.ok.inj (hpost.symm.trans h)
      exact .inl hc
    | exhausted _ h hc hlast =>
      obtain rfl := Except.ok.inj (hpost.symm.trans h)
      exact .inr ⟨hc, hlast⟩
  · intro h
    cases h with
    | inl hc => exact .poison hallow hpost hc
    | inr hlast => exact .exhausted hallow hpost hlast.1 hlast.2

/-- An execution of an open delivery ends in `_mark_failed_dlq` exactly on such an input. -/
theorem ends_failed_iff (settings : Settings) (ho : ctx.delivery.status.Open) :
    (∃ s pub, processDelivery settings ctx input = .ok (.commit s pub .dlq)) ↔
      EndsFailed ctx input := by
  by_cases hsec : input.signingSecret = none
  · rw [process_without_secret settings ho hsec]
    exact iff_of_true ⟨_, _, rfl⟩ (.missingSecret hsec)
  obtain ⟨key, hkey⟩ := Option.ne_none_iff_exists'.mp hsec
  cases hallow : input.allowOutbound with
  | false =>
    obtain ⟨delay, hdelay⟩ := deferDelay_returns settings ctx.delivery.attemptCount
    rw [process_denied settings ho hsec hallow, deferCircuitOpen, hdelay]
    refine iff_of_false ?_ ?_
    · rintro ⟨s, pub, h⟩
      cases h
    · intro h
      cases h with
      | missingSecret h => exact hsec h
      | poison h | exhausted h => simp [hallow] at h
  | true =>
    rw [processDelivery, if_neg (open_checks ho).1, if_neg (open_checks ho).2,
      transition_delivering.mpr ho, hkey]
    simp only [hallow, Bool.not_true, Bool.false_eq_true, if_false]
    cases hpost : postOutbound input.reply input.durationMs with
    | error e =>
      refine iff_of_false ?_ ?_
      · rintro ⟨s, pub, h⟩
        cases h
      · intro h
        cases h with
        | missingSecret h => exact hsec h
        | poison _ h | exhausted _ h => simp [hpost] at h
    | ok post =>
      rw [endsFailed_posted_iff hsec hallow hpost]
      dsimp only [bind, Except.bind]
      cases hc : classifyHttpOutcome post.httpStatusCode ctx.endpoint.retryOnStatusCodes
          (networkErrorFromResult post.errorType) with
      | success =>
        refine iff_of_false ?_ (by simp [Context.classOf, attemptRow, hc])
        rintro ⟨s, pub, h⟩
        cases h
      | poison => exact iff_of_true ⟨_, _, rfl⟩ (by simp [Context.classOf, attemptRow, hc])
      | retryable =>
        refine (recordRetryable_dlq_iff settings ctx input post _).trans ?_
        simp [Context.classOf, attemptRow, hc]

/-- An execution that leaves its delivery open defers it. -/
theorem defers_of_open {s : Session} {pub : Option Message} {out : ProcessOutcome}
    (h : processDelivery settings ctx input = .ok (.commit s pub out))
    (hs : s.delivery.status.Open) : Defers ctx input := by
  obtain ⟨ho, hdec⟩ := process_decided h
  by_cases hsec : input.signingSecret = none
  · rw [process_without_secret settings ho hsec] at h
    cases h
    exact absurd hs (by simp)
  obtain ⟨key, hkey⟩ := Option.ne_none_iff_exists'.mp hsec
  cases hallow : input.allowOutbound with
  | false => exact .inl hallow
  | true =>
    rcases process_posted settings ho hkey hallow with ⟨e, -, he⟩ | ⟨post, v, hpost, hv, ha⟩
    · cases he.symm.trans h
    · obtain rfl := Except.ok.inj (hv.symm.trans h)
      change s.attempt = some (attemptRow ctx input post) at ha
      refine .inr ⟨post, by rw [hpost]; rfl, ?_⟩
      cases hdec with
      | missingSecret hsecret => exact absurd hsecret hsec
      | circuitOpen hd => cases ha
      | success hn hc hat hf hd | poison hn hc hd | exhausted hn hc hge hd =>
        rw [hd] at hs
        exact absurd hs (by simp)
      | retry hn hc hlt hd =>
        obtain rfl := Option.some.inj ha
        exact ⟨hc, hlt⟩

end Calls

section Texts

variable {settings : Settings} {ctx : Context} {input : ProcessInput}

theorem changedText_holds {α : Type*} [DecidableEq α] {p : α → Prop} {loaded mine : Option α}
    (h : mine = loaded ∨ ∀ t ∈ mine, p t) : ∀ t ∈ changedText loaded mine, p t := by
  intro t ht
  unfold changedText at ht
  split at ht
  · cases ht
  · exact h.resolve_left ‹_› t (Option.mem_toList.mp ht)

/-- The texts of a commit are stored when each column it writes can be. -/
theorem storable_texts {s : Session}
    (hcode : s.delivery.lastErrorCode = s.loaded.lastErrorCode ∨
      ∀ t ∈ s.delivery.lastErrorCode, Storable t)
    (hmessage : s.delivery.lastErrorMessage = s.loaded.lastErrorMessage ∨
      ∀ t ∈ s.delivery.lastErrorMessage, Storable t)
    (hattempt : ∀ a ∈ s.attempt, ∀ t ∈ attemptTexts a, Storable t)
    (hletter : ∀ l ∈ s.deadLetter, Storable l.lastErrorMessage) :
    s.Storable := by
  intro t ht
  simp only [Session.texts, List.flatten_cons, List.flatten_nil, List.append_nil,
    List.mem_append, List.mem_flatMap, List.mem_map, Option.mem_toList] at ht
  rcases ht with ⟨c, hc, rfl⟩ | ht | ⟨a, ha, ht⟩ | ⟨l, hl, rfl⟩
  · exact changedText_holds hcode c hc
  · exact changedText_holds hmessage t ht
  · exact hattempt a ha t ht
  · exact hletter l hl

theorem storable_errorType {post : OutboundPostResult}
    (h : ∀ t ∈ attemptTexts (attemptRow ctx input post), Storable t) :
    Storable (post.errorType.getD "") := by
  cases he : post.errorType with
  | none => simp
  | some e =>
    apply h e
    simp [attemptTexts, attemptRow, he]

/-- The error message of a recorded answer: the body, the error type or a fixed text. -/
theorem storable_message {post : OutboundPostResult}
    (h : ∀ t ∈ attemptTexts (attemptRow ctx input post), Storable t) {fallback : String}
    (hf : Storable fallback) :
    Storable (truncateResponseBody
      (orElseStr post.responseBody (orElseText (post.errorType.getD "") fallback))) := by
  have hbody : Storable (truncateResponseBody post.responseBody) := h _ List.mem_cons_self
  by_cases hb : post.responseBody.points = []
  · rw [orElseStr, if_pos hb]
    exact storable_truncate (storable_orElseText (storable_errorType h) hf)
  · rwa [orElseStr, if_neg hb]

theorem markFailedDlq_texts {d : Delivery} {a : Option DeliveryAttempt} {reason : DeadLetterReason}
    {code : Option Nat} {text : PyStr} {s : Session} {pub : Option Message} {out : ProcessOutcome}
    (h : markFailedDlq ctx input d a reason code text = .ok (.commit s pub out))
    (hcode : d.lastErrorCode = ctx.delivery.lastErrorCode ∨ ∀ t ∈ d.lastErrorCode, Storable t)
    (htext : Storable text) (ha : ∀ x ∈ a, ∀ t ∈ attemptTexts x, Storable t) :
    s.Storable := by
  cases h
  have hmessage := storable_truncate htext
  refine storable_texts hcode (.inr ?_) ha ?_
  · intro t ht
    exact Option.mem_some_iff.mp ht ▸ hmessage
  · intro l hl
    exact Option.mem_some_iff.mp hl ▸ hmessage

theorem scheduleRetry_texts {d : Delivery} {a : Option DeliveryAttempt} {delay : ℚ} {s : Session}
    {pub : Option Message} {out : ProcessOutcome}
    (h : scheduleRetry ctx input d a delay = .ok (.commit s pub out))
    (hcode : d.lastErrorCode = ctx.delivery.lastErrorCode ∨ ∀ t ∈ d.lastErrorCode, Storable t)
    (hmessage : d.lastErrorMessage = ctx.delivery.lastErrorMessage ∨
      ∀ t ∈ d.lastErrorMessage, Storable t)
    (ha : ∀ x ∈ a, ∀ t ∈ attemptTexts x, Storable t) : s.Storable := by
  cases h
  exact storable_texts hcode hmessage ha (by simp)

theorem recordRetryable_texts {post : OutboundPostResult} {s : Session}
    {pub : Option Message} {out : ProcessOutcome}
    (h : recordRetryable settings ctx input post (attemptRow ctx input post) =
      .ok (.commit s pub out))
    (hpost : ∀ t ∈ attemptTexts (attemptRow ctx input post), Storable t) :
    s.Storable := by
  have hattempt : ∀ x ∈ some (attemptRow ctx input post), ∀ t ∈ attemptTexts x, Storable t := by
    intro x hx
    exact Option.mem_some_iff.mp hx ▸ hpost
  have hcode : ∀ t ∈ some (orElseCode post.httpStatusCode
      (orElseText (post.errorType.getD "") "retry")), Storable t := by
    intro t ht
    rw [← Option.mem_some_iff.mp ht]
    have hretry : Storable "retry" := by simp
    exact storable_orElseCode _ (storable_orElseText (storable_errorType hpost) hretry)
  have hfallback : Storable "retryable failure" := by simp
  have hmessage := storable_message hpost hfallback
  unfold recordRetryable at h
  simp only at h
  split at h
  · obtain ⟨delay, -, h⟩ := bind_ok h
    refine scheduleRetry_texts h (.inr hcode) (.inr ?_) hattempt
    intro t ht
    exact Option.mem_some_iff.mp ht ▸ hmessage
  · refine markFailedDlq_texts h (.inr hcode) ?_ hattempt
    exact storable_orElseStr hmessage (by simp)

/-- The texts of a commit are stored exactly when those of its attempt are. -/
theorem process_texts_iff {s : Session} {pub : Option Message} {out : ProcessOutcome}
    (h : processDelivery settings ctx input = .ok (.commit s pub out)) :
    s.Storable ↔ ∀ a ∈ s.attempt, ∀ t ∈ attemptTexts a, Storable t := by
  constructor
  · intro hall a ha t ht
    apply hall t
    simp only [Session.texts, List.mem_flatten, List.mem_cons]
    exact ⟨_, .inr (.inr (.inl rfl)), List.mem_flatMap.mpr ⟨a, Option.mem_toList.mpr ha, ht⟩⟩
  · intro ha
    rcases process_branches h with ⟨-, hv⟩ | ⟨-, hb⟩
    · cases hv
    cases hb with
    | missingSecret hsec h => exact markFailedDlq_texts h (.inl rfl) (by simp) (by simp)
    | deferred h => exact scheduleRetry_texts h (.inl rfl) (.inl rfl) (by simp)
    | delivered hpost hc h =>
      cases h
      exact storable_texts (.inr (by simp)) (.inr (by simp)) ha (by simp)
    | @poison post hpost hc h =>
      have hrow : s.attempt = some (attemptRow ctx input post) := markFailedDlq_attempt h
      have hfallback : Storable "non-retryable" := by simp
      refine markFailedDlq_texts h (.inr ?_) (storable_message (ha _ hrow) hfallback) (hrow ▸ ha)
      intro t ht
      rw [← Option.mem_some_iff.mp ht]
      exact storable_orElseCode _ (by simp)
    | @retryable post hpost hc h =>
      obtain ⟨v, hv, hrow⟩ :=
        recordRetryable_returns settings ctx input post (attemptRow ctx input post)
      obtain rfl := Except.ok.inj (hv.symm.trans h)
      exact recordRetryable_texts h (ha _ hrow)

end Texts

theorem recordable_iff {reply : HttpxReply} {durationMs : Nat} {post : OutboundPostResult}
    (h : postOutbound reply durationMs = .ok post) (ctx : Context) (input : ProcessInput) :
    (∀ t ∈ attemptTexts (attemptRow ctx input post), Storable t) ↔ Recordable reply := by
  cases reply with
  | otherException name => cases h
  | response code text | timeoutException | connectError | networkError name =>
    cases h
    simp [attemptTexts, attemptRow, Recordable, storable_truncate]

theorem not_recordable_of_raises {reply : HttpxReply} {durationMs : Nat} {e : String}
    (h : postOutbound reply durationMs = .error e) : ¬ Recordable reply := by
  cases reply with
  | otherException name => exact id
  | response code text | timeoutException | connectError | networkError name => cases h

/-- A commit's texts are stored exactly when the reply can be recorded. -/
theorem process_storable_iff {settings : Settings} {ctx : Context} {input : ProcessInput}
    {s : Session} {pub : Option Message} {out : ProcessOutcome}
    (h : processDelivery settings ctx input = .ok (.commit s pub out)) :
    s.Storable ↔ input.Recordable := by
  have ho := (process_decided h).1
  rw [process_texts_iff h]
  by_cases hposted : input.signingSecret ≠ none ∧ input.allowOutbound = true
  · obtain ⟨hsec, hallow⟩ := hposted
    obtain ⟨key, hkey⟩ := Option.ne_none_iff_exists'.mp hsec
    rcases process_posted settings ho hkey hallow with ⟨e, -, hv⟩ | ⟨post, v, hpost, hv, hrow⟩
    · simp [hv] at h
    · obtain rfl := Except.ok.inj (hv.symm.trans h)
      have hrow' : s.attempt = some (attemptRow ctx input post) := hrow
      have hiff := recordable_iff hpost ctx input
      simp only [hrow', Option.mem_def, Option.some.injEq, forall_eq', hiff]
      exact ⟨fun hr _ _ => hr, fun hr => hr hsec hallow⟩
  · have hno : input.signingSecret = none ∨ input.allowOutbound = false := by
      by_cases hsec : input.signingSecret = none
      · exact .inl hsec
      · exact .inr (by simpa [hsec] using hposted)
    obtain ⟨s', pub', out', hv, hnone⟩ := process_unposted settings ho hno
    obtain ⟨rfl, -, -⟩ := Verdict.commit.inj (Except.ok.inj (h.symm.trans hv))
    refine iff_of_true (by simp [hnone]) ?_
    intro hsec hallow
    exact absurd ⟨hsec, hallow⟩ hposted

/-- An execution of an open delivery has a commit that PostgreSQL takes exactly when the reply
can be recorded. -/
theorem stores_iff_recordable (settings : Settings) {ctx : Context} {input : ProcessInput}
    (ho : ctx.delivery.status.Open) :
    (∃ s pub out, processDelivery settings ctx input = .ok (.commit s pub out) ∧ s.Storable) ↔
      input.Recordable := by
  constructor
  · rintro ⟨s, pub, out, h, hs⟩
    exact (process_storable_iff h).mp hs
  · intro hr
    have hcommits : ∃ s pub out, processDelivery settings ctx input = .ok (.commit s pub out) := by
      cases hsec : input.signingSecret with
      | none =>
        obtain ⟨s, pub, out, hv, -⟩ := process_unposted settings ho (.inl hsec)
        exact ⟨s, pub, out, hv⟩
      | some key =>
        cases hallow : input.allowOutbound with
        | false =>
          obtain ⟨s, pub, out, hv, -⟩ := process_unposted settings ho (.inr hallow)
          exact ⟨s, pub, out, hv⟩
        | true =>
          rcases process_posted settings ho hsec hallow with ⟨e, hpost, -⟩ | ⟨post, v, -, hv, hrow⟩
          · exact absurd (hr (by simp [hsec]) hallow) (not_recordable_of_raises hpost)
          · cases v with
            | skip => cases hrow
            | commit s pub out => exact ⟨s, pub, out, hv⟩
    obtain ⟨s, pub, out, hv⟩ := hcommits
    exact ⟨s, pub, out, hv, (process_storable_iff hv).mpr hr⟩

end PartnerHub.Outbound
