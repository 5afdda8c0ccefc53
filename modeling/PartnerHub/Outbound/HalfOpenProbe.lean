import PartnerHub.Circuit.Sequential
import PartnerHub.Outbound.Operations

/-!
# The answer of a half-open probe

`process_outbound_message` with the circuit keys it reads and writes. `allow_outbound` takes
the probe before the POST; afterwards `record_success` or `record_failure` gives it back, but
an answer that is neither a success nor worth a retry goes through neither of them.
-/
namespace PartnerHub.Outbound

open PartnerHub.Domain PartnerHub.Circuit

/-- What the answer of a POST does to the circuit. -/
def recordAnswer (settings : Settings) (k : Keys) (times : Readings) :
    ResponseClassification → Keys
  | .success => (recordSuccess k).1
  | .poison => k
  | .retryable => (recordFailure settings k times).1

/-- `process_outbound_message` with its circuit commands: `asking` are the times of
`allow_outbound`, `recording` those of the call after the POST. -/
def processOnCircuit (settings : Settings) (k : Keys) (ctx : Context) (input : ProcessInput)
    (asking recording : Readings) : Keys × Except String Verdict :=
  if ctx.delivery.status ∉ deliveringSources ∨ input.signingSecret = none then
    (k, processDelivery settings ctx input)
  else
    let (k, allowed) := allowOutbound settings k asking
    let verdict := processDelivery settings ctx { input with allowOutbound := allowed }
    if !allowed then (k, verdict)
    else
      match postOutbound input.reply input.durationMs with
      | .error _ => (k, verdict)
      | .ok post =>
        (recordAnswer settings k recording
          (classifyHttpOutcome post.httpStatusCode ctx.endpoint.retryOnStatusCodes
            (networkErrorFromResult post.errorType)), verdict)

/-- The call asks for the probe and gets it: the delivery is open and has a secret, the
circuit is HALF_OPEN, stored or after the pause, and no other probe is out. -/
structure GetsProbe (settings : Settings) (k : Keys) (ctx : Context) (input : ProcessInput)
    (asking : Readings) : Prop where
  isOpen : ctx.delivery.status ∈ deliveringSources
  secret : input.signingSecret ≠ none
  found : getCircuitState settings k asking.look = .halfOpen
  free : k.ProbeFree asking.command

/-- No probe is out and the circuit is CLOSED or OPEN. -/
def ProbeResolved (k : Keys) : Prop :=
  (k.state = some .closed ∨ k.state = some .opened) ∧ k.probe = none

/-- The status codes below 500 an endpoint retries on. -/
def retryCodes (endpoint : PartnerEndpoint) : List Nat :=
  if endpoint.retryOnStatusCodes ≠ [] then endpoint.retryOnStatusCodes else defaultRetryableCodes

/-- The answer is a success or one to retry; a timeout and a network error are to be retried. -/
def Conclusive (endpoint : PartnerEndpoint) : HttpxReply → Prop
  | .response code _ => (200 ≤ code ∧ code < 300) ∨ 500 ≤ code ∨ code ∈ retryCodes endpoint
  | _ => True

/-- An HTTP response, or one of the errors `post_outbound` converts. -/
def Answered : HttpxReply → Prop
  | .otherException _ => False
  | _ => True

/-- The class of an answer in terms of its status code. -/
theorem classify_poison_iff (endpoint : PartnerEndpoint) {reply : HttpxReply} {n : Nat}
    {post : OutboundPostResult} (hpost : postOutbound reply n = .ok post) :
    classifyHttpOutcome post.httpStatusCode endpoint.retryOnStatusCodes
      (networkErrorFromResult post.errorType) = .poison ↔ ¬ Conclusive endpoint reply := by
  cases reply with
  | response code text =>
    cases hpost
    simp only [classifyHttpOutcome, networkErrorFromResult, Conclusive, retryCodes]
    split_ifs <;> simp_all
  | timeoutException | connectError =>
    cases hpost
    simp [classifyHttpOutcome, networkErrorFromResult, Conclusive]
  | networkError name =>
    cases hpost
    simp only [networkErrorFromResult, Conclusive, not_true, iff_false]
    split_ifs <;> simp [classifyHttpOutcome]
  | otherException name => cases hpost

/-- With the probe out, only a poison answer leaves it out. -/
theorem recordAnswer_resolved_iff (settings : Settings) {k : Keys} (times : Readings)
    (hstate : k.state = some .halfOpen) (answer : ResponseClassification) :
    ProbeResolved (recordAnswer settings k times answer) ↔ answer ≠ .poison := by
  cases answer with
  | success => exact iff_of_true ⟨.inl rfl, rfl⟩ (by decide)
  | retryable =>
    have hfound : getCircuitState settings k times.look = .halfOpen := by
      rw [getCircuitState, hstate]
    refine iff_of_true ?_ (by decide)
    rw [recordAnswer, recordFailure_halfOpen hfound]
    exact ⟨.inr rfl, rfl⟩
  | poison =>
    refine iff_of_false ?_ (fun h => h rfl)
    intro h
    have hres := h.1
    rw [recordAnswer, hstate] at hres
    rcases hres with h | h <;> cases h

/-- A granted probe is resolved when the call returns exactly when its answer is a success,
one to retry, a timeout or a connection error. -/
theorem probe_resolved_iff_conclusive (settings : Settings) (k : Keys) (ctx : Context)
    (input : ProcessInput) (asking recording : Readings)
    (hprobe : GetsProbe settings k ctx input asking) (hreply : Answered input.reply) :
    ProbeResolved (processOnCircuit settings k ctx input asking recording).1 ↔
      Conclusive ctx.endpoint input.reply := by
  have hgrant : allowOutbound settings k asking =
      ({ k with
        state := some .halfOpen
        probe := some (asking.command + settings.hubCircuitOpenSeconds) }, true) := by
    rw [allowOutbound_halfOpen hprobe.found, if_pos hprobe.free]
  have hasks : ¬ (ctx.delivery.status ∉ deliveringSources ∨ input.signingSecret = none) := by
    intro h
    rcases h with h | h
    · exact h hprobe.isOpen
    · exact hprobe.secret h
  obtain ⟨post, hpost⟩ : ∃ post, postOutbound input.reply input.durationMs = .ok post := by
    cases hr : input.reply with
    | otherException name =>
      rw [hr] at hreply
      exact hreply.elim
    | _ => exact ⟨_, rfl⟩
  have hkeys : (processOnCircuit settings k ctx input asking recording).1 =
      recordAnswer settings
        { k with
          state := some .halfOpen
          probe := some (asking.command + settings.hubCircuitOpenSeconds) } recording
        (classifyHttpOutcome post.httpStatusCode ctx.endpoint.retryOnStatusCodes
          (networkErrorFromResult post.errorType)) := by
    simp [processOnCircuit, hasks, hgrant, hpost]
  rw [hkeys, recordAnswer_resolved_iff settings recording rfl]
  exact (not_congr (classify_poison_iff ctx.endpoint hpost)).trans not_not

/-- A pending delivery whose partner's circuit was opened at 0. -/
def probeContext : Context where
  delivery := { buildPendingDelivery acme acmeEndpoint (acmeRequest "k") 10 with id := 1 }
  partner := acme
  endpoint := acmeEndpoint

def pausedKeys : Keys := { state := some .opened, openedAt := some 0 }

theorem probeContext_getsProbe (code : Nat) :
    GetsProbe {} pausedKeys probeContext (answer 300 code) (.instant 300) where
  isOpen := by decide
  secret := nofun
  found := by decide +kernel
  free := .inl rfl

/-- The probe is answered with 200. -/
theorem probe_resolved_iff_conclusive_ok :
    ProbeResolved (processOnCircuit {} pausedKeys probeContext (answer 300 200) (.instant 300)
      (.instant 301)).1 :=
  (probe_resolved_iff_conclusive {} pausedKeys probeContext (answer 300 200) (.instant 300)
    (.instant 301) (probeContext_getsProbe 200) trivial).mpr (.inl (by decide))

/-- The probe is answered with 404: the delivery is dead, and HALF_OPEN and the probe stay. -/
theorem probe_kept_after_not_found :
    ¬ ∀ (settings : Settings) (k : Keys) (ctx : Context) (input : ProcessInput)
      (asking recording : Readings), GetsProbe settings k ctx input asking →
      Answered input.reply →
      ProbeResolved (processOnCircuit settings k ctx input asking recording).1 := by
  intro h
  have hres := h {} pausedKeys probeContext (answer 300 404) (.instant 300) (.instant 301)
    (probeContext_getsProbe 404) trivial
  have hkept : (processOnCircuit {} pausedKeys probeContext (answer 300 404) (.instant 300)
      (.instant 301)).1.probe = some 600 := by decide +kernel
  rw [hres.2] at hkept
  cases hkept

end PartnerHub.Outbound
