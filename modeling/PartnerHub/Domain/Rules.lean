import PartnerHub.Domain.Records

/-!
# The pure rules of a delivery attempt

`delivery_attempt.py`, `backoff.py`, `retry_topics.py`, `sla_service.py` and the
result conversion of `http_client.py`. Nothing here touches the database; floats
are exact rationals.
-/
namespace PartnerHub.Domain

/-- What the httpx call does: it answers, or it raises. -/
inductive HttpxReply where
  | response (statusCode : Nat) (text : PyStr)
  | timeoutException
  | connectError
  | networkError (name : String)
  | otherException (name : String)
  deriving DecidableEq, Repr

structure OutboundPostResult where
  httpStatusCode : Option Nat
  responseBody : PyStr
  durationMs : Nat
  errorType : Option String
  deriving DecidableEq, Repr

/-- `post_outbound` converts three exception families; any other one escapes. -/
def postOutbound (reply : HttpxReply) (durationMs : Nat) : Except String OutboundPostResult :=
  match reply with
  | .response code text => .ok ⟨some code, text, durationMs, none⟩
  | .timeoutException => .ok ⟨none, "", durationMs, some "timeout"⟩
  | .connectError => .ok ⟨none, "", durationMs, some "connect_error"⟩
  | .networkError name => .ok ⟨none, "", durationMs, some name⟩
  | .otherException name => .error name

inductive HttpError where
  | timeoutException | connectError | networkError | other
  deriving DecidableEq, Repr

/-- `_network_error_from_result`. -/
def networkErrorFromResult : Option String → Option HttpError
  | none => none
  | some errorType =>
    if errorType = "timeout" then some .timeoutException
    else if errorType = "connect_error" then some .connectError
    else some .networkError

inductive ResponseClassification where
  | success | retryable | poison
  deriving DecidableEq, Repr

def defaultPoisonCodes : List Nat := [400, 401, 403, 404, 422]
def defaultRetryableCodes : List Nat := [408, 429]

def classifyHttpOutcome (statusCode : Option Nat) (retryOnStatusCodes : List Nat)
    (error : Option HttpError) : ResponseClassification :=
  match error with
  | some .other => .poison
  | some _ => .retryable
  | none =>
    match statusCode with
    | none => .retryable
    | some code =>
      if 200 ≤ code ∧ code < 300 then .success
      else if 500 ≤ code then .retryable
      else if retryOnStatusCodes ≠ [] then
        if code ∈ retryOnStatusCodes then .retryable
        else if 400 ≤ code ∧ code < 500 then .poison
        else .poison
      else if code ∈ defaultRetryableCodes then .retryable
      else if code ∈ defaultPoisonCodes then .poison
      else if 400 ≤ code ∧ code < 500 then .poison
      else .poison

def responseBodyMaxLen : Nat := 4096

def truncateResponseBody (text : PyStr) : PyStr :=
  if text.points.length ≤ responseBodyMaxLen then text
  else ⟨text.points.take responseBodyMaxLen⟩

/-- Python's `a or b` on strings. -/
def orElseText (a b : String) : String := if a = "" then b else a

/-- `a or b` where a partner's text may be among them. -/
def orElseStr (a b : PyStr) : PyStr := if a.points = [] then b else a

/-- `a or b` on an optional integer status and a text. -/
def orElseCode (code : Option Nat) (b : String) : String :=
  match code with
  | some (n + 1) => toString (n + 1)
  | _ => b

/-- `compute_delay_seconds`; `rng` is the value the caller's generator returns. -/
def computeDelaySeconds (attemptNumber base multiplier maxSeconds : Nat) (rng : ℚ)
    (jitterPct : ℚ) : Except String ℚ :=
  if attemptNumber < 1 then .error "attempt_number must be >= 1"
  else
    let delaySeconds : ℚ := (min (base * multiplier ^ (attemptNumber - 1)) maxSeconds : Nat)
    .ok (delaySeconds + delaySeconds * (rng * 2 - 1) * jitterPct)

/-- `retry_topic_for`. -/
def retryTopicFor (attemptNumber : Nat) (delaySeconds : ℚ) : Topic :=
  if attemptNumber ≤ 2 then .outboundRetry .s30
  else if attemptNumber = 3 ∧ 45 < delaySeconds ∧ delaySeconds ≤ 90 then .outboundRetry .m1
  else if attemptNumber ≤ 4 then .outboundRetry .m5
  else if attemptNumber ≤ 6 then .outboundRetry .m15
  else .outboundRetry .h1

/-- Whatever the attempt and the delay, the worker itself consumes the topic. -/
@[simp] theorem retryTopicFor_consumed (n : Nat) (d : ℚ) : (retryTopicFor n d).consumed = true := by
  unfold retryTopicFor
  split_ifs <;> rfl

/-- `apply_first_success`: the first success fixes both facts, later ones return
them unchanged. -/
def applyFirstSuccess (now slaDeadlineAt : Time) (firstSuccessAt : Option Time)
    (slaBreached : Bool) : Time × Bool :=
  match firstSuccessAt with
  | some t => (t, slaBreached)
  | none => (now, slaBreached || decide (slaDeadlineAt < now))

/-- `compute_sla_deadline`: an endpoint's own limit overrides the partner's. -/
def computeSlaDeadline (now : Time) (partner : Partner) (endpoint : PartnerEndpoint) : Time :=
  now + (endpoint.slaSeconds.getD partner.slaSeconds : Nat)

end PartnerHub.Domain
