import PartnerHub.Lib.Json.Grammar

/-!
# The body of an inbound event

`_parse_event_body` turns the raw bytes of an authenticated request into an event type and a
payload. It catches `JSONDecodeError` around `json.loads` and nothing else.
-/
namespace PartnerHub.Inbound

open PartnerHub.Lib.Json

structure InboundEventBody where
  eventType : Text
  payload : List (Text × Value)

/-- What `_parse_event_body` raises: its own answer, or an error of `json.loads` that passes
through it. -/
inductive BodyError where
  | httpException (statusCode : Nat) (detail : Text)
  | unhandled (e : LoadsError)
  deriving DecidableEq, Repr

/-- `ALLOWED_EVENT_TYPES`. -/
def allowedEventTypes : List Text := [textOf "order.created", textOf "order.updated"]

/-- `_parse_event_body`. -/
def parseEventBody (lim : Limits) (body : List UInt8) : Except BodyError InboundEventBody :=
  match loads lim body with
  | .error (.scan .jsonDecodeError) =>
    .error (.httpException 422 (textOf "Invalid JSON body."))
  | .error e => .error (.unhandled e)
  | .ok (.object parsed) =>
    match getMember parsed (textOf "event_type"), getMember parsed (textOf "payload") with
    | some (.string eventType), some (.object payload) =>
      if eventType ∈ allowedEventTypes then .ok { eventType := eventType, payload := payload }
      else
        .error (.httpException 422 (textOf "Unsupported event_type: " ++ eventType))
    | _, _ => .error (.httpException 422 (textOf "Invalid event schema."))
  | .ok _ => .error (.httpException 422 (textOf "Invalid JSON body."))

/-- The bytes are a JSON object with an allowed event type and an object for payload. -/
def IsEvent (body : List UInt8) (event : InboundEventBody) : Prop :=
  ∃ text parsed, decodeDetected body = some text ∧ Document text (.object parsed) ∧
    getMember parsed (textOf "event_type") = some (.string event.eventType) ∧
    event.eventType ∈ allowedEventTypes ∧
    getMember parsed (textOf "payload") = some (.object event.payload)

/-- The parser returns the event the body is, or it answers 422 and the body is no event. -/
def AcceptsGrammar (lim : Limits) (body : List UInt8) : Prop :=
  (∃ event, parseEventBody lim body = .ok event ∧ ∀ e, IsEvent body e ↔ e = event) ∨
    ((∃ detail, parseEventBody lim body = .error (.httpException 422 detail)) ∧
      ∀ e, ¬IsEvent body e)

/-- The bytes are a text in the encoding they seem to have, and scanning the text meets neither
the limit on nesting nor the one on the digits of a number. -/
def WithinLimits (lim : Limits) (body : List UInt8) : Prop :=
  ∃ text, decodeDetected body = some text ∧
    decodeText lim text ≠ .error .recursionError ∧ decodeText lim text ≠ .error .valueError

section Body

variable {lim : Limits} {body : List UInt8} {event : InboundEventBody}

/-- What `json.loads` raises within the limits is caught. -/
theorem loads_error_iff (lim : Limits) (body : List UInt8) :
    WithinLimits lim body ↔
      ∀ e, loads lim body = .error e → e = .scan .jsonDecodeError := by
  cases htext : decodeDetected body with
  | none => simp [WithinLimits, loads, htext]
  | some text =>
    cases hd : decodeText lim text with
    | ok v => simp [WithinLimits, loads, htext, hd, Except.mapError]
    | error e => cases e <;> simp [WithinLimits, loads, htext, hd, Except.mapError]

/-- An event is what `json.loads` returns, read by the two keys. -/
theorem isEvent_iff (h : WithinLimits lim body) :
    IsEvent body event ↔ ∃ parsed, loads lim body = .ok (.object parsed) ∧
      getMember parsed (textOf "event_type") = some (.string event.eventType) ∧
      event.eventType ∈ allowedEventTypes ∧
      getMember parsed (textOf "payload") = some (.object event.payload) := by
  obtain ⟨text, htext, hrec, hval⟩ := h
  have hlim : ∀ e, decodeText lim text = .error e → e = .jsonDecodeError := by
    intro e he
    cases e with
    | jsonDecodeError => rfl
    | recursionError => exact absurd he hrec
    | valueError => exact absurd he hval
  have hloads : ∀ v, loads lim body = .ok v ↔ Document text v := by
    intro v
    rw [← decodeText_iff hlim, loads, htext]
    cases hd : decodeText lim text <;> simp [hd, Except.mapError]
  constructor
  · rintro ⟨text', parsed, htext', hdoc, hrest⟩
    obtain rfl := Option.some.inj (htext.symm.trans htext')
    exact ⟨parsed, (hloads _).mpr hdoc, hrest⟩
  · rintro ⟨parsed, hok, hrest⟩
    exact ⟨text, parsed, htext, (hloads _).mp hok, hrest⟩

/-- What the parser returns. -/
theorem parse_ok_iff :
    parseEventBody lim body = .ok event ↔ ∃ parsed, loads lim body = .ok (.object parsed) ∧
      getMember parsed (textOf "event_type") = some (.string event.eventType) ∧
      event.eventType ∈ allowedEventTypes ∧
      getMember parsed (textOf "payload") = some (.object event.payload) := by
  unfold parseEventBody
  constructor
  · intro h
    split at h
    · cases h
    · cases h
    · rename_i parsed hloads
      split at h
      · rename_i eventType payload htype hpayload
        split_ifs at h with hallowed
        obtain rfl := Except.ok.inj h
        exact ⟨parsed, hloads, htype, hallowed, hpayload⟩
      · cases h
    · cases h
  · rintro ⟨parsed, hloads, htype, hallowed, hpayload⟩
    simp only [hloads, htype, hpayload, if_pos hallowed]

/-- Whatever the parser raises within the limits is an answer 422. -/
theorem parse_error {e : BodyError} (h : WithinLimits lim body)
    (he : parseEventBody lim body = .error e) : ∃ detail, e = .httpException 422 detail := by
  unfold parseEventBody at he
  split at he
  · exact ⟨_, (Except.error.inj he).symm⟩
  · rename_i e' hne hloads
    exact absurd ((loads_error_iff lim body).mp h e' hloads) hne
  · split at he
    · split_ifs at he
      exact ⟨_, (Except.error.inj he).symm⟩
    · exact ⟨_, (Except.error.inj he).symm⟩
  · exact ⟨_, (Except.error.inj he).symm⟩

end Body

/-- The parser accepts its grammar and answers 422 to everything else exactly when the bytes
can be decoded and are within the limits of `json.loads`. -/
theorem event_body_iff (lim : Limits) (body : List UInt8) :
    AcceptsGrammar lim body ↔ WithinLimits lim body := by
  constructor
  · intro h
    rw [loads_error_iff]
    intro e he
    by_contra hne
    have hunhandled : parseEventBody lim body = .error (.unhandled e) := by
      unfold parseEventBody
      rw [he]
      cases e with
      | unicodeDecodeError => rfl
      | scan e =>
        cases e with
        | jsonDecodeError => exact absurd rfl hne
        | recursionError => rfl
        | valueError => rfl
    rcases h with ⟨event, hok, -⟩ | ⟨⟨detail, herror⟩, -⟩
    · rw [hunhandled] at hok
      cases hok
    · rw [hunhandled] at herror
      cases herror
  · intro h
    cases hparse : parseEventBody lim body with
    | ok event =>
      refine .inl ⟨event, hparse, fun e => ?_⟩
      rw [isEvent_iff h, ← parse_ok_iff, hparse, Except.ok.injEq]
      exact eq_comm
    | error e =>
      obtain ⟨detail, rfl⟩ := parse_error h hparse
      refine .inr ⟨⟨detail, hparse⟩, fun e he => ?_⟩
      rw [isEvent_iff h, ← parse_ok_iff, hparse] at he
      cases he

/-- A byte that starts no character of UTF-8 ends in an unhandled error. -/
theorem undecodable_body_unhandled :
    ¬AcceptsGrammar ⟨1000, 4300⟩ [0xff] := by
  have hparse : parseEventBody ⟨1000, 4300⟩ [0xff] = .error (.unhandled .unicodeDecodeError) :=
    rfl
  rintro (⟨event, hok, -⟩ | ⟨⟨detail, herror⟩, -⟩)
  · rw [hparse] at hok
    cases hok
  · rw [hparse] at herror
    cases herror

end PartnerHub.Inbound
