import PartnerHub.Inbound.EventBody
import PartnerHub.Kafka.Envelopes

/-!
# From a partner's body to the consumer of the event

An event that `_parse_event_body` accepts waits in the outbox as an envelope and is published;
whoever deserializes the record finds the event the partner posted, as far as the column of the
outbox keeps it.
-/
namespace PartnerHub.Kafka

open PartnerHub.Domain PartnerHub.Lib.Json PartnerHub.Inbound

section Accepted

variable {lim : Limits} {body : List UInt8} {event : InboundEventBody}

theorem mem_of_getMember {members : List (Text × Value)} {key : Text} {v : Value}
    (h : getMember members key = some v) : (key, v) ∈ members := by
  obtain ⟨m, hm, rfl⟩ := Option.map_eq_some_iff.mp h
  have hkey := List.find?_some hm
  rw [decide_eq_true_eq] at hkey
  rw [← hkey]
  exact List.mem_of_find?_eq_some hm

/-- The payload of an accepted event nests less deep than the body may. -/
theorem accepted_payload (h : parseEventBody lim body = .ok event) :
    ∃ depth, lim.depth = depth + 1 ∧ Fits lim depth (.object event.payload) := by
  obtain ⟨parsed, hloads, -, -, hpayload⟩ := parse_ok_iff.mp h
  unfold loads at hloads
  cases htext : decodeDetected body with
  | none => simp [htext] at hloads
  | some text =>
    rw [htext] at hloads
    dsimp only at hloads
    cases hdecode : decodeText lim text with
    | error e => simp [hdecode, Except.mapError] at hloads
    | ok v =>
      rw [hdecode] at hloads
      obtain rfl : v = .object parsed := Except.ok.inj hloads
      have hfits := fits_decodeText hdecode
      cases hdepth : lim.depth with
      | zero =>
        rw [hdepth] at hfits
        exact hfits.elim
      | succ depth =>
        rw [hdepth] at hfits
        exact ⟨depth, rfl, hfits _ (mem_of_getMember hpayload)⟩

theorem accepted_eventType (h : parseEventBody lim body = .ok event) :
    ∃ eventType, textOf eventType = event.eventType := by
  obtain ⟨-, -, -, hallowed, -⟩ := parse_ok_iff.mp h
  simp only [allowedEventTypes, List.mem_cons, List.not_mem_nil, or_false] at hallowed
  rcases hallowed with htype | htype
  · exact ⟨_, htype.symm⟩
  · exact ⟨_, htype.symm⟩

/-- The envelope of an accepted event is within the limits. -/
theorem fits_inboundEnvelope (h : parseEventBody lim body = .ok event) (hdigits : 0 < lim.digits)
    (eventId partnerPublicId : Uuid) (eventType idempotencyKey correlationId : String)
    (receivedAt : Datetime) :
    Fits lim lim.depth (.object (buildInboundEnvelope eventId partnerPublicId eventType
      event.payload idempotencyKey correlationId receivedAt)) := by
  obtain ⟨depth, hdepth, hfits⟩ := accepted_payload h
  have hstring : ∀ s, Fits lim depth (.string s) := by
    intro s
    cases depth <;> trivial
  have hversion : Fits lim depth (.int 1) := by
    rw [fits_int]
    exact hdigits
  rw [hdepth]
  show ∀ m ∈ buildInboundEnvelope eventId partnerPublicId eventType event.payload idempotencyKey
    correlationId receivedAt, Fits lim depth m.2
  simp only [buildInboundEnvelope, List.forall_mem_cons, List.not_mem_nil, false_implies,
    implies_true, and_true, uuidValue, strValue, isoValue, hstring, hversion, true_and]
  exact hfits

end Accepted

/-- The record of an accepted event, whatever its payload is: what the relay reads from the
outbox is serialized, and deserialized to an envelope with the id and the type of the event and
the payload that is stored of the one the partner posted. -/
theorem inbound_record_read_back (lim : Limits) (floats : FloatText) (body : List UInt8)
    (event : InboundEventBody) (hdigits : 309 ≤ lim.digits)
    (h : parseEventBody lim body = .ok event) (eventId partnerPublicId : Uuid)
    (idempotencyKey correlationId : String) (receivedAt : Datetime) :
    ∃ eventType, textOf eventType = event.eventType ∧
      ∀ row, Stored floats (.object (buildInboundEnvelope eventId partnerPublicId eventType
          event.payload idempotencyKey correlationId receivedAt)) (.object row) →
        ∃ bytes members payload, valueSerializer lim floats (.object row) = .ok bytes ∧
          valueDeserializer lim bytes = .ok (.object members) ∧
          getMember members (textOf "event_id") = some (uuidValue eventId) ∧
          getMember members (textOf "event_type") = some (.string event.eventType) ∧
          Stored floats (.object event.payload) payload ∧
          getMember members (textOf "payload") = some (canonical floats .plain payload) := by
  obtain ⟨eventType, htype⟩ := accepted_eventType h
  refine ⟨eventType, htype, fun row hrow => ?_⟩
  let e : HubEnvelope := .inbound eventId partnerPublicId eventType event.payload idempotencyKey
    correlationId receivedAt
  have hfits : Fits lim lim.depth (.object e.members) :=
    fits_inboundEnvelope h (by omega) eventId partnerPublicId eventType idempotencyKey
      correlationId receivedAt
  have hhanded : Handed floats e row := .relayed hrow
  obtain ⟨bytes, members, hbytes, hmembers, -, hget, -, -, -⟩ :=
    envelope_read_back lim floats e row hdigits hfits hhanded
  obtain ⟨row', heq, -, hstored⟩ := hrow.of_object e.keys.1 e.keys.2
  obtain rfl := Value.object.inj heq
  have hpayload : (textOf "payload", Value.object event.payload) ∈ e.members := by
    simp only [e, HubEnvelope.members, buildInboundEnvelope, List.mem_cons, true_or, or_true]
  have hid : (textOf "event_id", uuidValue eventId) ∈ e.members := by
    simp only [e, HubEnvelope.members, buildInboundEnvelope, List.mem_cons, true_or, or_true]
  have htypeMember : (textOf "event_type", strValue eventType) ∈ e.members := by
    simp only [e, HubEnvelope.members, buildInboundEnvelope, List.mem_cons, true_or, or_true]
  obtain ⟨payload, hp, hmem⟩ := hstored _ hpayload
  refine ⟨bytes, members, payload, hbytes, hmembers, ?_, ?_, hp, hget _ hmem⟩
  · exact hget _ (hhanded.string (wellPaired_textOf _) hid)
  · rw [← htype]
    exact hget _ (hhanded.string (wellPaired_textOf _) htypeMember)

def orderEvent : InboundEventBody where
  eventType := textOf "order.created"
  payload := [(textOf "total", .int 5)]

def eventMembers : List (Text × Value) :=
  [(textOf "event_type", .string orderEvent.eventType),
    (textOf "payload", .object orderEvent.payload)]

/-- The event as a partner that uses `json.dumps` posts it. -/
def orderBody : List UInt8 :=
  match dumps ⟨1000, 4300⟩ literalFloats .plain (.object eventMembers) with
  | .ok text => asciiBytes text
  | .error _ => []

theorem eventMembers_fits : Fits ⟨1000, 4300⟩ 1000 (.object eventMembers) := by
  simp only [eventMembers, orderEvent, Fits, List.forall_mem_cons, List.not_mem_nil,
    false_implies, implies_true, and_true]
  decide

theorem eventMembers_valid : Valid (.object eventMembers) := by
  have hpayload : Valid (.object orderEvent.payload) := .object (by decide)
    (List.forall_mem_singleton.mpr (wellPaired_textOf _)) (List.forall_mem_singleton.mpr (.int 5))
  refine .object (by decide) ?_ ?_
  · simp only [eventMembers, List.forall_mem_cons, List.not_mem_nil, false_implies, implies_true,
      and_true, wellPaired_textOf]
  · simp only [eventMembers, List.forall_mem_cons, List.not_mem_nil, false_implies, implies_true,
      and_true]
    exact ⟨.string (wellPaired_textOf _), hpayload⟩

theorem orderBody_accepted : parseEventBody ⟨1000, 4300⟩ orderBody = .ok orderEvent := by
  obtain ⟨text, htext⟩ := encodeOnce_of_fits literalFloats .plain eventMembers_fits
  have hascii := asciiText_encodeOnce eventMembers_valid htext
  have hbytes : orderBody = asciiBytes text := by
    unfold orderBody dumps
    rw [htext]
  refine parse_ok_iff.mpr ⟨eventMembers, ?_, rfl, ?_, rfl⟩
  · rw [loads, hbytes, decodeDetected_ascii hascii]
    dsimp only
    rw [decodeText_dumps eventMembers_valid htext]
    rfl
  · simp only [orderEvent, allowedEventTypes, List.mem_cons, true_or]

def orderEnvelope : HubEnvelope :=
  .inbound 1 2 "order.created" orderEvent.payload "key" "correlation"
    ⟨⟨2026, 3, 16, 10, 30, 0, 0⟩, by decide⟩

theorem orderEnvelope_stored : Stored literalFloats (.object orderEnvelope.members)
    (.object (jsonbOrder orderEnvelope.members)) := by
  have hpayload : Stored literalFloats (.object orderEvent.payload) (.object orderEvent.payload) :=
    .reordered (by decide) (by decide) (List.forall_mem_singleton.mpr (.int 5)) (List.Perm.refl _)
  refine .reordered orderEnvelope.keys.1 (by decide) ?_ (List.perm_insertionSort _ _)
  simp only [orderEnvelope, HubEnvelope.members, buildInboundEnvelope, List.forall_mem_cons,
    List.not_mem_nil, false_implies, implies_true, and_true]
  exact ⟨.int 1, stored_text (by decide +kernel), stored_text (by decide +kernel),
    stored_text (by decide), hpayload, stored_text (by decide), stored_text (by decide),
    .text (by decide +kernel)⟩

theorem inbound_record_read_back_order :
    ∃ bytes members payload,
      valueSerializer ⟨1000, 4300⟩ literalFloats (.object (jsonbOrder orderEnvelope.members)) =
        .ok bytes ∧
      valueDeserializer ⟨1000, 4300⟩ bytes = .ok (.object members) ∧
      getMember members (textOf "event_id") = some (uuidValue 1) ∧
      getMember members (textOf "event_type") = some (.string orderEvent.eventType) ∧
      Stored literalFloats (.object orderEvent.payload) payload ∧
      getMember members (textOf "payload") = some (canonical literalFloats .plain payload) := by
  obtain ⟨eventType, htype, hrecord⟩ := inbound_record_read_back ⟨1000, 4300⟩ literalFloats
    orderBody orderEvent (by decide) orderBody_accepted 1 2 "key" "correlation"
    ⟨⟨2026, 3, 16, 10, 30, 0, 0⟩, by decide⟩
  obtain rfl : eventType = "order.created" := by
    have hread := stringOf_textOf eventType
    rw [htype, orderEvent, stringOf_textOf] at hread
    exact (Option.some.inj hread).symm
  exact hrecord _ orderEnvelope_stored

end PartnerHub.Kafka
