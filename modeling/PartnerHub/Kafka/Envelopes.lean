import PartnerHub.Domain.Datetime
import PartnerHub.Domain.Text
import PartnerHub.Lib.Json.Bytes
import PartnerHub.Lib.Json.Jsonb

/-!
# Envelopes as Kafka carries them

The dicts `kafka_producer.py` builds, the column they wait in for the relay, the serializer of
the producer and the deserializer of the outbound worker, and the two fields of an envelope the
worker reads.
-/
namespace PartnerHub.Kafka

open PartnerHub.Domain PartnerHub.Lib.Json

section Build

def uuidValue (u : Uuid) : Value := .string (textOf (Uuid.text u))

def strValue (s : String) : Value := .string (textOf s)

def isoValue (d : Datetime) : Value := .string (isoformat d)

/-- `build_inbound_envelope`. -/
def buildInboundEnvelope (eventId partnerPublicId : Uuid) (eventType : String)
    (payload : List (Text × Value)) (idempotencyKey correlationId : String)
    (receivedAt : Datetime) : List (Text × Value) :=
  [(textOf "schema_version", .int 1),
    (textOf "event_id", uuidValue eventId),
    (textOf "partner_id", uuidValue partnerPublicId),
    (textOf "event_type", strValue eventType),
    (textOf "payload", .object payload),
    (textOf "idempotency_key", strValue idempotencyKey),
    (textOf "correlation_id", strValue correlationId),
    (textOf "received_at", isoValue receivedAt)]

/-- `build_outbound_pending_envelope`, which `build_outbound_retry_envelope` calls with the same
arguments. -/
def buildOutboundPendingEnvelope (deliveryPublicId partnerPublicId endpointId : Uuid)
    (eventType : String) (payload : List (Text × Value)) (idempotencyKey correlationId : String)
    (scheduledAt slaDeadlineAt : Datetime) (attempt : Nat) : List (Text × Value) :=
  [(textOf "schema_version", .int 1),
    (textOf "delivery_id", uuidValue deliveryPublicId),
    (textOf "partner_id", uuidValue partnerPublicId),
    (textOf "endpoint_id", uuidValue endpointId),
    (textOf "event_type", strValue eventType),
    (textOf "attempt", .int attempt),
    (textOf "payload", .object payload),
    (textOf "idempotency_key", strValue idempotencyKey),
    (textOf "correlation_id", strValue correlationId),
    (textOf "scheduled_at", isoValue scheduledAt),
    (textOf "sla_deadline_at", isoValue slaDeadlineAt)]

def reasonValue : DeadLetterReason → Value
  | .maxAttemptsExceeded => .string (textOf "max_attempts_exceeded")
  | .nonRetryableError => .string (textOf "non_retryable_error")
  | .manualPurge => .string (textOf "manual_purge")

/-- `build_dlq_envelope`. -/
def buildDlqEnvelope (deliveryPublicId partnerPublicId endpointId : Uuid) (eventType : String)
    (reason : DeadLetterReason) (correlationId : String) (attempt : Nat) : List (Text × Value) :=
  [(textOf "schema_version", .int 1),
    (textOf "delivery_id", uuidValue deliveryPublicId),
    (textOf "partner_id", uuidValue partnerPublicId),
    (textOf "endpoint_id", uuidValue endpointId),
    (textOf "event_type", strValue eventType),
    (textOf "attempt", .int attempt),
    (textOf "reason", reasonValue reason),
    (textOf "correlation_id", strValue correlationId)]

/-- `build_sla_breached_envelope`. -/
def buildSlaBreachedEnvelope (deliveryPublicId partnerPublicId : Uuid) (eventType correlationId :
    String) (slaDeadlineAt : Datetime) : List (Text × Value) :=
  [(textOf "schema_version", .int 1),
    (textOf "delivery_id", uuidValue deliveryPublicId),
    (textOf "partner_id", uuidValue partnerPublicId),
    (textOf "event_type", strValue eventType),
    (textOf "correlation_id", strValue correlationId),
    (textOf "sla_deadline_at", isoValue slaDeadlineAt)]

/-- The envelopes the hub builds. -/
inductive HubEnvelope where
  | inbound (eventId partnerPublicId : Uuid) (eventType : String) (payload : List (Text × Value))
      (idempotencyKey correlationId : String) (receivedAt : Datetime)
  | outbound (deliveryPublicId partnerPublicId endpointId : Uuid) (eventType : String)
      (payload : List (Text × Value)) (idempotencyKey correlationId : String)
      (scheduledAt slaDeadlineAt : Datetime) (attempt : Nat)
  | dlq (deliveryPublicId partnerPublicId endpointId : Uuid) (eventType : String)
      (reason : DeadLetterReason) (correlationId : String) (attempt : Nat)
  | slaBreached (deliveryPublicId partnerPublicId : Uuid) (eventType correlationId : String)
      (slaDeadlineAt : Datetime)

def HubEnvelope.members : HubEnvelope → List (Text × Value)
  | .inbound eventId partnerId eventType payload key correlationId receivedAt =>
    buildInboundEnvelope eventId partnerId eventType payload key correlationId receivedAt
  | .outbound deliveryId partnerId endpointId eventType payload key correlationId scheduledAt
      slaDeadlineAt attempt =>
    buildOutboundPendingEnvelope deliveryId partnerId endpointId eventType payload key correlationId
      scheduledAt slaDeadlineAt attempt
  | .dlq deliveryId partnerId endpointId eventType reason correlationId attempt =>
    buildDlqEnvelope deliveryId partnerId endpointId eventType reason correlationId attempt
  | .slaBreached deliveryId partnerId eventType correlationId slaDeadlineAt =>
    buildSlaBreachedEnvelope deliveryId partnerId eventType correlationId slaDeadlineAt

/-- The payload an envelope carries. -/
def HubEnvelope.payload : HubEnvelope → Option (List (Text × Value))
  | .inbound _ _ _ payload _ _ _ => some payload
  | .outbound _ _ _ _ payload _ _ _ _ _ => some payload
  | .dlq .. => none
  | .slaBreached .. => none

/-- How an envelope comes to the serializer. The relay sends what it reads from the column
`payload` of `outbox_events`; the worker sends the dict it has built, with the payload of the
delivery it has loaded. -/
inductive Handed (floats : FloatText) (e : HubEnvelope) : List (Text × Value) → Prop
  | relayed {dict : List (Text × Value)}
      (h : Stored floats (.object e.members) (.object dict)) : Handed floats e dict
  | sent (h : ∀ payload, e.payload = some payload → ∃ v, Stored floats v (.object payload)) :
      Handed floats e e.members

end Build

section Serializers

inductive SerializeError where
  | dumps (e : DumpsError)
  | unicodeEncodeError
  deriving DecidableEq, Repr

variable (lim : Limits) (floats : FloatText)

/-- `json.dumps(v).encode("utf-8")`, with the arguments of `dumps`. -/
def dumpBytes (style : Style) (v : Value) : Except SerializeError (List UInt8) :=
  match dumps lim floats style v with
  | .error e => .error (.dumps e)
  | .ok text =>
    match encodeUtf8 text with
    | none => .error .unicodeEncodeError
    | some bytes => .ok bytes

/-- `value_serializer`. -/
def valueSerializer (v : Value) : Except SerializeError (List UInt8) :=
  dumpBytes lim floats .plain v

/-- `value_deserializer`. -/
def valueDeserializer (bytes : List UInt8) : Except LoadsError Value :=
  match decodeStrict bytes with
  | none => .error .unicodeDecodeError
  | some text => (decodeText lim text).mapError .scan

end Serializers

section Read

/-- The characters of a `str` that has no surrogates. -/
def stringOf (text : Text) : Option String :=
  if ∀ c ∈ text, c.isValidChar then some (String.ofList (text.map Char.ofNat)) else none

/-- `envelope[key]`, where the value is a `str`; `none` stands for `KeyError` and for what a
caller raises on another value. -/
def envelopeText (envelope : Value) (key : String) : Option Text :=
  match envelope with
  | .object members =>
    match getMember members (textOf key) with
    | some (.string s) => some s
    | _ => none
  | _ => none

/-- `uuid.UUID(envelope["delivery_id"])`. -/
def readDeliveryId (envelope : Value) : Option Uuid :=
  ((envelopeText envelope "delivery_id").bind stringOf).bind Uuid.parse

/-- `datetime.fromisoformat(envelope["scheduled_at"])`. -/
def readScheduledAt (envelope : Value) : Option Datetime :=
  (envelopeText envelope "scheduled_at").bind fromisoformat

end Read

section Serializers

variable {lim : Limits} {floats : FloatText} {style : Style} {v w : Value} {bytes : List UInt8}

/-- The bytes are the characters of the text. -/
theorem dumpBytes_ok (hv : Valid v) :
    dumpBytes lim floats style v = .ok bytes ↔
      ∃ text, dumps lim floats style v = .ok text ∧ bytes = asciiBytes text := by
  unfold dumpBytes
  cases htext : dumps lim floats style v with
  | error e => simp
  | ok text => simp [encodeUtf8_ascii (asciiText_encodeOnce hv htext), eq_comm]

/-- What the producer serializes the worker deserializes, with its floats respelled. -/
theorem valueDeserializer_of_serialized (hv : Valid v)
    (h : valueSerializer lim floats v = .ok bytes) :
    valueDeserializer lim bytes = .ok (canonical floats .plain v) := by
  obtain ⟨text, htext, rfl⟩ := (dumpBytes_ok hv).mp h
  rw [valueDeserializer, decodeStrict_ascii (asciiText_encodeOnce hv htext)]
  dsimp only
  rw [decodeText_dumps hv htext]
  rfl

theorem valueSerializer_of_fits (floats : FloatText) (hv : Valid v) (h : Fits lim lim.depth v) :
    ∃ bytes, valueSerializer lim floats v = .ok bytes := by
  obtain ⟨text, htext⟩ := encodeOnce_of_fits floats .plain h
  exact ⟨asciiBytes text, (dumpBytes_ok hv).mpr ⟨text, htext, rfl⟩⟩

end Serializers

section ReadBack

variable {lim : Limits} {floats : FloatText} {bytes : List UInt8}

/-- The `delivery_id` an envelope is built with. -/
def HubEnvelope.deliveryId : HubEnvelope → Option Uuid
  | .inbound .. => none
  | .outbound deliveryId .. => some deliveryId
  | .dlq deliveryId .. => some deliveryId
  | .slaBreached deliveryId .. => some deliveryId

/-- The `scheduled_at` an envelope is built with. -/
def HubEnvelope.scheduledAt : HubEnvelope → Option Datetime
  | .outbound _ _ _ _ _ _ _ scheduledAt _ _ => some scheduledAt
  | _ => none

theorem scalarPoint_of_lt {c : Nat} (h : c < 128) : ScalarPoint c := by
  unfold ScalarPoint HighSurrogate LowSurrogate
  omega

theorem scalarPoint_textOf {s : String} : ∀ c ∈ textOf s, ScalarPoint c := by
  intro c hc
  obtain ⟨x, -, rfl⟩ := List.mem_map.mp hc
  have hvalid := x.valid
  unfold ScalarPoint HighSurrogate LowSurrogate
  rcases hvalid with h | h
  · have hlt : x.toNat < 0xd800 := h
    omega
  · have hlt : 0xdfff < x.toNat := h.1
    have hgt : x.toNat < 0x110000 := h.2
    omega

theorem wellPaired_textOf (s : String) : WellPaired (textOf s) :=
  wellPaired_of_points scalarPoint_textOf

theorem scalarPoint_padded {w n : Nat} : ∀ c ∈ padded w n, ScalarPoint c := by
  intro c hc
  have hdigit := List.all_eq_true.mp (digits_padded w n) c hc
  rw [isDigit, decide_eq_true_eq] at hdigit
  have h9 : '9'.toNat = 57 := rfl
  exact scalarPoint_of_lt (by omega)

theorem scalarPoint_isoformat (d : Datetime) : ∀ c ∈ isoformat d, ScalarPoint c := by
  have hseparator : ∀ c ∈ ['-', 'T', ':', '.'], ScalarPoint c.toNat := by
    intro c hc
    simp only [List.mem_cons, List.not_mem_nil, or_false] at hc
    rcases hc with rfl | rfl | rfl | rfl <;> exact scalarPoint_of_lt (by decide)
  have hfraction : ∀ c ∈ (if d.val.microsecond = 0 then [] else
      '.'.toNat :: padded 6 d.val.microsecond), ScalarPoint c := by
    split_ifs
    · simp
    · exact List.forall_mem_cons.mpr ⟨hseparator '.' (by simp), scalarPoint_padded⟩
  simp only [isoformat, List.forall_mem_append, List.forall_mem_cons]
  exact ⟨scalarPoint_padded, hseparator '-' (by simp), scalarPoint_padded,
    hseparator '-' (by simp), scalarPoint_padded, hseparator 'T' (by simp), scalarPoint_padded,
    hseparator ':' (by simp), scalarPoint_padded, hseparator ':' (by simp), scalarPoint_padded,
    hfraction, scalarPoint_textOf⟩

theorem valid_uuid (u : Uuid) : Valid (uuidValue u) :=
  .string (wellPaired_textOf _)

theorem valid_str (s : String) : Valid (strValue s) := .string (wellPaired_textOf s)

theorem valid_iso (d : Datetime) : Valid (isoValue d) :=
  .string (wellPaired_of_points (scalarPoint_isoformat d))

theorem valid_reason (r : DeadLetterReason) : Valid (reasonValue r) := by
  cases r <;> exact .string (wellPaired_textOf _)

/-- The keys of an envelope are different names. -/
theorem HubEnvelope.keys (e : HubEnvelope) :
    (e.members.map Prod.fst).Nodup ∧ ∀ m ∈ e.members, WellPaired m.1 := by
  constructor
  · cases e <;>
      simp only [HubEnvelope.members, buildInboundEnvelope, buildOutboundPendingEnvelope,
        buildDlqEnvelope, buildSlaBreachedEnvelope, List.map_cons, List.map_nil] <;> decide
  · cases e <;>
      simp only [HubEnvelope.members, buildInboundEnvelope, buildOutboundPendingEnvelope,
        buildDlqEnvelope, buildSlaBreachedEnvelope, List.forall_mem_cons, List.not_mem_nil,
        false_implies, implies_true, and_true, wellPaired_textOf]

/-- An envelope is as sound as its payload. -/
theorem HubEnvelope.valid {e : HubEnvelope}
    (h : ∀ payload, e.payload = some payload → Valid (.object payload)) :
    Valid (.object e.members) := by
  have hvalid : ∀ m ∈ e.members, Valid m.2 := by
    cases e <;>
      simp only [HubEnvelope.payload, Option.some.injEq, forall_eq', reduceCtorEq] at h <;>
      simp only [HubEnvelope.members, buildInboundEnvelope, buildOutboundPendingEnvelope,
        buildDlqEnvelope, buildSlaBreachedEnvelope, List.forall_mem_cons, List.not_mem_nil,
        false_implies, implies_true, and_true, valid_uuid, valid_str, valid_iso, valid_reason,
        Valid.int, h]
  exact .object e.keys.1 e.keys.2 hvalid

section Handed

variable {lim : Limits} {floats : FloatText} {e : HubEnvelope} {dict : List (Text × Value)}

theorem Handed.valid (h : Handed floats e dict) : Valid (.object dict) := by
  cases h with
  | relayed h => exact h.valid
  | sent h =>
    refine HubEnvelope.valid fun payload hp => ?_
    obtain ⟨v, hv⟩ := h payload hp
    exact hv.valid

theorem Handed.fits (h : Handed floats e dict) (hdigits : 309 ≤ lim.digits)
    (hfits : Fits lim lim.depth (.object e.members)) : Fits lim lim.depth (.object dict) := by
  cases h with
  | relayed h => exact h.fits hdigits hfits
  | sent h => exact hfits

theorem Handed.keys (h : Handed floats e dict) :
    (dict.map Prod.fst).Perm (e.members.map Prod.fst) := by
  cases h with
  | relayed h =>
    obtain ⟨dict', heq, hperm, -⟩ := h.of_object e.keys.1 e.keys.2
    obtain rfl := Value.object.inj heq
    exact hperm
  | sent h => exact List.Perm.refl _

/-- The texts of an envelope are handed over as they are. -/
theorem Handed.string (h : Handed floats e dict) {key s : Text} (hs : WellPaired s)
    (hm : (key, Value.string s) ∈ e.members) : (key, Value.string s) ∈ dict := by
  cases h with
  | relayed h =>
    obtain ⟨dict', heq, -, hmembers⟩ := h.of_object e.keys.1 e.keys.2
    obtain rfl := Value.object.inj heq
    obtain ⟨v, hv, hmem⟩ := hmembers _ hm
    rw [hv.of_string hs] at hmem
    exact hmem
  | sent h => exact hm

end Handed

theorem getMember_map (f : Value → Value) (members : List (Text × Value)) (key : Text) :
    getMember (members.map fun m => (m.1, f m.2)) key = (getMember members key).map f := by
  rw [getMember, getMember, List.find?_map, Option.map_map, Option.map_map]
  rfl

theorem getMember_of_mem {members : List (Text × Value)} {m : Text × Value}
    (hkeys : (members.map Prod.fst).Nodup) (hm : m ∈ members) :
    getMember members m.1 = some m.2 := by
  induction members with
  | nil => cases hm
  | cons m' members ih =>
    obtain ⟨hnew, hkeys⟩ := List.nodup_cons.mp hkeys
    rcases List.mem_cons.mp hm with rfl | hm
    · rw [getMember, List.find?_cons_of_pos (by simp)]
      rfl
    · have hne : m'.1 ≠ m.1 := fun heq => hnew (heq ▸ List.mem_map_of_mem hm)
      rw [getMember, List.find?_cons_of_neg (by simpa using hne), ← getMember]
      exact ih hkeys hm

theorem stringOf_textOf (s : String) : stringOf (textOf s) = some s := by
  have hvalid : ∀ c ∈ textOf s, c.isValidChar := by
    intro c hc
    obtain ⟨x, -, rfl⟩ := List.mem_map.mp hc
    exact x.valid
  have hchars : (textOf s).map Char.ofNat = s.toList := by
    rw [textOf, List.map_map]
    exact (List.map_congr_left fun c _ => Char.ofNat_toNat c).trans (List.map_id _)
  rw [stringOf, if_pos hvalid, hchars, String.ofList_toList]

theorem envelopeText_map (members : List (Text × Value)) (key : String) :
    envelopeText (.object (members.map fun m => (m.1, canonical floats .plain m.2))) key =
      envelopeText (.object members) key := by
  rw [envelopeText, envelopeText, getMember_map]
  cases getMember members (textOf key) with
  | none => rfl
  | some v => cases v <;> rfl

theorem envelopeText_of_mem {members : List (Text × Value)} {key : String} {s : Text}
    (hkeys : (members.map Prod.fst).Nodup) (h : (textOf key, Value.string s) ∈ members) :
    envelopeText (.object members) key = some s := by
  have hget := getMember_of_mem hkeys h
  rw [envelopeText, hget]

theorem envelopeText_of_not_mem {members : List (Text × Value)} {key : String}
    (h : textOf key ∉ members.map Prod.fst) : envelopeText (.object members) key = none := by
  have hget : getMember members (textOf key) = none := by
    rw [getMember, Option.map_eq_none_iff, List.find?_eq_none]
    intro m hm hkey
    exact h (List.mem_map.mpr ⟨m, hm, by simpa using hkey⟩)
  rw [envelopeText, hget]

theorem readDeliveryId_handed {e : HubEnvelope} {dict : List (Text × Value)}
    (h : Handed floats e dict) : readDeliveryId (.object dict) = e.deliveryId := by
  have hread : ∀ u, (textOf "delivery_id", uuidValue u) ∈ e.members →
      readDeliveryId (.object dict) = some u := by
    intro u hu
    have hmem := h.string (wellPaired_textOf _) hu
    rw [readDeliveryId, envelopeText_of_mem h.valid.of_object.1 hmem, Option.bind_some,
      stringOf_textOf, Option.bind_some, Uuid.parse_text]
  have hnone : textOf "delivery_id" ∉ e.members.map Prod.fst →
      readDeliveryId (.object dict) = none := by
    intro hkey
    rw [readDeliveryId, envelopeText_of_not_mem (mt h.keys.mem_iff.mp hkey)]
    rfl
  cases e with
  | inbound =>
    apply hnone
    simp only [HubEnvelope.members, buildInboundEnvelope, List.map_cons, List.map_nil]
    decide
  | outbound => exact hread _ (List.mem_cons_of_mem _ List.mem_cons_self)
  | dlq => exact hread _ (List.mem_cons_of_mem _ List.mem_cons_self)
  | slaBreached => exact hread _ (List.mem_cons_of_mem _ List.mem_cons_self)

theorem readScheduledAt_handed {e : HubEnvelope} {dict : List (Text × Value)}
    (h : Handed floats e dict) : readScheduledAt (.object dict) = e.scheduledAt := by
  have hread : ∀ d, (textOf "scheduled_at", isoValue d) ∈ e.members →
      readScheduledAt (.object dict) = some d := by
    intro d hd
    have hmem := h.string (wellPaired_of_points (scalarPoint_isoformat d)) hd
    rw [readScheduledAt, envelopeText_of_mem h.valid.of_object.1 hmem, Option.bind_some,
      fromisoformat_isoformat]
  have hnone : textOf "scheduled_at" ∉ e.members.map Prod.fst →
      readScheduledAt (.object dict) = none := by
    intro hkey
    rw [readScheduledAt, envelopeText_of_not_mem (mt h.keys.mem_iff.mp hkey)]
    rfl
  cases e with
  | outbound =>
    refine hread _ ?_
    simp only [HubEnvelope.members, buildOutboundPendingEnvelope, List.mem_cons, true_or, or_true]
  | inbound =>
    apply hnone
    simp only [HubEnvelope.members, buildInboundEnvelope, List.map_cons, List.map_nil]
    decide
  | dlq =>
    apply hnone
    simp only [HubEnvelope.members, buildDlqEnvelope, List.map_cons, List.map_nil]
    decide
  | slaBreached =>
    apply hnone
    simp only [HubEnvelope.members, buildSlaBreachedEnvelope, List.map_cons, List.map_nil]
    decide

end ReadBack

/-- Every envelope within the limits is serialized as it is handed over, and deserialized to the
same dict, key by key and in the same order, with only the floats respelled; the dict has the
keys the envelope was built with, and the worker reads the delivery id and the time of the
attempt that went into it. -/
theorem envelope_read_back (lim : Limits) (floats : FloatText) (e : HubEnvelope)
    (dict : List (Text × Value)) (hdigits : 309 ≤ lim.digits)
    (hfits : Fits lim lim.depth (.object e.members)) (h : Handed floats e dict) :
    ∃ bytes members, valueSerializer lim floats (.object dict) = .ok bytes ∧
      valueDeserializer lim bytes = .ok (.object members) ∧
      members.map Prod.fst = dict.map Prod.fst ∧
      (∀ m ∈ dict, getMember members m.1 = some (canonical floats .plain m.2)) ∧
      (dict.map Prod.fst).Perm (e.members.map Prod.fst) ∧
      readDeliveryId (.object members) = e.deliveryId ∧
      readScheduledAt (.object members) = e.scheduledAt := by
  obtain ⟨bytes, hbytes⟩ := valueSerializer_of_fits floats h.valid (h.fits hdigits hfits)
  have hread := valueDeserializer_of_serialized h.valid hbytes
  rw [canonical, canonicalMembers_eq] at hread
  generalize hback : (dict.map fun m => (m.1, canonical floats .plain m.2)) = members at hread
  refine ⟨bytes, members, hbytes, hread, ?_, ?_, h.keys, ?_, ?_⟩
  · rw [← hback, List.map_map]
    rfl
  · intro m hm
    rw [← hback, getMember_map, getMember_of_mem h.valid.of_object.1 hm]
    rfl
  · rw [← hback, ← readDeliveryId_handed h, readDeliveryId, readDeliveryId, envelopeText_map]
  · rw [← hback, ← readScheduledAt_handed h, readScheduledAt, readScheduledAt, envelopeText_map]

/-- A float that is spelled as its literal. -/
def literalFloats : FloatText where
  text t := t
  literal _ h := h
  stable _ _ := rfl

def pendingEnvelope : HubEnvelope :=
  .outbound 1 2 3 "order.created" [(textOf "total", .int 5), (textOf "currency", strValue "€")]
    "key" "correlation" ⟨⟨2026, 3, 16, 10, 30, 0, 250000⟩, by decide⟩
    ⟨⟨2026, 3, 16, 11, 0, 0, 0⟩, by decide⟩ 2

/-- JSONB keeps the members of a dict by the length of their keys and then by the keys. -/
def jsonbOrder (members : List (Text × Value)) : List (Text × Value) :=
  members.insertionSort fun m n =>
    m.1.length < n.1.length ∨ m.1.length = n.1.length ∧ m.1 ≤ n.1

theorem stored_text {floats : FloatText} {s : String} (h : ∀ c ∈ textOf s, c ≠ 0) :
    Stored floats (.string (textOf s)) (.string (textOf s)) :=
  .text fun c hc => ⟨scalarPoint_textOf c hc, h c hc⟩

theorem pendingEnvelope_handed :
    Handed literalFloats pendingEnvelope (jsonbOrder pendingEnvelope.members) := by
  have hpayload : Stored literalFloats
      (.object [(textOf "total", .int 5), (textOf "currency", strValue "€")])
      (.object [(textOf "total", .int 5), (textOf "currency", strValue "€")]) := by
    refine .reordered (by decide) (by decide) ?_ (List.Perm.refl _)
    simp only [List.forall_mem_cons, List.not_mem_nil, false_implies, implies_true, and_true]
    exact ⟨.int 5, stored_text (by decide)⟩
  refine .relayed (.reordered pendingEnvelope.keys.1 (by decide) ?_
    (List.perm_insertionSort _ _))
  simp only [pendingEnvelope, HubEnvelope.members, buildOutboundPendingEnvelope,
    List.forall_mem_cons, List.not_mem_nil, false_implies, implies_true, and_true]
  exact ⟨.int 1, stored_text (by decide +kernel), stored_text (by decide +kernel),
    stored_text (by decide +kernel), stored_text (by decide), .int 2, hpayload,
    stored_text (by decide), stored_text (by decide), .text (by decide +kernel),
    .text (by decide +kernel)⟩

/-- A pending envelope comes to the worker with its members in another order. -/
theorem envelope_read_back_pending :
    ∃ bytes members,
      valueSerializer ⟨1000, 4300⟩ literalFloats (.object (jsonbOrder pendingEnvelope.members)) =
        .ok bytes ∧
      valueDeserializer ⟨1000, 4300⟩ bytes = .ok (.object members) ∧
      (members.map Prod.fst).head? = some (textOf "attempt") ∧
      readDeliveryId (.object members) = pendingEnvelope.deliveryId ∧
      readScheduledAt (.object members) = pendingEnvelope.scheduledAt := by
  have hfits : Fits ⟨1000, 4300⟩ 1000 (.object pendingEnvelope.members) := by
    simp [pendingEnvelope, HubEnvelope.members, buildOutboundPendingEnvelope, Fits, uuidValue,
      strValue, isoValue]
    decide
  obtain ⟨bytes, members, hbytes, hread, hkeys, -, -, hid, hat⟩ :=
    envelope_read_back ⟨1000, 4300⟩ literalFloats pendingEnvelope
      (jsonbOrder pendingEnvelope.members) (by decide) hfits pendingEnvelope_handed
  refine ⟨bytes, members, hbytes, hread, ?_, hid, hat⟩
  rw [hkeys]
  decide

end PartnerHub.Kafka
