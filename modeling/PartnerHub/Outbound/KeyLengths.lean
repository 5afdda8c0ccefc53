import PartnerHub.Inbound.Ingest
import PartnerHub.Outbound.Accept

/-!
# Keys and the columns they are stored in

`OutboundEventRequest` and the `Idempotency-Key` header bound a key from below only; the
columns it ends up in, as it is or with the endpoint's id behind it, are `VARCHAR(255)`. A
value that is too long is not an `IntegrityError`.
-/
namespace PartnerHub.Outbound

open PartnerHub.Domain PartnerHub.Inbound

/-- `uuid.UUID.version`: the four bits are read for the variant of RFC 4122 only. -/
def Uuid.version (u : Uuid) : Option Nat :=
  if u.toNat / 2 ^ 62 % 4 = 2 then some (u.toNat / 2 ^ 76 % 16) else none

/-- A body that passed validation. -/
structure OutboundEventRequest where
  partnerId : Uuid
  eventType : String
  payload : Payload
  idempotencyKey : String
  correlationId : Option Uuid
  idempotencyKey_minLength : 1 ≤ idempotencyKey.length
  correlationId_uuidv7 : ∀ u ∈ correlationId, Uuid.version u = some 7

/-- The call `create_outbound_event` makes; `contextId` is the correlation id of the HTTP
request. -/
def OutboundEventRequest.enqueueRequest (body : OutboundEventRequest) (contextId : String)
    (now : Time) (publicIds : Nat → Uuid) (createdAt : Time) : EnqueueRequest where
  partnerId := body.partnerId
  eventType := body.eventType
  payload := body.payload
  idempotencyKey := body.idempotencyKey
  correlationId := (body.correlationId.map Uuid.text).getD contextId
  now := now
  publicIds := publicIds
  createdAt := createdAt

/-- What PostgreSQL stores in a `VARCHAR(n)`: it cuts off spaces that are too many and refuses
other text that is too long. -/
def varchar (n : Nat) (text : String) : Option String :=
  if text.length ≤ n then some text
  else if ∀ c ∈ text.toList.drop n, c = ' ' then some (String.ofList (text.toList.take n))
  else none

/-- `String(255)` of `deliveries.idempotency_key`, `deliveries.source_event_id` and
`inbound_events.idempotency_key`. -/
def keyColumnLength : Nat := 255

/-- The keys of a new delivery are no longer than their columns. -/
structure KeysFit (d : Delivery) : Prop where
  idempotencyKey : d.idempotencyKey.length ≤ keyColumnLength
  sourceEventId : ∀ k ∈ d.sourceEventId, k.length ≤ keyColumnLength

/-- The INSERT of a delivery fails with `StringDataRightTruncation`. -/
def deliveryTruncated (d : Delivery) : Prop :=
  varchar keyColumnLength d.idempotencyKey = none ∨
    ∃ k ∈ d.sourceEventId, varchar keyColumnLength k = none

def inboundTruncated (e : InboundEvent) : Prop :=
  varchar keyColumnLength e.idempotencyKey = none

variable {n : Nat} {text : String}

theorem varchar_of_length_le (h : text.length ≤ n) : varchar n text = some text := if_pos h

/-- A text that does not end in a space is refused when it is too long. -/
theorem varchar_eq_none {c : Char} (hc : c ≠ ' ') {l : List Char} (htext : text.toList = l ++ [c])
    (h : n < text.length) : varchar n text = none := by
  have hlen : n ≤ l.length := by
    rw [← String.length_toList, htext, List.length_append, List.length_singleton] at h
    omega
  have hdrop : c ∈ text.toList.drop n := by
    rw [htext, List.drop_append_of_le_length hlen]
    exact List.mem_append_right _ (List.mem_singleton_self c)
  rw [varchar, if_neg (not_le.mpr h), if_neg fun hall => hc (hall c hdrop)]

theorem varchar_eq_none_iff {c : Char} (hc : c ≠ ' ') {l : List Char}
    (htext : text.toList = l ++ [c]) : varchar n text = none ↔ n < text.length := by
  constructor
  · intro hnone
    by_contra hle
    rw [varchar_of_length_le (not_lt.mp hle)] at hnone
    cases hnone
  · exact varchar_eq_none hc htext

/-- The endpoint's id adds 38 characters. -/
theorem derivedIdempotencyKey_length (key : String) (endpointId : Uuid) :
    (derivedIdempotencyKey key endpointId).length = key.length + 38 := by
  simp only [derivedIdempotencyKey, ← String.length_toList, String.toList_append,
    List.length_append, Uuid.text_length]
  rfl

/-- A derived key ends in a hexadecimal digit. -/
theorem derivedIdempotencyKey_last (key : String) (endpointId : Uuid) :
    ∃ l c, (derivedIdempotencyKey key endpointId).toList = l ++ [c] ∧ c ≠ ' ' := by
  obtain ⟨l, c, hlast⟩ : ∃ l c, (Uuid.text endpointId).toList = l ++ [c] :=
    (List.eq_nil_or_concat' (Uuid.text endpointId).toList).resolve_left fun hnil => by
      have hlen := Uuid.text_length endpointId
      rw [hnil] at hlen
      exact absurd hlen (by decide)
  refine ⟨key.toList ++ "::".toList ++ l, c, ?_, ?_⟩
  · simp only [derivedIdempotencyKey, String.toList_append, hlast, List.append_assoc]
  · rintro rfl
    have hmem : ' ' ∈ (Uuid.text endpointId).toList := by simp [hlast]
    have hhex : ' ' ∈ Uuid.hex endpointId := by
      rw [← Uuid.text_filter]
      exact List.mem_filter.mpr ⟨hmem, by decide⟩
    obtain ⟨i, -, hi⟩ := List.mem_map.mp hhex
    have hlt : endpointId.toNat / 16 ^ (31 - i) % 16 < 16 := Nat.mod_lt _ (by norm_num)
    interval_cases endpointId.toNat / 16 ^ (31 - i) % 16 <;> exact absurd hi (by decide)

/-- What is left after stripping ends in no space. -/
theorem strip_last {s : String} (h : strip s ≠ "") :
    ∃ l c, (strip s).toList = l ++ [c] ∧ c ≠ ' ' := by
  have hne : (s.toList.dropWhile isSpace).reverse.dropWhile isSpace ≠ [] := by
    intro hnil
    apply h
    rw [strip, stripChars, hnil]
    rfl
  obtain ⟨c, rest, hcons⟩ := List.exists_cons_of_ne_nil hne
  refine ⟨rest.reverse, c, ?_, ?_⟩
  · rw [strip, String.toList_ofList, stripChars, hcons, List.reverse_cons]
  rintro rfl
  have hhead := List.head_dropWhile_not isSpace hne
  simp only [hcons, List.head_cons] at hhead
  exact absurd hhead (by decide)

theorem keysFit_iff (partner : Partner) (endpoint : PartnerEndpoint) (req : EnqueueRequest)
    (publicId : Uuid) :
    KeysFit (buildPendingDelivery partner endpoint req publicId) ↔
      req.idempotencyKey.length ≤ 217 := by
  have hlen := derivedIdempotencyKey_length req.idempotencyKey endpoint.id
  constructor
  · intro hfit
    have hkey : (derivedIdempotencyKey req.idempotencyKey endpoint.id).length ≤ 255 :=
      hfit.idempotencyKey
    omega
  · intro hle
    refine ⟨?_, ?_⟩
    · change (derivedIdempotencyKey req.idempotencyKey endpoint.id).length ≤ 255
      omega
    · rintro k ⟨⟩
      change req.idempotencyKey.length ≤ 255
      omega

theorem deliveryTruncated_iff (partner : Partner) (endpoint : PartnerEndpoint)
    (req : EnqueueRequest) (publicId : Uuid) :
    deliveryTruncated (buildPendingDelivery partner endpoint req publicId) ↔
      217 < req.idempotencyKey.length := by
  have hlen := derivedIdempotencyKey_length req.idempotencyKey endpoint.id
  obtain ⟨l, c, hlast, hc⟩ := derivedIdempotencyKey_last req.idempotencyKey endpoint.id
  have hderived : varchar keyColumnLength (derivedIdempotencyKey req.idempotencyKey endpoint.id) =
      none ↔ 217 < req.idempotencyKey.length := by
    rw [varchar_eq_none_iff hc hlast, hlen, keyColumnLength]
    omega
  constructor
  · rintro (hnone | ⟨k, ⟨⟩, hnone⟩)
    · exact hderived.mp hnone
    · by_contra hle
      have hsource : req.idempotencyKey.length ≤ keyColumnLength := by
        unfold keyColumnLength
        omega
      cases (varchar_of_length_le hsource).symm.trans hnone
  · exact fun hlt => .inl (hderived.mpr hlt)

theorem inboundTruncated_iff (req : IngestRequest) :
    inboundTruncated req.inbound ↔ 255 < (strip req.idempotencyHeader).length := by
  change varchar keyColumnLength (strip req.idempotencyHeader) = none ↔ _
  by_cases hblank : strip req.idempotencyHeader = ""
  · rw [hblank]
    decide
  · obtain ⟨l, c, hlast, hc⟩ := strip_last hblank
    exact varchar_eq_none_iff hc hlast

/-- The keys of a delivery fit their columns exactly when the caller's key has at most 217
characters, else its INSERT is refused; for an inbound event the stripped header may have
255. -/
theorem keys_fit_iff (body : OutboundEventRequest) (contextId : String) (now : Time)
    (publicIds : Nat → Uuid) (createdAt : Time) (partner : Partner) (endpoint : PartnerEndpoint)
    (publicId : Uuid) (req : IngestRequest) :
    (let row := buildPendingDelivery partner endpoint
      (body.enqueueRequest contextId now publicIds createdAt) publicId
    ((KeysFit row ∧ ¬ deliveryTruncated row) ↔ body.idempotencyKey.length ≤ 217) ∧
      (deliveryTruncated row ↔ ¬ KeysFit row)) ∧
    ((req.inbound.idempotencyKey.length ≤ keyColumnLength ∧ ¬ inboundTruncated req.inbound) ↔
      (strip req.idempotencyHeader).length ≤ 255) ∧
      (inboundTruncated req.inbound ↔ ¬ req.inbound.idempotencyKey.length ≤ keyColumnLength) := by
  constructor
  · intro row
    have hfit : KeysFit row ↔ body.idempotencyKey.length ≤ 217 := keysFit_iff _ _ _ _
    have hcut : deliveryTruncated row ↔ 217 < body.idempotencyKey.length :=
      deliveryTruncated_iff _ _ _ _
    rw [hfit, hcut, not_lt, and_self, not_le]
    exact ⟨Iff.rfl, Iff.rfl⟩
  · have hfit : req.inbound.idempotencyKey.length ≤ keyColumnLength ↔
        (strip req.idempotencyHeader).length ≤ 255 := Iff.rfl
    rw [hfit, inboundTruncated_iff, not_lt, and_self, not_le]
    exact ⟨Iff.rfl, Iff.rfl⟩

/-- A key of 218 characters. -/
def overlongRequest : OutboundEventRequest where
  partnerId := 1
  eventType := "order.created"
  payload := ⟨"{}"⟩
  idempotencyKey := String.ofList (List.replicate 218 'k')
  correlationId := none
  idempotencyKey_minLength := by
    rw [String.length_ofList, List.length_replicate]
    norm_num
  correlationId_uuidv7 := by simp

theorem overlongRequest_length : overlongRequest.idempotencyKey.length = 218 := by
  rw [overlongRequest, String.length_ofList, List.length_replicate]

/-- It passes validation, and no endpoint's delivery can be inserted. -/
theorem overlong_key_refused : ¬ ∀ (body : OutboundEventRequest) (contextId : String) (now : Time)
    (publicIds : Nat → Uuid) (createdAt : Time) (partner : Partner) (endpoint : PartnerEndpoint)
    (publicId : Uuid),
    let row := buildPendingDelivery partner endpoint
      (body.enqueueRequest contextId now publicIds createdAt) publicId
    KeysFit row ∧ ¬ deliveryTruncated row := by
  intro h
  have hfit := (h overlongRequest "c" 0 (fun _ => 2) 0
    ⟨1, 1, "acme", .active, 60, 100, false⟩
    ⟨3, 1, .outbound, "https://acme.example/hook", ["order.created"], .active, none, 3, []⟩ 2).1
  rw [keysFit_iff] at hfit
  have hlen := overlongRequest_length
  simp only [OutboundEventRequest.enqueueRequest] at hfit
  omega

end PartnerHub.Outbound
