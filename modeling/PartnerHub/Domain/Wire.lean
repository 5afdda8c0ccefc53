import PartnerHub.Domain.Rules
import PartnerHub.Domain.Text

/-!
# The texts of an outbound POST

`hmac_service.sign` and the request `http_client.py` builds, with the two ways a text can
be refused: httpx encodes every header value as ASCII before it sends anything, and
PostgreSQL takes no U+0000 and nothing that is not UTF-8.
-/
namespace PartnerHub.Domain

def Ascii (text : String) : Prop := ∀ c ∈ text.toList, c.toNat < 128

instance (text : String) : Decidable (Ascii text) :=
  inferInstanceAs (Decidable (∀ c ∈ text.toList, c.toNat < 128))

/-- `bytes.hex()`, which `hexdigest` returns. -/
def hexdigest (bytes : List UInt8) : String :=
  String.ofList (bytes.flatMap fun b =>
    [Nat.digitChar (b.toNat / 16), Nat.digitChar (b.toNat % 16)])

def signedPayload (timestamp : String) (body : List UInt8) : List UInt8 :=
  (timestamp ++ ".").toUTF8.toList ++ body

/-- `sign`; `digest` is HMAC-SHA256. -/
def sign (digest : Secret → List UInt8 → List UInt8) (secret : Secret) (timestamp : String)
    (body : List UInt8) : String :=
  "sha256=" ++ hexdigest (digest secret (signedPayload timestamp body))

/-- `serialize_payload`. -/
def serializePayload (payload : Payload) : List UInt8 := payload.text.toUTF8.toList

/-- `str(int(current_time.timestamp()))`: `int` rounds towards zero. -/
def timestampText (now : Time) : String := toString (now.num.tdiv now.den)

/-- `build_outbound_headers`. -/
def buildOutboundHeaders (digest : Secret → List UInt8 → List UInt8)
    (deliveryPublicId eventType timestamp : String) (bodyBytes : List UInt8)
    (signingSecret : Secret) (idempotencyKey correlationId : String) : List (String × String) :=
  [("Content-Type", "application/json"),
    ("X-Hub-Delivery-Id", deliveryPublicId),
    ("X-Hub-Event-Type", eventType),
    ("X-Hub-Timestamp", timestamp),
    ("X-Hub-Signature-256", sign digest signingSecret timestamp bodyBytes),
    ("Idempotency-Key", idempotencyKey),
    ("X-Correlation-Id", correlationId)]

/-- `http_client.post`: a header value that is not ASCII raises, else the call does whatever
the URL, the connection and the partner make of it. -/
def httpxPost (headers : List (String × String)) (reply : HttpxReply) : HttpxReply :=
  if ∀ h ∈ headers, Ascii h.2 then reply else .otherException "UnicodeEncodeError"

section Ascii

theorem ascii_append {a b : String} : Ascii (a ++ b) ↔ Ascii a ∧ Ascii b := by
  simp only [Ascii, String.toList_append, List.mem_append, or_imp, forall_and]

theorem digitChar_lt {a : Nat} (ha : a < 16) : (Nat.digitChar a).toNat < 128 := by
  interval_cases a <;> decide

theorem ascii_uuid (u : Uuid) : Ascii (Uuid.text u) := by
  intro c hc
  by_cases hd : c = '-'
  · rw [hd]
    decide
  · have hhex : c ∈ (Uuid.text u).toList.filter (· ≠ '-') := by simp [hc, hd]
    rw [Uuid.text_filter] at hhex
    obtain ⟨i, -, rfl⟩ := List.mem_map.mp hhex
    exact digitChar_lt (Nat.mod_lt _ (by norm_num))

theorem ascii_hexdigest (bytes : List UInt8) : Ascii (hexdigest bytes) := by
  intro c hc
  rw [hexdigest, String.toList_ofList] at hc
  obtain ⟨b, -, hb⟩ := List.mem_flatMap.mp hc
  have hlt : b.toNat < 256 := b.toNat_lt
  rcases List.mem_cons.mp hb with rfl | hb
  · exact digitChar_lt (by omega)
  · rw [List.mem_singleton.mp hb]
    exact digitChar_lt (by omega)

/-- A decimal digit is ASCII and not U+0000. -/
theorem digit_of_mem_repr {n : Nat} {c : Char} (h : c ∈ (Nat.repr n).toList) :
    c.toNat < 128 ∧ c.toNat ≠ 0 := by
  have hd := Nat.isDigit_of_mem_toDigits (by norm_num) (by norm_num)
    (by simpa [Nat.repr] using h : c ∈ Nat.toDigits 10 n)
  have hrange : 48 ≤ c.toNat ∧ c.toNat ≤ 57 := by
    simpa [Char.isDigit, UInt32.le_iff_toNat_le] using hd
  omega

theorem ascii_timestamp (now : Time) : Ascii (timestampText now) := by
  unfold timestampText
  cases now.num.tdiv now.den with
  | ofNat n => exact fun c hc => (digit_of_mem_repr hc).1
  | negSucc n =>
    refine ascii_append.mpr ⟨by simp [Ascii], ?_⟩
    exact fun c hc => (digit_of_mem_repr hc).1

/-- Of the seven values only the three the caller chose can fail to be ASCII. -/
theorem headers_ascii_iff (digest : Secret → List UInt8 → List UInt8) (publicId : Uuid)
    (now : Time) (body : List UInt8) (secret : Secret)
    (eventType idempotencyKey correlationId : String) :
    (∀ h ∈ buildOutboundHeaders digest (Uuid.text publicId) eventType (timestampText now) body
        secret idempotencyKey correlationId, Ascii h.2) ↔
      Ascii eventType ∧ Ascii idempotencyKey ∧ Ascii correlationId := by
  have hsign : Ascii (sign digest secret (timestampText now) body) :=
    ascii_append.mpr ⟨by simp [Ascii], ascii_hexdigest _⟩
  have hcontent : Ascii "application/json" := by simp [Ascii]
  simp only [buildOutboundHeaders, List.forall_mem_cons, List.not_mem_nil, false_implies,
    implies_true, and_true, hcontent, ascii_uuid, ascii_timestamp, hsign, true_and]

end Ascii

section Storable

/-- Characters are no surrogates. -/
@[simp] theorem storable_ofString {text : String} :
    Storable (PyStr.ofString text) ↔ ∀ c ∈ text.toList, c.toNat ≠ 0 := by
  constructor
  · intro h c hc
    exact (h _ (List.mem_map_of_mem hc)).1
  · intro h c hc
    obtain ⟨x, hx, rfl⟩ := List.mem_map.mp hc
    refine ⟨h x hx, ?_⟩
    show ¬ (0xD800 ≤ x.toNat ∧ x.toNat ≤ 0xDFFF)
    rcases x.valid with hlow | ⟨hhigh, -⟩
    · have : x.toNat < 0xD800 := hlow
      omega
    · have : 0xDFFF < x.toNat := hhigh
      omega

theorem storable_truncate {text : PyStr} (h : Storable text) :
    Storable (truncateResponseBody text) := by
  unfold truncateResponseBody
  split
  · exact h
  · exact fun c hc => h c (List.mem_of_mem_take hc)

theorem storable_orElseStr {a b : PyStr} (ha : Storable a) (hb : Storable b) :
    Storable (orElseStr a b) := by
  unfold orElseStr
  split
  · exact hb
  · exact ha

theorem storable_orElseText {a b : String} (ha : Storable a) (hb : Storable b) :
    Storable (orElseText a b) := by
  unfold orElseText
  split
  · exact hb
  · exact ha

theorem storable_orElseCode (code : Option Nat) {b : String} (hb : Storable b) :
    Storable (orElseCode code b) := by
  unfold orElseCode
  split
  · exact storable_ofString.mpr fun c hc => (digit_of_mem_repr hc).2
  · exact hb

end Storable

end PartnerHub.Domain
