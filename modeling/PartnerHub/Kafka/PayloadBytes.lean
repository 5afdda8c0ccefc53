import PartnerHub.Domain.Wire
import PartnerHub.Kafka.Envelopes

/-!
# The bytes of a payload

`serialize_payload` of `http_client.py`, which is signed and posted, and `canonical_payload_hash`
of `delivery_service.py`. Both write a dict with sorted keys and without spaces, so that two
dicts have the same bytes exactly when they are equal, where an integer is no float and no
string holds a surrogate pair as two characters. The rest of the model stands on this: it takes a
payload for the text that is posted.
-/
namespace PartnerHub.Kafka

open PartnerHub.Domain PartnerHub.Lib.Json

/-- A dict whose strings hold no high surrogate before a low one. -/
structure PayloadDict where
  members : List (Text × Value)
  valid : Valid (.object members)

/-- The payload of a delivery, as it is read from its column. -/
def PayloadDict.loaded {floats : FloatText} {v : Value} {members : List (Text × Value)}
    (h : Stored floats v (.object members)) : PayloadDict :=
  ⟨members, h.valid⟩

/-- A surrogate pair has the bytes of the character it stands for. -/
example : dumps ⟨1000, 4300⟩ literalFloats .compact (.string [0xd83d, 0xde00]) =
    dumps ⟨1000, 4300⟩ literalFloats .compact (.string [0x1f600]) := by
  decide

section Bytes

variable (lim : Limits) (floats : FloatText)

/-- `serialize_payload`. -/
def PayloadDict.serializePayload (payload : PayloadDict) : Except SerializeError (List UInt8) :=
  dumpBytes lim floats .compact (.object payload.members)

/-- `canonical_payload_hash`. -/
def PayloadDict.canonicalPayloadHash (sha256 : List UInt8 → List UInt8) (payload : PayloadDict) :
    Except SerializeError String :=
  (dumpBytes lim floats .compact (.object payload.members)).map fun raw => hexdigest (sha256 raw)

/-- The payload as the rest of the model has it. -/
def PayloadDict.payload (payload : PayloadDict) : Option Payload :=
  match dumps lim floats .compact (.object payload.members) with
  | .ok text => (stringOf text).map Payload.mk
  | .error _ => none

end Bytes

/-- The two dicts have the same keys with the same values, whatever the order of the keys at any
depth and however their floats are spelled; an integer and a float are different values. -/
def SameDict (floats : FloatText) (payload other : PayloadDict) : Prop :=
  (canonicalMembers floats .compact other.members).Perm
    (canonicalMembers floats .compact payload.members)

section Bytes

variable {lim : Limits} {floats : FloatText} {payload : PayloadDict} {body : List UInt8}

theorem serializePayload_ok : payload.serializePayload lim floats = .ok body ↔
    ∃ text, dumps lim floats .compact (.object payload.members) = .ok text ∧
      body = asciiBytes text :=
  dumpBytes_ok payload.valid

/-- The body is ASCII, `json.loads` reads the payload from it, and exactly the dicts that are
equal to the payload have it. -/
theorem serializePayload_spec (other : PayloadDict)
    (h : payload.serializePayload lim floats = .ok body) :
    (∀ b ∈ body, b < 128) ∧
      loads lim body = .ok (canonical floats .compact (.object payload.members)) ∧
      (other.serializePayload lim floats = .ok body ↔ SameDict floats payload other) := by
  obtain ⟨text, htext, rfl⟩ := serializePayload_ok.mp h
  have hascii := asciiText_encodeOnce payload.valid htext
  refine ⟨asciiBytes_lt hascii, ?_, ?_⟩
  · rw [loads, decodeDetected_ascii hascii]
    dsimp only
    rw [decodeText_dumps payload.valid htext]
    rfl
  · rw [SameDict, ← canonical_object_iff rfl payload.valid.of_object.1,
      ← dumps_eq_iff payload.valid other.valid htext, serializePayload_ok]
    constructor
    · intro hother
      obtain ⟨text', htext', hbytes⟩ := hother
      rw [htext', asciiBytes_injective hascii (asciiText_encodeOnce other.valid htext') hbytes]
    · intro hother
      exact ⟨text, hother, rfl⟩

theorem utf8EncodeChar_ascii {c : Nat} (h : c < 128) :
    String.utf8EncodeChar (Char.ofNat c) = [UInt8.ofNat c] := by
  have hval : (Char.ofNat c).val.toNat = c := by
    change (Char.ofNat c).toNat = c
    rw [Char.toNat_ofNat, if_pos (Or.inl (by omega))]
  simp only [String.utf8EncodeChar]
  rw [if_pos (by omega), hval]

/-- An ASCII text is a string of the same bytes. -/
theorem stringOf_ascii {text : Text} (h : AsciiText text) :
    ∃ s, stringOf text = some s ∧ s.toUTF8.toList = asciiBytes text := by
  have hvalid : ∀ c ∈ text, c.isValidChar := fun c hc => .inl ((h c hc).2.trans (by decide))
  refine ⟨String.ofList (text.map Char.ofNat), if_pos hvalid, ?_⟩
  rw [toUTF8_toList, String.toList_ofList, List.flatMap_map, asciiBytes, List.map_eq_flatMap]
  apply List.flatMap_congr
  intro c hc
  exact utf8EncodeChar_ascii (h c hc).2

/-- The text that stands for a payload elsewhere is posted as the bytes of the dict, and stands
for the dicts that are equal to it. -/
theorem payload_text (other : PayloadDict) (h : payload.serializePayload lim floats = .ok body) :
    ∃ p, payload.payload lim floats = some p ∧ Domain.serializePayload p = body ∧
      (other.payload lim floats = some p ↔ SameDict floats payload other) := by
  obtain ⟨text, htext, rfl⟩ := serializePayload_ok.mp h
  have hascii := asciiText_encodeOnce payload.valid htext
  obtain ⟨s, hs, hbytes⟩ := stringOf_ascii hascii
  have hpayload : payload.payload lim floats = some ⟨s⟩ := by
    rw [PayloadDict.payload, htext]
    dsimp only
    rw [hs]
    rfl
  refine ⟨⟨s⟩, hpayload, hbytes, ?_⟩
  rw [← (serializePayload_spec other h).2.2, serializePayload_ok]
  constructor
  · intro hother
    unfold PayloadDict.payload at hother
    cases htext' : dumps lim floats .compact (.object other.members) with
    | error e => simp [htext'] at hother
    | ok text' =>
      rw [htext'] at hother
      obtain ⟨s', hs', heq⟩ := Option.map_eq_some_iff.mp hother
      obtain rfl := Payload.mk.inj heq
      obtain ⟨s'', hs'', hbytes'⟩ := stringOf_ascii (asciiText_encodeOnce other.valid htext')
      obtain rfl := Option.some.inj (hs'.symm.trans hs'')
      exact ⟨text', rfl, hbytes.symm.trans hbytes'⟩
  · intro hother
    obtain ⟨text', htext', hsame⟩ := hother
    obtain rfl := asciiBytes_injective hascii (asciiText_encodeOnce other.valid htext') hsame
    rw [PayloadDict.payload, htext']
    dsimp only
    rw [hs]
    rfl

end Bytes

/-- A payload within the limits is posted as ASCII bytes from which `json.loads` reads it with
its keys sorted, and its hash is the hash of these bytes; another payload has the same bytes, and
so the same hash and the same signature, exactly when it is equal to it as a dict. -/
theorem payload_bytes (lim : Limits) (floats : FloatText) (payload other : PayloadDict)
    (h : Fits lim lim.depth (.object payload.members)) :
    ∃ body p, payload.serializePayload lim floats = .ok body ∧ (∀ b ∈ body, b < 128) ∧
      loads lim body = .ok (canonical floats .compact (.object payload.members)) ∧
      (∀ sha256, payload.canonicalPayloadHash lim floats sha256 = .ok (hexdigest (sha256 body))) ∧
      payload.payload lim floats = some p ∧ Domain.serializePayload p = body ∧
      (other.serializePayload lim floats = .ok body ↔ SameDict floats payload other) ∧
      (other.payload lim floats = some p ↔ SameDict floats payload other) := by
  obtain ⟨text, htext⟩ := encodeOnce_of_fits floats .compact h
  have hbody := serializePayload_ok.mpr ⟨text, htext, rfl⟩
  obtain ⟨hascii, hloads, hsame⟩ := serializePayload_spec other hbody
  obtain ⟨p, hp, hbytes, hother⟩ := payload_text other hbody
  refine ⟨asciiBytes text, p, hbody, hascii, hloads, fun sha256 => ?_, hp, hbytes, hsame, hother⟩
  rw [PayloadDict.canonicalPayloadHash, ← PayloadDict.serializePayload, hbody]
  rfl

def orderMembers : List (Text × Value) :=
  [(textOf "total", .int 5), (textOf "currency", strValue "€")]

theorem orderMembers_stored {members : List (Text × Value)} (h : members.Perm orderMembers) :
    Stored literalFloats (.object orderMembers) (.object members) := by
  refine .reordered (by decide) (by decide) ?_ h
  simp only [orderMembers, List.forall_mem_cons, List.not_mem_nil, false_implies, implies_true,
    and_true]
  exact ⟨.int 5, stored_text (by decide)⟩

def orderPayload : PayloadDict := .loaded (orderMembers_stored (List.Perm.refl _))

def orderPayloadReversed : PayloadDict := .loaded (orderMembers_stored (List.reverse_perm _))

theorem payload_bytes_order :
    ∃ body, orderPayload.serializePayload ⟨1000, 4300⟩ literalFloats = .ok body ∧
      (∀ b ∈ body, b < 128) ∧
      loads ⟨1000, 4300⟩ body =
        .ok (canonical literalFloats .compact (.object orderPayload.members)) ∧
      orderPayloadReversed.serializePayload ⟨1000, 4300⟩ literalFloats = .ok body := by
  have hfits : Fits ⟨1000, 4300⟩ 1000 (.object orderPayload.members) := by
    simp only [orderPayload, PayloadDict.loaded, orderMembers, strValue, Fits, List.forall_mem_cons,
      List.not_mem_nil, false_implies, implies_true, and_true]
    decide
  obtain ⟨body, p, hbody, hascii, hloads, -, -, -, hsame, -⟩ :=
    payload_bytes ⟨1000, 4300⟩ literalFloats orderPayload orderPayloadReversed hfits
  refine ⟨body, hbody, hascii, hloads, hsame.mpr ?_⟩
  rw [SameDict, canonicalMembers_eq, canonicalMembers_eq]
  exact (List.reverse_perm orderMembers).map _

end PartnerHub.Kafka
