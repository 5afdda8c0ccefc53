import PartnerHub.Lib.Json.Loaded

/-!
# JSON texts as bytes

`str.encode` and `bytes.decode` with the error handler `strict`, and the decoding of
`json.loads` on the ASCII bytes that `json.dumps` leads to.
-/
namespace PartnerHub.Lib.Json

/-- The bytes of one character; a surrogate is a `UnicodeEncodeError`. -/
def encodePoint (c : Nat) : Option (List UInt8) :=
  if c < 0x80 then some [UInt8.ofNat c]
  else if c < 0x800 then some [UInt8.ofNat (0xc0 + c / 64), UInt8.ofNat (0x80 + c % 64)]
  else if HighSurrogate c ∨ LowSurrogate c then none
  else if c < 0x10000 then
    some [UInt8.ofNat (0xe0 + c / 4096), UInt8.ofNat (0x80 + c / 64 % 64),
      UInt8.ofNat (0x80 + c % 64)]
  else
    some [UInt8.ofNat (0xf0 + c / 262144), UInt8.ofNat (0x80 + c / 4096 % 64),
      UInt8.ofNat (0x80 + c / 64 % 64), UInt8.ofNat (0x80 + c % 64)]

/-- `text.encode("utf-8")`. -/
def encodeUtf8 (text : Text) : Option (List UInt8) := (text.mapM encodePoint).map List.flatten

/-- `bytes.decode("utf-8")`. -/
def decodeStrict (bytes : List UInt8) : Option Text :=
  (decodeUtf8 bytes).filter fun text => text.all fun c => ¬HighSurrogate c ∧ ¬LowSurrogate c

section Ascii

variable {text : Text}

def asciiBytes (text : Text) : List UInt8 := text.map UInt8.ofNat

theorem encodeUtf8_ascii (h : AsciiText text) : encodeUtf8 text = some (asciiBytes text) := by
  have hpoints : text.mapM encodePoint = some (text.map fun c => [UInt8.ofNat c]) := by
    induction text with
    | nil => rfl
    | cons c text ih =>
      obtain ⟨hc, htext⟩ := asciiText_cons.mp h
      have hpoint : encodePoint c = some [UInt8.ofNat c] := if_pos hc.2
      rw [List.mapM_cons, hpoint, ih htext]
      rfl
  rw [encodeUtf8, hpoints, Option.map_some, ← List.flatMap_def, ← List.map_eq_flatMap]
  rfl

theorem decodeUtf8_ascii (h : AsciiText text) : decodeUtf8 (asciiBytes text) = some text := by
  induction text with
  | nil => rfl
  | cons c text ih =>
    obtain ⟨hc, htext⟩ := asciiText_cons.mp h
    have hnat : (UInt8.ofNat c).toNat = c := by
      rw [UInt8.toNat_ofNat']
      omega
    have hlt : UInt8.ofNat c < 0x80 := by
      rw [UInt8.lt_iff_toNat_lt, hnat]
      exact hc.2
    rw [asciiBytes, List.map_cons, decodeUtf8.eq_def]
    simp only [if_pos hlt, hnat]
    rw [← asciiBytes, ih htext]
    rfl

theorem decodeStrict_ascii (h : AsciiText text) : decodeStrict (asciiBytes text) = some text := by
  have hall : (text.all fun c => decide (¬HighSurrogate c ∧ ¬LowSurrogate c)) = true := by
    rw [List.all_eq_true]
    intro c hc
    have hlt := (h c hc).2
    rw [decide_eq_true_eq]
    unfold HighSurrogate LowSurrogate
    omega
  rw [decodeStrict, decodeUtf8_ascii h, Option.filter_some, if_pos hall]

/-- Without a zero and without a byte order mark the text is taken for UTF-8. -/
theorem detectEncoding_ascii (h : AsciiText text) : detectEncoding (asciiBytes text) = .utf8 := by
  have hbyte : ∀ b ∈ asciiBytes text, 0 < b.toNat ∧ b.toNat < 128 := by
    intro b hb
    obtain ⟨c, hc, rfl⟩ := List.mem_map.mp hb
    obtain ⟨hpos, hlt⟩ := h c hc
    rw [UInt8.toNat_ofNat']
    omega
  have hmark : ∀ {a : UInt8} {mark : List UInt8}, a = 0 ∨ 128 ≤ a.toNat →
      ¬(a :: mark) <+: asciiBytes text := by
    intro a mark ha hstart
    have hb := hbyte a (hstart.subset List.mem_cons_self)
    rcases ha with rfl | ha
    · exact absurd hb.1 (by decide)
    · omega
  have hzero : ∀ b ∈ asciiBytes text, b ≠ 0 := by
    intro b hb hzero
    have hpos := (hbyte b hb).1
    rw [hzero] at hpos
    exact absurd hpos (by decide)
  have hzeros : detectFromZeros (asciiBytes text) = .utf8 := by
    unfold detectFromZeros
    split
    · rename_i a b c d rest heq
      rw [heq] at hzero
      rw [if_neg (hzero a (by simp)), if_neg (hzero b (by simp))]
    · rename_i a b heq
      rw [heq] at hzero
      rw [if_neg (hzero a (by simp)), if_neg (hzero b (by simp))]
    · rfl
  unfold detectEncoding
  rw [if_neg (not_or.mpr ⟨hmark (.inl rfl), hmark (.inr (by decide))⟩),
    if_neg (not_or.mpr ⟨hmark (.inr (by decide)), hmark (.inr (by decide))⟩),
    if_neg (hmark (.inr (by decide))), hzeros]

theorem decodeDetected_ascii (h : AsciiText text) :
    decodeDetected (asciiBytes text) = some text := by
  rw [decodeDetected, detectEncoding_ascii h]
  exact decodeUtf8_ascii h

theorem asciiBytes_lt (h : AsciiText text) : ∀ b ∈ asciiBytes text, b < 128 := by
  intro b hb
  obtain ⟨c, hc, rfl⟩ := List.mem_map.mp hb
  have hlt := (h c hc).2
  rw [UInt8.lt_iff_toNat_lt, UInt8.toNat_ofNat']
  have h128 : (128 : UInt8).toNat = 128 := rfl
  omega

theorem asciiBytes_injective {other : Text} (h : AsciiText text) (ho : AsciiText other)
    (heq : asciiBytes text = asciiBytes other) : text = other := by
  have hdecode := decodeUtf8_ascii h
  rw [heq, decodeUtf8_ascii ho] at hdecode
  exact (Option.some.inj hdecode).symm

end Ascii

end PartnerHub.Lib.Json
