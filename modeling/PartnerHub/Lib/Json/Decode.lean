import Mathlib

/-!
# The text of a JSON document given as bytes

`json.detect_encoding` of the Python library, and `bytes.decode` of the encodings it names with
the error handler `surrogatepass`. A text is the list of its code points: unlike a Lean
`String` it may hold surrogates that have lost their partner.
-/
namespace PartnerHub.Lib.Json

abbrev Text := List Nat

def textOf (s : String) : Text := s.toList.map Char.toNat

inductive Encoding where
  | utf8 | utf8Sig | utf16 | utf16be | utf16le | utf32 | utf32be | utf32le
  deriving DecidableEq, Repr

/-- The encoding of bytes without a byte order mark, from the zeros of the first character. -/
def detectFromZeros : List UInt8 → Encoding
  | a :: b :: c :: d :: _ =>
    if a = 0 then if b = 0 then .utf32be else .utf16be
    else if b = 0 then if c = 0 ∧ d = 0 then .utf32le else .utf16le
    else .utf8
  | [a, b] => if a = 0 then .utf16be else if b = 0 then .utf16le else .utf8
  | _ => .utf8

/-- `detect_encoding`. -/
def detectEncoding (bytes : List UInt8) : Encoding :=
  if [0x00, 0x00, 0xfe, 0xff] <+: bytes ∨ [0xff, 0xfe, 0x00, 0x00] <+: bytes then .utf32
  else if [0xfe, 0xff] <+: bytes ∨ [0xff, 0xfe] <+: bytes then .utf16
  else if [0xef, 0xbb, 0xbf] <+: bytes then .utf8Sig
  else detectFromZeros bytes

/-- A unit that may be half of a surrogate pair, or a code point that stands for itself. -/
inductive CodeUnit where
  | unit (value : Nat)
  | point (value : Nat)
  deriving DecidableEq, Repr

def HighSurrogate (n : Nat) : Prop := 0xd800 ≤ n ∧ n ≤ 0xdbff

def LowSurrogate (n : Nat) : Prop := 0xdc00 ≤ n ∧ n ≤ 0xdfff

instance (n : Nat) : Decidable (HighSurrogate n) := inferInstanceAs (Decidable (_ ∧ _))

instance (n : Nat) : Decidable (LowSurrogate n) := inferInstanceAs (Decidable (_ ∧ _))

/-- A high unit and a low one after it are one code point; any other unit stays as it is. -/
def joinSurrogates : List CodeUnit → Text
  | [] => []
  | .point c :: rest => c :: joinSurrogates rest
  | .unit high :: .unit low :: rest =>
    if HighSurrogate high ∧ LowSurrogate low then
      (0x10000 + (high - 0xd800) * 0x400 + (low - 0xdc00)) :: joinSurrogates rest
    else high :: joinSurrogates (.unit low :: rest)
  | .unit c :: rest => c :: joinSurrogates rest

/-- The value of bytes given most significant first. -/
def bigEndian (bytes : List UInt8) : Nat := bytes.foldl (fun n b => 256 * n + b.toNat) 0

def word (big : Bool) (bytes : List UInt8) : Nat := bigEndian (if big then bytes else bytes.reverse)

def units16 (big : Bool) : List UInt8 → Option (List CodeUnit)
  | [] => some []
  | [_] => none
  | a :: b :: rest => (units16 big rest).map (.unit (word big [a, b]) :: ·)

def decodeUtf16 (big : Bool) (bytes : List UInt8) : Option Text :=
  (units16 big bytes).map joinSurrogates

def decodeUtf32 (big : Bool) : List UInt8 → Option Text
  | [] => some []
  | a :: b :: c :: d :: rest =>
    let n := word big [a, b, c, d]
    if n ≤ 0x10ffff then (decodeUtf32 big rest).map (n :: ·) else none
  | _ => none

def Continuation (b : UInt8) : Prop := 0x80 ≤ b ∧ b ≤ 0xbf

instance (b : UInt8) : Decidable (Continuation b) := inferInstanceAs (Decidable (_ ∧ _))

/-- The first byte and the continuation bytes of a character. -/
def utf8Point (lead : Nat) (rest : List UInt8) : Nat :=
  rest.foldl (fun n b => 64 * n + (b.toNat - 0x80)) lead

/-- No encoding is longer than it has to be and none is beyond U+10FFFF; surrogates pass. -/
def decodeUtf8 : List UInt8 → Option Text
  | [] => some []
  | a :: rest =>
    if a < 0x80 then (decodeUtf8 rest).map (a.toNat :: ·)
    else if 0xc2 ≤ a ∧ a ≤ 0xdf then
      match rest with
      | b :: rest =>
        if Continuation b then
          (decodeUtf8 rest).map (utf8Point (a.toNat - 0xc0) [b] :: ·)
        else none
      | _ => none
    else if 0xe0 ≤ a ∧ a ≤ 0xef then
      match rest with
      | b :: c :: rest =>
        if Continuation b ∧ Continuation c ∧ (a = 0xe0 → 0xa0 ≤ b) then
          (decodeUtf8 rest).map (utf8Point (a.toNat - 0xe0) [b, c] :: ·)
        else none
      | _ => none
    else if 0xf0 ≤ a ∧ a ≤ 0xf4 then
      match rest with
      | b :: c :: d :: rest =>
        if Continuation b ∧ Continuation c ∧ Continuation d ∧ (a = 0xf0 → 0x90 ≤ b) ∧
            (a = 0xf4 → b ≤ 0x8f) then
          (decodeUtf8 rest).map (utf8Point (a.toNat - 0xf0) [b, c, d] :: ·)
        else none
      | _ => none
    else none

/-- The byte order mark of `utf-16` and `utf-32` tells the order and is dropped. -/
def Encoding.decode (bytes : List UInt8) : Encoding → Option Text
  | .utf8 => decodeUtf8 bytes
  | .utf8Sig => decodeUtf8 (bytes.drop 3)
  | .utf16 => decodeUtf16 (bytes.head? = some 0xfe) (bytes.drop 2)
  | .utf16be => decodeUtf16 true bytes
  | .utf16le => decodeUtf16 false bytes
  | .utf32 => decodeUtf32 (bytes.head? = some 0x00) (bytes.drop 4)
  | .utf32be => decodeUtf32 true bytes
  | .utf32le => decodeUtf32 false bytes

/-- `bytes.decode(detect_encoding(bytes), "surrogatepass")`; `none` is `UnicodeDecodeError`. -/
def decodeDetected (bytes : List UInt8) : Option Text :=
  (detectEncoding bytes).decode bytes

example : decodeDetected [0x7b, 0x7d] = some (textOf "\x7b\x7d") := by decide

example : decodeDetected [0x00, 0x7b, 0x00, 0x7d] = some (textOf "\x7b\x7d") := by decide

example : decodeDetected [0xed, 0xa0, 0x80] = some [0xd800] := by decide

example : decodeDetected [0xff] = none := by decide

end PartnerHub.Lib.Json
