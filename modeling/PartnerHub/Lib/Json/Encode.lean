import PartnerHub.Lib.Json.Grammar

/-!
# `json.dumps`

The encoder of the Python library with `ensure_ascii`, on the values the scanner returns. Like
the scanner it nests as deep as the interpreter's stack allows and writes integers of a bounded
number of digits. How a float is spelled is left to the interpreter.
-/
namespace PartnerHub.Lib.Json

section Strings

/-- `ESCAPE_DCT`. -/
def shortEscape (c : Nat) : Option Nat :=
  [(0x5c, '\\'), (0x22, '"'), (0x08, 'b'), (0x0c, 'f'), (0x0a, 'n'), (0x0d, 'r'),
    (0x09, 't')].findSome? fun (e : Nat × Char) => if e.1 = c then some e.2.toNat else none

def lowerHex (d : Nat) : Nat := if d < 10 then '0'.toNat + d else 'a'.toNat + (d - 10)

/-- `'\\u{0:04x}'.format(n)`. -/
def unicodeEscape (n : Nat) : Text :=
  ['\\'.toNat, 'u'.toNat, lowerHex (n / 4096 % 16), lowerHex (n / 256 % 16),
    lowerHex (n / 16 % 16), lowerHex (n % 16)]

def highSurrogate (c : Nat) : Nat := 0xd800 + (c - 0x10000) / 0x400

def lowSurrogate (c : Nat) : Nat := 0xdc00 + (c - 0x10000) % 0x400

/-- `replace` of `py_encode_basestring_ascii`, or the character itself. -/
def escapeChar (c : Nat) : Text :=
  match shortEscape c with
  | some e => ['\\'.toNat, e]
  | none =>
    if 0x20 ≤ c ∧ c ≤ 0x7e then [c]
    else if c < 0x10000 then unicodeEscape c
    else unicodeEscape (highSurrogate c) ++ unicodeEscape (lowSurrogate c)

/-- `encode_basestring_ascii`. -/
def quote (s : Text) : Text := '"'.toNat :: (s.flatMap escapeChar ++ ['"'.toNat])

end Strings

section Numbers

/-- The decimal digits of a number. -/
def digitsText (n : Nat) : Text := (Nat.toDigits 10 n).map Char.toNat

inductive DumpsError where
  | recursionError
  | valueError
  deriving DecidableEq, Repr

/-- `int.__repr__`. -/
def intText (lim : Limits) (n : Int) : Except DumpsError Text :=
  if lim.digits < (digitsText n.natAbs).length then .error .valueError
  else .ok (if n < 0 then '-'.toNat :: digitsText n.natAbs else digitsText n.natAbs)

/-- The scanner reads the text as a float, and keeps it. -/
def FloatLiteral (t : Text) : Prop := (t, Value.float t) ∈ constants ∨ Number t (.float t)

/-- `floatstr`, from a literal to the spelling of its float: that is a literal of a float too,
and of the same one. -/
structure FloatText where
  text : Text → Text
  literal : ∀ t, FloatLiteral t → FloatLiteral (text t)
  stable : ∀ t, FloatLiteral t → text (text t) = text t

end Numbers

/-- `separators` and `sort_keys`. -/
structure Style where
  itemSpace : Text
  keySpace : Text
  sortKeys : Bool
  item_whitespace : Whitespace itemSpace
  key_whitespace : Whitespace keySpace

/-- `separators=(",", ":")`, `sort_keys=True`. -/
def Style.compact : Style where
  itemSpace := []
  keySpace := []
  sortKeys := true
  item_whitespace := by simp [Whitespace]
  key_whitespace := by simp [Whitespace]

/-- Without arguments: `(", ", ": ")`, and the keys as they stand in the dict. -/
def Style.plain : Style where
  itemSpace := [0x20]
  keySpace := [0x20]
  sortKeys := false
  item_whitespace := by simp [Whitespace, isWhitespace]
  key_whitespace := by simp [Whitespace, isWhitespace]

def Style.itemSeparator (style : Style) : Text := ','.toNat :: style.itemSpace

def Style.keySeparator (style : Style) : Text := ':'.toNat :: style.keySpace

/-- `sorted(dct.items())`, where the keys differ. -/
def sortMembers (members : List (Text × Value)) : List (Text × Value) :=
  members.insertionSort fun m n => m.1 ≤ n.1

def Style.order (style : Style) (members : List (Text × Value)) : List (Text × Value) :=
  if style.sortKeys then sortMembers members else members

section Encoder

variable (lim : Limits) (floats : FloatText) (style : Style)

def encodeMember (encode : Value → Except DumpsError Text) (m : Text × Value) :
    Except DumpsError Text := do
  let text ← encode m.2
  return quote m.1 ++ style.keySeparator ++ text

def bracket (opening closing : Char) (texts : List Text) : Text :=
  opening.toNat :: (style.itemSeparator.intercalate texts ++ [closing.toNat])

/-- `_iterencode` with room for this much nesting. -/
def encodeOnce : Nat → Value → Except DumpsError Text
  | _, .null => .ok (textOf "null")
  | _, .bool true => .ok (textOf "true")
  | _, .bool false => .ok (textOf "false")
  | _, .int n => intText lim n
  | _, .float t => .ok (floats.text t)
  | _, .string s => .ok (quote s)
  | 0, .array _ => .error .recursionError
  | 0, .object _ => .error .recursionError
  | depth + 1, .array items => do
    let texts ← items.mapM (encodeOnce depth)
    return bracket style '[' ']' texts
  | depth + 1, .object members => do
    let texts ← (style.order members).mapM (encodeMember style (encodeOnce depth))
    return bracket style '{' '}' texts

/-- `json.dumps`. -/
def dumps (v : Value) : Except DumpsError Text := encodeOnce lim floats style lim.depth v

end Encoder

section Canonical

variable (floats : FloatText) (style : Style)

mutual

/-- The value with its floats spelled and its keys ordered as the encoder does. -/
def canonical : Value → Value
  | .null => .null
  | .bool b => .bool b
  | .int n => .int n
  | .float t => .float (floats.text t)
  | .string s => .string s
  | .array items => .array (canonicalItems items)
  | .object members => .object (style.order (canonicalMembers members))

def canonicalItems : List Value → List Value
  | [] => []
  | v :: items => canonical v :: canonicalItems items

def canonicalMembers : List (Text × Value) → List (Text × Value)
  | [] => []
  | (key, v) :: members => (key, canonical v) :: canonicalMembers members

end

end Canonical

/-- A text of code points in which no high surrogate stands before a low one. -/
def WellPaired (s : Text) : Prop :=
  (∀ c ∈ s, c ≤ 0x10ffff) ∧ s.IsChain fun a b => ¬(HighSurrogate a ∧ LowSurrogate b)

/-- What a Python value can be: the keys of a dict differ. -/
inductive Valid : Value → Prop
  | null : Valid .null
  | bool (b : Bool) : Valid (.bool b)
  | int (n : Int) : Valid (.int n)
  | float {t : Text} (h : FloatLiteral t) : Valid (.float t)
  | string {s : Text} (h : WellPaired s) : Valid (.string s)
  | array {items : List Value} (h : ∀ v ∈ items, Valid v) : Valid (.array items)
  | object {members : List (Text × Value)} (hkeys : (members.map Prod.fst).Nodup)
      (hpaired : ∀ m ∈ members, WellPaired m.1) (h : ∀ m ∈ members, Valid m.2) :
      Valid (.object members)

theorem Valid.of_array {items : List Value} (h : Valid (.array items)) : ∀ v ∈ items, Valid v := by
  cases h with
  | array h => exact h

theorem Valid.of_object {members : List (Text × Value)} (h : Valid (.object members)) :
    (members.map Prod.fst).Nodup ∧ (∀ m ∈ members, WellPaired m.1) ∧ ∀ m ∈ members, Valid m.2 := by
  cases h with
  | object hkeys hpaired h => exact ⟨hkeys, hpaired, h⟩

section Canonical

variable {floats : FloatText} {style : Style}

theorem canonicalItems_eq (items : List Value) :
    canonicalItems floats style items = items.map (canonical floats style) := by
  induction items with
  | nil => rfl
  | cons v items ih => rw [canonicalItems, List.map_cons, ih]

theorem canonicalMembers_eq (members : List (Text × Value)) :
    canonicalMembers floats style members =
      members.map fun m => (m.1, canonical floats style m.2) := by
  induction members with
  | nil => rfl
  | cons m members ih => rw [canonicalMembers, List.map_cons, ih]

theorem perm_order (style : Style) (members : List (Text × Value)) :
    (style.order members).Perm members := by
  unfold Style.order
  split
  · exact List.perm_insertionSort _ members
  · exact List.Perm.refl members

theorem mem_order {members : List (Text × Value)} {m : Text × Value} :
    m ∈ style.order members ↔ m ∈ members :=
  (perm_order style members).mem_iff

theorem order_order (members : List (Text × Value)) :
    style.order (style.order members) = style.order members := by
  unfold Style.order
  split
  · exact (List.pairwise_insertionSort _ members).insertionSort_eq
  · rfl

/-- Ordering looks at the keys alone. -/
theorem order_map (f : Value → Value) (members : List (Text × Value)) :
    style.order (members.map fun m => (m.1, f m.2)) =
      (style.order members).map fun m => (m.1, f m.2) := by
  unfold Style.order
  split
  · exact (List.map_insertionSort (r := fun m n => m.1 ≤ n.1) (s := fun m n => m.1 ≤ n.1)
      (fun m => (m.1, f m.2)) members fun _ _ _ _ => Iff.rfl).symm
  · rfl

end Canonical

end PartnerHub.Lib.Json
