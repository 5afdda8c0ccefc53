import PartnerHub.Lib.Json.Decode

/-!
# `json.loads`

The scanner of the Python library on the code points of a text. Objects and arrays may nest as
deep as the interpreter's stack allows, and `int` reads a bounded number of digits; beyond
either limit the scanner raises something else than `JSONDecodeError`. A float is kept as its
literal.
-/
namespace PartnerHub.Lib.Json

/-- A dict has its keys in the order of their first insertion. -/
inductive Value where
  | null
  | bool (b : Bool)
  | int (n : Int)
  | float (literal : Text)
  | string (s : Text)
  | array (items : List Value)
  | object (members : List (Text × Value))

/-- `valueError` is the plain `ValueError` of `int`. -/
inductive ScanError where
  | jsonDecodeError
  | recursionError
  | valueError
  deriving DecidableEq, Repr

/-- The nesting the stack has room for, and the digits `int` reads. -/
structure Limits where
  depth : Nat
  digits : Nat

abbrev Scan (α : Type) := Text → Except ScanError (α × Text)

def isWhitespace (c : Nat) : Bool := c ∈ [0x20, 0x09, 0x0a, 0x0d]

def skipWhitespace (text : Text) : Text := text.dropWhile isWhitespace

def isDigit (c : Nat) : Bool := '0'.toNat ≤ c ∧ c ≤ '9'.toNat

section Strings

def hexDigit (c : Nat) : Option Nat :=
  if '0'.toNat ≤ c ∧ c ≤ '9'.toNat then some (c - '0'.toNat)
  else if 'a'.toNat ≤ c ∧ c ≤ 'f'.toNat then some (c - 'a'.toNat + 10)
  else if 'A'.toNat ≤ c ∧ c ≤ 'F'.toNat then some (c - 'A'.toNat + 10)
  else none

/-- The four digits after `\u`. -/
def hexPoint (digits : List Nat) : Option Nat :=
  (digits.mapM hexDigit).map fun ds => ds.foldl (fun n d => 16 * n + d) 0

/-- `BACKSLASH`. -/
def backslash (c : Nat) : Option Nat :=
  [('"', 0x22), ('\\', 0x5c), ('/', 0x2f), ('b', 0x08), ('f', 0x0c), ('n', 0x0a), ('r', 0x0d),
    ('t', 0x09)].findSome? fun (e : Char × Nat) => if e.1.toNat = c then some e.2 else none

/-- The characters up to the closing quote. -/
def scanUnits : Text → Except ScanError (List CodeUnit × Text)
  | [] => .error .jsonDecodeError
  | c :: rest =>
    if c = '"'.toNat then .ok ([], rest)
    else if c = '\\'.toNat then
      match rest with
      | e :: rest =>
        if e = 'u'.toNat then
          match rest with
          | h₁ :: h₂ :: h₃ :: h₄ :: rest =>
            match hexPoint [h₁, h₂, h₃, h₄] with
            | some n => (scanUnits rest).map fun (us, rest) => (.unit n :: us, rest)
            | none => .error .jsonDecodeError
          | _ => .error .jsonDecodeError
        else
          match backslash e with
          | some x => (scanUnits rest).map fun (us, rest) => (.point x :: us, rest)
          | none => .error .jsonDecodeError
      | [] => .error .jsonDecodeError
    else if c < 0x20 then .error .jsonDecodeError
    else (scanUnits rest).map fun (us, rest) => (.point c :: us, rest)

/-- `scanstring`, from after the opening quote. -/
def scanString : Scan Text := fun text =>
  (scanUnits text).map fun (us, rest) => (joinSurrogates us, rest)

end Strings

section Numbers

def takeSign (signs : Text) : Text → Text × Text
  | [] => ([], [])
  | c :: rest => if c ∈ signs then ([c], rest) else ([], c :: rest)

/-- `0|[1-9]\d*`. -/
def scanInteger (text : Text) : Option (Text × Text) :=
  match text with
  | [] => none
  | c :: rest =>
    if c = '0'.toNat then some ([c], rest)
    else if isDigit c then some (c :: rest.takeWhile isDigit, rest.dropWhile isDigit)
    else none

/-- `(\.\d+)?`. -/
def scanFraction : Text → Text × Text
  | [] => ([], [])
  | c :: rest =>
    if c = '.'.toNat ∧ rest.takeWhile isDigit ≠ [] then
      (c :: rest.takeWhile isDigit, rest.dropWhile isDigit)
    else ([], c :: rest)

/-- `([eE][-+]?\d+)?`. -/
def scanExponent : Text → Text × Text
  | [] => ([], [])
  | c :: rest =>
    let (sign, digits) := takeSign ['+'.toNat, '-'.toNat] rest
    if (c = 'e'.toNat ∨ c = 'E'.toNat) ∧ digits.takeWhile isDigit ≠ [] then
      (c :: sign ++ digits.takeWhile isDigit, digits.dropWhile isDigit)
    else ([], c :: rest)

def natOf (digits : Text) : Nat := digits.foldl (fun n c => 10 * n + (c - '0'.toNat)) 0

/-- `int` and `float` of the literal. -/
def numberValue (sign integer fraction exponent : Text) : Value :=
  if fraction = [] ∧ exponent = [] then
    .int (if sign = [] then natOf integer else -(natOf integer : Int))
  else .float (sign ++ integer ++ fraction ++ exponent)

/-- `NUMBER_RE`, and the value of what it matches. -/
def scanNumber (lim : Limits) : Scan Value := fun text =>
  let (sign, rest) := takeSign ['-'.toNat] text
  match scanInteger rest with
  | none => .error .jsonDecodeError
  | some (integer, rest) =>
    let (fraction, rest) := scanFraction rest
    let (exponent, rest) := scanExponent rest
    if fraction = [] ∧ exponent = [] ∧ lim.digits < integer.length then .error .valueError
    else .ok (numberValue sign integer fraction exponent, rest)

end Numbers

/-- The literal names, with the constants Python adds. -/
def constants : List (Text × Value) :=
  [(textOf "null", .null), (textOf "true", .bool true), (textOf "false", .bool false),
    (textOf "NaN", .float (textOf "NaN")), (textOf "Infinity", .float (textOf "Infinity")),
    (textOf "-Infinity", .float (textOf "-Infinity"))]

def scanConstant (text : Text) : Option (Value × Text) :=
  constants.findSome? fun (name, value) =>
    if name <+: text then some (value, text.drop name.length) else none

/-- The elements up to the closing bracket, of which there is at least one. Every element takes
a character, so `fuel` of the length of the text is enough. -/
def scanItems {α : Type} (scan : Scan α) (close : Nat) : Nat → Scan (List α)
  | 0, _ => .error .jsonDecodeError
  | fuel + 1, text => do
    let (item, rest) ← scan text
    match skipWhitespace rest with
    | [] => .error .jsonDecodeError
    | c :: rest =>
      if c = close then return ([item], rest)
      else if c = ','.toNat then do
        let (items, rest) ← scanItems scan close fuel (skipWhitespace rest)
        return (item :: items, rest)
      else .error .jsonDecodeError

/-- From after the opening bracket. -/
def scanBracketed {α : Type} (scan : Scan α) (close : Nat) : Scan (List α) := fun text =>
  let text := skipWhitespace text
  if text.head? = some close then .ok ([], text.tail) else scanItems scan close text.length text

/-- A key, a colon and a value. -/
def scanMember (scan : Scan Value) : Scan (Text × Value)
  | [] => .error .jsonDecodeError
  | c :: rest =>
    if c = '"'.toNat then do
      let (key, rest) ← scanString rest
      match skipWhitespace rest with
      | [] => .error .jsonDecodeError
      | c :: rest =>
        if c = ':'.toNat then do
          let (value, rest) ← scan (skipWhitespace rest)
          return ((key, value), rest)
        else .error .jsonDecodeError
    else .error .jsonDecodeError

/-- `d[key] = value`. -/
def setMember (members : List (Text × Value)) (key : Text) (value : Value) :
    List (Text × Value) :=
  if members.any (·.1 = key) then members.map fun m => if m.1 = key then (key, value) else m
  else members ++ [(key, value)]

/-- `dict(pairs)`: the last of several values of a key counts. -/
def dictOf (pairs : List (Text × Value)) : List (Text × Value) :=
  pairs.foldl (fun members pair => setMember members pair.1 pair.2) []

/-- `d.get(key)`. -/
def getMember (members : List (Text × Value)) (key : Text) : Option Value :=
  (members.find? fun m => m.1 = key).map (·.2)

/-- `scan_once`, with the scanners for what is inside brackets. -/
def scanValue (lim : Limits) (array object : Scan Value) : Scan Value
  | [] => .error .jsonDecodeError
  | c :: rest =>
    if c = '"'.toNat then (scanString rest).map fun (s, rest) => (.string s, rest)
    else if c = '['.toNat then array rest
    else if c = '{'.toNat then object rest
    else
      match scanConstant (c :: rest) with
      | some (value, rest) => .ok (value, rest)
      | none => scanNumber lim (c :: rest)

def scanArray (scan : Scan Value) : Scan Value := fun text =>
  (scanBracketed scan ']'.toNat text).map fun (items, rest) => (.array items, rest)

def scanObject (scan : Scan Value) : Scan Value := fun text =>
  (scanBracketed (scanMember scan) '}'.toNat text).map fun (pairs, rest) =>
    (.object (dictOf pairs), rest)

/-- `scan_once` with room for this much nesting. -/
def scanOnce (lim : Limits) : Nat → Scan Value
  | 0 => scanValue lim (fun _ => .error .recursionError) (fun _ => .error .recursionError)
  | depth + 1 =>
    scanValue lim (scanArray (scanOnce lim depth)) (scanObject (scanOnce lim depth))

/-- `JSONDecoder.decode`. -/
def decodeText (lim : Limits) (text : Text) : Except ScanError Value := do
  let (value, rest) ← scanOnce lim lim.depth (skipWhitespace text)
  if skipWhitespace rest = [] then return value else .error .jsonDecodeError

inductive LoadsError where
  | unicodeDecodeError
  | scan (e : ScanError)
  deriving DecidableEq, Repr

/-- `json.loads` on bytes. -/
def loads (lim : Limits) (bytes : List UInt8) : Except LoadsError Value :=
  match decodeDetected bytes with
  | none => .error .unicodeDecodeError
  | some text => (decodeText lim text).mapError .scan

end PartnerHub.Lib.Json
