import PartnerHub.Lib.Json.Encode

/-!
# The texts of strings and numbers

The scanner undoes the escapes of a string whose surrogates are not paired by mistake, and reads
an integer or a float from the digits the encoder writes. Every character written is ASCII.
-/
namespace PartnerHub.Lib.Json

section Strings

/-- How the scanner sees the escape of a character. -/
def unitsOf (c : Nat) : List CodeUnit :=
  if (shortEscape c).isSome ∨ (0x20 ≤ c ∧ c ≤ 0x7e) then [.point c]
  else if c < 0x10000 then [.unit c]
  else [.unit (highSurrogate c), .unit (lowSurrogate c)]

theorem hexDigit_lowerHex {d : Nat} (h : d < 16) : hexDigit (lowerHex d) = some d := by
  interval_cases d <;> decide

theorem hexPoint_unicodeEscape {n : Nat} (h : n < 0x10000) :
    hexPoint [lowerHex (n / 4096 % 16), lowerHex (n / 256 % 16), lowerHex (n / 16 % 16),
      lowerHex (n % 16)] = some n := by
  have hdigit : ∀ m, hexDigit (lowerHex (m % 16)) = some (m % 16) :=
    fun m => hexDigit_lowerHex (Nat.mod_lt m (by decide))
  simp only [hexPoint, List.mapM_cons, List.mapM_nil, hdigit, Option.pure_def,
    Option.bind_eq_bind, Option.bind_some, Option.map_some, List.foldl_cons, List.foldl_nil]
  congr 1
  omega

theorem shortEscape_some {c e : Nat} (h : shortEscape c = some e) :
    e ≠ 'u'.toNat ∧ backslash e = some c := by
  obtain ⟨⟨c', x⟩, hmem, hfound⟩ := List.exists_of_findSome?_eq_some h
  dsimp only at hfound
  split_ifs at hfound with hc
  obtain rfl := Option.some.inj hfound
  subst hc
  simp only [List.mem_cons, List.not_mem_nil, or_false, Prod.mk.injEq] at hmem
  rcases hmem with ⟨rfl, rfl⟩ | ⟨rfl, rfl⟩ | ⟨rfl, rfl⟩ | ⟨rfl, rfl⟩ | ⟨rfl, rfl⟩ |
    ⟨rfl, rfl⟩ | ⟨rfl, rfl⟩ <;> decide

theorem shortEscape_none {c : Nat} (h : shortEscape c = none) :
    c ≠ '"'.toNat ∧ c ≠ '\\'.toNat := by
  constructor
  · intro hc
    rw [hc] at h
    exact absurd h (by decide)
  · intro hc
    rw [hc] at h
    exact absurd h (by decide)

theorem units_unicodeEscape {n : Nat} {s : Text} {us : List CodeUnit} (hn : n < 0x10000)
    (h : Units s us) : Units (unicodeEscape n ++ s) (.unit n :: us) :=
  .unicode (hexPoint_unicodeEscape hn) h

theorem surrogate_bounds {c : Nat} (hlow : 0x10000 ≤ c) (hhigh : c ≤ 0x10ffff) :
    HighSurrogate (highSurrogate c) ∧ LowSurrogate (lowSurrogate c) := by
  unfold HighSurrogate LowSurrogate highSurrogate lowSurrogate
  omega

theorem units_escapeChar {c : Nat} {s : Text} {us : List CodeUnit} (hc : c ≤ 0x10ffff)
    (h : Units s us) : Units (escapeChar c ++ s) (unitsOf c ++ us) := by
  unfold escapeChar unitsOf
  cases hshort : shortEscape c with
  | some e =>
    obtain ⟨hu, hback⟩ := shortEscape_some hshort
    rw [Option.isSome_some, if_pos (Or.inl rfl)]
    exact .escape hu hback h
  | none =>
    obtain ⟨hquote, hbackslash⟩ := shortEscape_none hshort
    simp only [Option.isSome_none, Bool.false_eq_true, false_or]
    by_cases hplain : 0x20 ≤ c ∧ c ≤ 0x7e
    · rw [if_pos hplain, if_pos hplain]
      exact .plain hquote hbackslash hplain.1 h
    · rw [if_neg hplain, if_neg hplain]
      by_cases hbmp : c < 0x10000
      · rw [if_pos hbmp, if_pos hbmp]
        exact units_unicodeEscape hbmp h
      · rw [if_neg hbmp, if_neg hbmp, List.append_assoc]
        obtain ⟨hhigh, hlow⟩ := surrogate_bounds (not_lt.mp hbmp) hc
        unfold HighSurrogate at hhigh
        unfold LowSurrogate at hlow
        exact units_unicodeEscape (by omega) (units_unicodeEscape (by omega) h)

theorem units_escape {s : Text} (h : ∀ c ∈ s, c ≤ 0x10ffff) :
    Units (s.flatMap escapeChar) (s.flatMap unitsOf) := by
  induction s with
  | nil => exact .nil
  | cons c s ih =>
    rw [List.flatMap_cons, List.flatMap_cons]
    exact units_escapeChar (h c List.mem_cons_self)
      (ih fun c hc => h c (List.mem_cons_of_mem _ hc))

/-- A character whose escape starts with a low surrogate is one. -/
theorem unitsOf_head {c low : Nat} {us rest : List CodeUnit} (hc : c ≤ 0x10ffff)
    (h : unitsOf c ++ us = .unit low :: rest) (hlow : LowSurrogate low) : c = low := by
  unfold unitsOf at h
  split_ifs at h with hpoint hbmp
  · cases h
  · exact CodeUnit.unit.inj (List.cons.inj h).1
  · obtain ⟨hhigh, -⟩ := surrogate_bounds (not_lt.mp hbmp) hc
    rw [CodeUnit.unit.inj (List.cons.inj h).1] at hhigh
    unfold HighSurrogate at hhigh
    unfold LowSurrogate at hlow
    omega

/-- A unit is not joined with what follows unless that is the low half to its high one. -/
theorem joinSurrogates_unit {c : Nat} {us : List CodeUnit}
    (h : ∀ low rest, us = .unit low :: rest → ¬(HighSurrogate c ∧ LowSurrogate low)) :
    joinSurrogates (.unit c :: us) = c :: joinSurrogates us := by
  cases us with
  | nil => rfl
  | cons u us =>
    cases u with
    | unit low => rw [joinSurrogates, if_neg (h low us rfl)]
    | point x => rw [joinSurrogates.eq_def]

theorem joinSurrogates_unitsOf {s : Text} (h : WellPaired s) :
    joinSurrogates (s.flatMap unitsOf) = s := by
  induction s with
  | nil => rfl
  | cons c s ih =>
    obtain ⟨hpoints, hchain⟩ := h
    have htail := ih ⟨fun x hx => hpoints x (List.mem_cons_of_mem _ hx), hchain.tail⟩
    have hc := hpoints c List.mem_cons_self
    rw [List.flatMap_cons, unitsOf]
    split_ifs with hpoint hbmp
    · rw [List.singleton_append, joinSurrogates, htail]
    · rw [List.singleton_append, joinSurrogates_unit, htail]
      intro low rest hus hpair
      cases s with
      | nil => cases hus
      | cons d s =>
        obtain rfl := unitsOf_head (hpoints d (by simp)) hus hpair.2
        exact (List.isChain_cons_cons.mp hchain).1 hpair
    · obtain ⟨hhigh, hlow⟩ := surrogate_bounds (not_lt.mp hbmp) hc
      have hjoin : 0x10000 + (highSurrogate c - 0xd800) * 0x400 + (lowSurrogate c - 0xdc00) = c := by
        unfold highSurrogate lowSurrogate
        omega
      rw [List.cons_append, List.singleton_append, joinSurrogates, if_pos ⟨hhigh, hlow⟩, htail,
        hjoin]

end Strings

/-- The scanner reads the text as the value, whatever stands after it. -/
def Reads {α : Type} (scan : Scan α) (text : Text) (x : α) : Prop :=
  ∀ r, Follow r → scan (text ++ r) = .ok (x, r)

section Numbers

variable {lim : Limits}

theorem isDigit_of_mem_digitsText {n c : Nat} (h : c ∈ digitsText n) : isDigit c = true := by
  obtain ⟨d, hd, rfl⟩ := List.mem_map.mp h
  have hdigit := Nat.isDigit_of_mem_toDigits (by decide) (by decide) hd
  have hrange : 48 ≤ d.toNat ∧ d.toNat ≤ 57 := by
    simpa [Char.isDigit, UInt32.le_iff_toNat_le] using hdigit
  have h0 : '0'.toNat = 48 := rfl
  have h9 : '9'.toNat = 57 := rfl
  rw [isDigit, h0, h9, decide_eq_true_eq]
  exact hrange

theorem natOf_digitsText (n : Nat) : natOf (digitsText n) = n := by
  rw [natOf, digitsText, List.foldl_map]
  exact Nat.ofDigitChars_ten_toDigits

theorem digitsText_of_lt {n : Nat} (h : n < 10) : digitsText n = [(Nat.digitChar n).toNat] := by
  rw [digitsText, Nat.toDigits_of_lt_base h, List.map_singleton]

theorem digitsText_of_ge {n : Nat} (h : 10 ≤ n) :
    digitsText n = digitsText (n / 10) ++ digitsText (n % 10) := by
  rw [digitsText_of_lt (Nat.mod_lt n (by decide)), digitsText,
    Nat.toDigits_of_base_le (by decide) h, List.map_append, List.map_singleton, digitsText]

/-- Only zero is written with a zero in front. -/
theorem integerPart_digitsText (n : Nat) : IntegerPart (digitsText n) := by
  induction n using Nat.strongRecOn with
  | ind n ih =>
    by_cases hn : n < 10
    · rw [digitsText_of_lt hn]
      by_cases hzero : n = 0
      · rw [hzero]
        exact .zero
      · have hpos : 0 < n := Nat.pos_of_ne_zero hzero
        refine .positive ?_ ?_ (by simp [Digits]) <;> interval_cases n <;> decide
    · have hpart := ih (n / 10) (by omega)
      have hvalue := natOf_digitsText (n / 10)
      rw [digitsText_of_ge (not_lt.mp hn)]
      generalize digitsText (n / 10) = head at hpart hvalue
      cases hpart with
      | zero =>
        have hzero : natOf ['0'.toNat] = 0 := by decide
        omega
      | positive hc hzero hds =>
        refine .positive hc hzero fun c hmem => (List.mem_append.mp hmem).elim (hds c) ?_
        exact isDigit_of_mem_digitsText

theorem number_digitsText (lim : Limits) {sign : Text} {n : Nat} (hsign : sign = [] ∨ sign = ['-'.toNat])
    (hdigits : ¬lim.digits < (digitsText n).length) :
    Number (sign ++ digitsText n) (.int (if sign = [] then n else -n)) ∧
      Reads (scanNumber lim) (sign ++ digitsText n) (.int (if sign = [] then n else -n)) := by
  have hpart := integerPart_digitsText n
  have hvalue : numberValue sign (digitsText n) [] [] = .int (if sign = [] then n else -n) := by
    rw [numberValue, if_pos ⟨rfl, rfl⟩, natOf_digitsText]
  constructor
  · have hnumber := Number.mk hsign hpart .absent .absent
    rwa [hvalue, List.append_nil, List.append_nil] at hnumber
  · intro r hr
    have hscan := scanNumber_eq lim hsign hpart .absent .absent hr
    rwa [if_neg fun h => hdigits h.2.2, hvalue, List.append_nil, List.append_nil] at hscan

/-- An integer that is written is within the digits the scanner reads. -/
theorem number_intText {n : Int} {t : Text} (h : intText lim n = .ok t) :
    Number t (.int n) ∧ Reads (scanNumber lim) t (.int n) := by
  unfold intText at h
  split_ifs at h with hdigits hneg
  · obtain rfl := Except.ok.inj h
    have hminus := number_digitsText lim (n := n.natAbs) (.inr rfl) hdigits
    rw [if_neg (List.cons_ne_nil _ _)] at hminus
    rwa [show n = -(n.natAbs : Int) by omega, Int.natAbs_neg, Int.natAbs_natCast]
  · obtain rfl := Except.ok.inj h
    have hplus := number_digitsText lim (n := n.natAbs) (.inl rfl) hdigits
    rw [if_pos rfl] at hplus
    rwa [show n = (n.natAbs : Int) by omega, Int.natAbs_natCast]

/-- A float has a fraction or an exponent, so its digits are not counted. -/
theorem reads_float {t : Text} (h : Number t (.float t)) : Reads (scanNumber lim) t (.float t) := by
  intro r hr
  generalize hv : Value.float t = v at h
  obtain @⟨sign, integer, fraction, exponent, hsign, hinteger, hfraction, hexponent⟩ := h
  have hparts : ¬(fraction = [] ∧ exponent = []) := by
    intro hnone
    rw [numberValue, if_pos hnone] at hv
    cases hv
  rw [scanNumber_eq lim hsign hinteger hfraction hexponent hr,
    if_neg fun h => hparts ⟨h.1, h.2.1⟩]

end Numbers

section Ascii

variable {v : Value} {text : Text}

/-- No byte of the text is zero or beyond ASCII. -/
def AsciiText (text : Text) : Prop := ∀ c ∈ text, 0 < c ∧ c < 128

theorem asciiText_append {a b : Text} : AsciiText (a ++ b) ↔ AsciiText a ∧ AsciiText b := by
  simp only [AsciiText, List.forall_mem_append]

theorem asciiText_cons {c : Nat} {a : Text} :
    AsciiText (c :: a) ↔ (0 < c ∧ c < 128) ∧ AsciiText a := by
  simp only [AsciiText, List.forall_mem_cons]

theorem asciiText_digits {ds : Text} (h : Digits ds) : AsciiText ds := by
  intro c hc
  have hdigit := h c hc
  rw [isDigit, decide_eq_true_eq] at hdigit
  have h0 : '0'.toNat = 48 := rfl
  have h9 : '9'.toNat = 57 := rfl
  omega

theorem asciiText_whitespace {w : Text} (h : Whitespace w) : AsciiText w := by
  intro c hc
  have hspace := h c hc
  simp only [isWhitespace, List.mem_cons, List.not_mem_nil, or_false, decide_eq_true_eq] at hspace
  omega

theorem asciiText_number (h : Number text v) : AsciiText text := by
  obtain @⟨sign, integer, fraction, exponent, hsign, hinteger, hfraction, hexponent⟩ := h
  simp only [asciiText_append]
  refine ⟨?_, ?_, ?_, ?_⟩
  · rcases hsign with rfl | rfl <;> simp [AsciiText]
  · cases hinteger with
    | zero => simp [AsciiText]
    | positive hc hzero hds =>
      exact asciiText_digits fun c hmem => (List.mem_cons.mp hmem).elim (· ▸ hc) (hds c)
  · cases hfraction with
    | absent => simp [AsciiText]
    | present hne hds => exact asciiText_cons.mpr ⟨by decide, asciiText_digits hds⟩
  · cases hexponent with
    | absent => simp [AsciiText]
    | present he hsign hne hds =>
      rw [List.cons_append]
      refine asciiText_cons.mpr ⟨?_, asciiText_append.mpr ⟨?_, asciiText_digits hds⟩⟩
      · rcases he with rfl | rfl <;> decide
      · rcases hsign with rfl | rfl | rfl <;> simp [AsciiText]

theorem asciiText_constant {name : Text} (h : (name, v) ∈ constants) : AsciiText name := by
  have hnames : ∀ m ∈ constants, ∀ c ∈ m.1, 0 < c ∧ c < 128 := by decide
  exact hnames (name, v) h

theorem asciiText_escapeChar (c : Nat) : AsciiText (escapeChar c) := by
  have hhex : ∀ n, 0 < lowerHex (n % 16) ∧ lowerHex (n % 16) < 128 := by
    intro n
    have hn := Nat.mod_lt n (show 0 < 16 by decide)
    have h0 : '0'.toNat = 48 := rfl
    have ha : 'a'.toNat = 97 := rfl
    unfold lowerHex
    split <;> omega
  have hescape : ∀ n, AsciiText (unicodeEscape n) := by
    intro n
    simp only [unicodeEscape, asciiText_cons, hhex, true_and]
    exact ⟨by decide, by decide, by simp [AsciiText]⟩
  unfold escapeChar
  cases hshort : shortEscape c with
  | some e =>
    obtain ⟨⟨c', x⟩, hmem, hfound⟩ := List.exists_of_findSome?_eq_some hshort
    dsimp only at hfound
    split_ifs at hfound with hc
    obtain rfl := Option.some.inj hfound
    simp only [List.mem_cons, List.not_mem_nil, or_false, Prod.mk.injEq] at hmem
    rcases hmem with ⟨-, rfl⟩ | ⟨-, rfl⟩ | ⟨-, rfl⟩ | ⟨-, rfl⟩ | ⟨-, rfl⟩ | ⟨-, rfl⟩ | ⟨-, rfl⟩ <;>
      simp [AsciiText]
  | none =>
    dsimp only
    split_ifs with hplain hbmp
    · refine asciiText_cons.mpr ⟨?_, by simp [AsciiText]⟩
      omega
    · exact hescape c
    · exact asciiText_append.mpr ⟨hescape _, hescape _⟩

theorem asciiText_quote (s : Text) : AsciiText (quote s) := by
  refine asciiText_cons.mpr ⟨by decide, asciiText_append.mpr ⟨?_, by simp [AsciiText]⟩⟩
  intro c hc
  obtain ⟨d, -, hd⟩ := List.mem_flatMap.mp hc
  exact asciiText_escapeChar d c hd

end Ascii

end PartnerHub.Lib.Json
