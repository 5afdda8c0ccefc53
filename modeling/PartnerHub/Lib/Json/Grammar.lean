import PartnerHub.Lib.Json.Scanner

/-!
# The grammar of JSON texts

What a JSON text means, independently of how it is scanned: the texts of each value, put
together from the texts of their parts. The scanner accepts no other text, and on a text of the
grammar it returns the value unless it meets one of its limits.
-/
namespace PartnerHub.Lib.Json

def Whitespace (w : Text) : Prop := ∀ c ∈ w, isWhitespace c

def Digits (ds : Text) : Prop := ∀ c ∈ ds, isDigit c

/-- The inside of a string. -/
inductive Units : Text → List CodeUnit → Prop
  | nil : Units [] []
  | plain {c : Nat} {s : Text} {us : List CodeUnit} (hquote : c ≠ '"'.toNat)
      (hbackslash : c ≠ '\\'.toNat) (hcontrol : 0x20 ≤ c) (h : Units s us) :
      Units (c :: s) (.point c :: us)
  | escape {e x : Nat} {s : Text} {us : List CodeUnit} (hu : e ≠ 'u'.toNat)
      (he : backslash e = some x) (h : Units s us) :
      Units ('\\'.toNat :: e :: s) (.point x :: us)
  | unicode {h₁ h₂ h₃ h₄ n : Nat} {s : Text} {us : List CodeUnit}
      (hn : hexPoint [h₁, h₂, h₃, h₄] = some n) (h : Units s us) :
      Units ('\\'.toNat :: 'u'.toNat :: h₁ :: h₂ :: h₃ :: h₄ :: s) (.unit n :: us)

inductive IntegerPart : Text → Prop
  | zero : IntegerPart ['0'.toNat]
  | positive {c : Nat} {ds : Text} (hc : isDigit c) (hzero : c ≠ '0'.toNat) (hds : Digits ds) :
      IntegerPart (c :: ds)

inductive FractionPart : Text → Prop
  | absent : FractionPart []
  | present {ds : Text} (hne : ds ≠ []) (hds : Digits ds) : FractionPart ('.'.toNat :: ds)

inductive ExponentPart : Text → Prop
  | absent : ExponentPart []
  | present {e : Nat} {sign ds : Text} (he : e = 'e'.toNat ∨ e = 'E'.toNat)
      (hsign : sign = [] ∨ sign = ['+'.toNat] ∨ sign = ['-'.toNat]) (hne : ds ≠ [])
      (hds : Digits ds) : ExponentPart (e :: sign ++ ds)

inductive Number : Text → Value → Prop
  | mk {sign integer fraction exponent : Text} (hsign : sign = [] ∨ sign = ['-'.toNat])
      (hinteger : IntegerPart integer) (hfraction : FractionPart fraction)
      (hexponent : ExponentPart exponent) :
      Number (sign ++ (integer ++ (fraction ++ exponent)))
        (numberValue sign integer fraction exponent)

/-- The values without brackets. -/
inductive Scalar : Text → Value → Prop
  | constant {name : Text} {v : Value} (h : (name, v) ∈ constants) : Scalar name v
  | number {s : Text} {v : Value} (h : Number s v) : Scalar s v
  | string {s : Text} {us : List CodeUnit} (h : Units s us) :
      Scalar ('"'.toNat :: (s ++ ['"'.toNat])) (.string (joinSurrogates us))

section Brackets

variable {α : Type} (means : Text → α → Prop)

/-- One or more elements, with commas between them. -/
inductive Items : Text → List α → Prop
  | last {s w : Text} {x : α} (hx : means s x) (hw : Whitespace w) : Items (s ++ w) [x]
  | more {s w w' rest : Text} {x : α} {xs : List α} (hx : means s x) (hw : Whitespace w)
      (hw' : Whitespace w') (h : Items rest xs) :
      Items (s ++ (w ++ ','.toNat :: (w' ++ rest))) (x :: xs)

inductive Bracketed : Text → List α → Prop
  | empty {w : Text} (hw : Whitespace w) : Bracketed w []
  | items {w s : Text} {xs : List α} (hw : Whitespace w) (h : Items means s xs) :
      Bracketed (w ++ s) xs

end Brackets

inductive Member (means : Text → Value → Prop) : Text → Text × Value → Prop
  | mk {key w w' s : Text} {us : List CodeUnit} {v : Value} (hkey : Units key us)
      (hw : Whitespace w) (hw' : Whitespace w') (hv : means s v) :
      Member means ('"'.toNat :: (key ++ '"'.toNat :: (w ++ ':'.toNat :: (w' ++ s))))
        (joinSurrogates us, v)

/-- The text means the value, with at most so much nesting. -/
def Means : Nat → Text → Value → Prop
  | 0, text, v => Scalar text v
  | depth + 1, text, v =>
    Scalar text v ∨
    (∃ body items, text = '['.toNat :: (body ++ [']'.toNat]) ∧
      Bracketed (Means depth) body items ∧ v = .array items) ∨
    ∃ body pairs, text = '{'.toNat :: (body ++ ['}'.toNat]) ∧
      Bracketed (Member (Means depth)) body pairs ∧ v = .object (dictOf pairs)

/-- A whole document. -/
def Document (text : Text) (v : Value) : Prop :=
  ∃ depth w s w', text = w ++ (s ++ w') ∧ Whitespace w ∧ Whitespace w' ∧ Means depth s v

section Sound

variable {α : Type} {lim : Limits} {text rest : Text} {v : Value}

/-- What the scanner takes off the front of a text is one of the texts of what it returns. -/
def SoundFor (scan : Scan α) (means : Text → α → Prop) : Prop :=
  ∀ text x rest, scan text = .ok (x, rest) → ∃ s, text = s ++ rest ∧ means s x

theorem skipWhitespace_split (text : Text) :
    ∃ w, text = w ++ skipWhitespace text ∧ Whitespace w :=
  ⟨text.takeWhile isWhitespace, List.takeWhile_append_dropWhile.symm,
    fun _ hc => List.mem_takeWhile_imp hc⟩

theorem digits_takeWhile (text : Text) : Digits (text.takeWhile isDigit) :=
  fun _ hc => List.mem_takeWhile_imp hc

theorem scanUnits_sound {us : List CodeUnit} (h : scanUnits text = .ok (us, rest)) :
    ∃ s, text = s ++ '"'.toNat :: rest ∧ Units s us := by
  have hok : ∀ {u : CodeUnit} {m : Except ScanError (List CodeUnit × Text)}
      {us : List CodeUnit} {rest : Text},
      m.map (fun x => (u :: x.1, x.2)) = .ok (us, rest) →
        ∃ us', m = .ok (us', rest) ∧ us = u :: us' := by
    intro u m us rest h
    cases m with
    | error e => simp [Except.map] at h
    | ok x =>
      obtain ⟨rfl, rfl⟩ := Prod.mk.inj (Except.ok.inj h)
      exact ⟨x.1, rfl, rfl⟩
  fun_induction scanUnits text generalizing us rest with
  | case2 text =>
    obtain ⟨rfl, rfl⟩ := Prod.mk.inj (Except.ok.inj h)
    exact ⟨[], rfl, .nil⟩
  | case3 h₁ h₂ h₃ h₄ text n hn hne ih =>
    obtain ⟨us', hus, rfl⟩ := hok h
    obtain ⟨s, rfl, hs⟩ := ih hus
    exact ⟨_, rfl, .unicode hn hs⟩
  | case6 e text hu x hx hne ih =>
    obtain ⟨us', hus, rfl⟩ := hok h
    obtain ⟨s, rfl, hs⟩ := ih hus
    exact ⟨_, rfl, .escape hu hx hs⟩
  | case10 c text hquote hbackslash hcontrol ih =>
    obtain ⟨us', hus, rfl⟩ := hok h
    obtain ⟨s, rfl, hs⟩ := ih hus
    exact ⟨_, rfl, .plain hquote hbackslash (not_lt.mp hcontrol) hs⟩
  | _ => simp at h

theorem takeSign_sound (signs text : Text) :
    text = (takeSign signs text).1 ++ (takeSign signs text).2 ∧
      ((takeSign signs text).1 = [] ∨ ∃ c ∈ signs, (takeSign signs text).1 = [c]) := by
  cases text with
  | nil => exact ⟨rfl, .inl rfl⟩
  | cons c rest =>
    rw [takeSign]
    split_ifs with hc
    · exact ⟨rfl, .inr ⟨c, hc, rfl⟩⟩
    · exact ⟨rfl, .inl rfl⟩

theorem scanInteger_sound {integer : Text} (h : scanInteger text = some (integer, rest)) :
    text = integer ++ rest ∧ IntegerPart integer := by
  cases text with
  | nil => simp [scanInteger] at h
  | cons c text =>
    rw [scanInteger] at h
    split_ifs at h with hzero hdigit
    · obtain ⟨rfl, rfl⟩ := Prod.mk.inj (Option.some.inj h)
      exact ⟨rfl, hzero ▸ .zero⟩
    · obtain ⟨rfl, rfl⟩ := Prod.mk.inj (Option.some.inj h)
      refine ⟨?_, .positive hdigit hzero (digits_takeWhile text)⟩
      rw [List.cons_append, List.takeWhile_append_dropWhile]

theorem scanFraction_sound (text : Text) :
    text = (scanFraction text).1 ++ (scanFraction text).2 ∧
      FractionPart (scanFraction text).1 := by
  cases text with
  | nil => exact ⟨rfl, .absent⟩
  | cons c rest =>
    rw [scanFraction]
    split_ifs with hc
    · obtain ⟨rfl, hne⟩ := hc
      refine ⟨?_, .present hne (digits_takeWhile rest)⟩
      rw [List.cons_append, List.takeWhile_append_dropWhile]
    · exact ⟨rfl, .absent⟩

theorem scanExponent_sound (text : Text) :
    text = (scanExponent text).1 ++ (scanExponent text).2 ∧
      ExponentPart (scanExponent text).1 := by
  cases text with
  | nil => exact ⟨rfl, .absent⟩
  | cons c rest =>
    obtain ⟨hsplit, hsign⟩ := takeSign_sound ['+'.toNat, '-'.toNat] rest
    rw [scanExponent]
    dsimp only
    split_ifs with hc
    · obtain ⟨he, hne⟩ := hc
      have hsign' : (takeSign ['+'.toNat, '-'.toNat] rest).1 = [] ∨
          (takeSign ['+'.toNat, '-'.toNat] rest).1 = ['+'.toNat] ∨
          (takeSign ['+'.toNat, '-'.toNat] rest).1 = ['-'.toNat] := by
        simpa using hsign
      refine ⟨?_, .present he hsign' hne (digits_takeWhile _)⟩
      rw [List.append_assoc, List.takeWhile_append_dropWhile, List.cons_append, ← hsplit]
    · exact ⟨rfl, .absent⟩

theorem scanNumber_sound : SoundFor (scanNumber lim) Number := by
  intro text v rest h
  obtain ⟨hsign, hminus⟩ := takeSign_sound ['-'.toNat] text
  simp only [scanNumber] at h
  cases hinteger : scanInteger (takeSign ['-'.toNat] text).2 with
  | none => simp only [hinteger, reduceCtorEq] at h
  | some x =>
    obtain ⟨integer, text₁⟩ := x
    obtain ⟨hsplit, hpart⟩ := scanInteger_sound hinteger
    obtain ⟨hfraction, hfrac⟩ := scanFraction_sound text₁
    obtain ⟨hexponent, hexp⟩ := scanExponent_sound (scanFraction text₁).2
    simp only [hinteger] at h
    split_ifs at h with hlong
    obtain ⟨rfl, rfl⟩ := Prod.mk.inj (Except.ok.inj h)
    refine ⟨_, ?_, .mk (by simpa using hminus) hpart hfrac hexp⟩
    rw [List.append_assoc, List.append_assoc, List.append_assoc, ← hexponent, ← hfraction,
      ← hsplit, ← hsign]

theorem scanConstant_sound (h : scanConstant text = some (v, rest)) :
    ∃ name, text = name ++ rest ∧ (name, v) ∈ constants := by
  obtain ⟨⟨name, value⟩, hmem, hfound⟩ := List.exists_of_findSome?_eq_some h
  dsimp only at hfound
  split_ifs at hfound with hprefix
  obtain ⟨rfl, rfl⟩ := Prod.mk.inj (Option.some.inj hfound)
  exact ⟨name, (List.prefix_iff_eq_append.mp hprefix).symm, hmem⟩

variable {means : Text → α → Prop} {scan : Scan α}

theorem scanItems_sound (hscan : SoundFor scan means) (close : Nat) {xs : List α} (fuel : Nat)
    (h : scanItems scan close fuel text = .ok (xs, rest)) :
    ∃ s, text = s ++ close :: rest ∧ Items means s xs := by
  induction fuel generalizing text xs rest with
  | zero => simp [scanItems] at h
  | succ fuel ih =>
    rw [scanItems] at h
    cases hx : scan text with
    | error e => simp [hx, bind, Except.bind] at h
    | ok y =>
      obtain ⟨x, text₁⟩ := y
      obtain ⟨s, rfl, hs⟩ := hscan text x text₁ hx
      obtain ⟨w, hsplit, hw⟩ := skipWhitespace_split text₁
      simp only [hx, bind, Except.bind] at h
      cases hnext : skipWhitespace text₁ with
      | nil => simp [hnext] at h
      | cons c text₂ =>
        simp only [hnext] at h
        rw [hnext] at hsplit
        split_ifs at h with hclose hcomma
        · obtain ⟨rfl, rfl⟩ := Prod.mk.inj (Except.ok.inj h)
          exact ⟨s ++ w, by rw [hsplit, hclose, List.append_assoc], .last hs hw⟩
        · obtain ⟨w', hsplit', hw'⟩ := skipWhitespace_split text₂
          cases hrest : scanItems scan close fuel (skipWhitespace text₂) with
          | error e => simp [hrest] at h
          | ok y =>
            simp only [hrest] at h
            obtain ⟨rfl, rfl⟩ := Prod.mk.inj (Except.ok.inj h)
            obtain ⟨s', hs', hitems⟩ := ih hrest
            refine ⟨_, ?_, .more hs hw hw' hitems⟩
            rw [hsplit, hcomma, hsplit', hs']
            simp

theorem scanBracketed_sound (hscan : SoundFor scan means) (close : Nat) {xs : List α}
    (h : scanBracketed scan close text = .ok (xs, rest)) :
    ∃ s, text = s ++ close :: rest ∧ Bracketed means s xs := by
  obtain ⟨w, hsplit, hw⟩ := skipWhitespace_split text
  simp only [scanBracketed] at h
  split_ifs at h with hclose
  · obtain ⟨rfl, rfl⟩ := Prod.mk.inj (Except.ok.inj h)
    refine ⟨w, ?_, .empty hw⟩
    rw [← List.eq_cons_of_mem_head? hclose]
    exact hsplit
  · obtain ⟨s, hs, hitems⟩ := scanItems_sound hscan close _ h
    exact ⟨w ++ s, by rw [hsplit, hs, List.append_assoc], .items hw hitems⟩

theorem scanString_sound {str : Text} (h : scanString text = .ok (str, rest)) :
    ∃ s us, text = s ++ '"'.toNat :: rest ∧ Units s us ∧ str = joinSurrogates us := by
  rw [scanString] at h
  cases hus : scanUnits text with
  | error e => simp [hus, Except.map] at h
  | ok y =>
    obtain ⟨us, text₁⟩ := y
    rw [hus] at h
    obtain ⟨rfl, rfl⟩ := Prod.mk.inj (Except.ok.inj h)
    obtain ⟨s, hs, hunits⟩ := scanUnits_sound hus
    exact ⟨s, us, hs, hunits, rfl⟩

variable {means : Text → Value → Prop} {scan : Scan Value}

theorem scanMember_sound (hscan : SoundFor scan means) :
    SoundFor (scanMember scan) (Member means) := by
  intro text x rest h
  cases text with
  | nil => simp [scanMember] at h
  | cons c text =>
    rw [scanMember] at h
    split_ifs at h with hquote
    cases hkey : scanString text with
    | error e => simp [hkey, bind, Except.bind] at h
    | ok y =>
      obtain ⟨key, text₁⟩ := y
      obtain ⟨s, us, rfl, hs, rfl⟩ := scanString_sound hkey
      obtain ⟨w, hsplit, hw⟩ := skipWhitespace_split text₁
      simp only [hkey, bind, Except.bind] at h
      cases hnext : skipWhitespace text₁ with
      | nil => simp [hnext] at h
      | cons c' text₂ =>
        simp only [hnext] at h
        rw [hnext] at hsplit
        split_ifs at h with hcolon
        obtain ⟨w', hsplit', hw'⟩ := skipWhitespace_split text₂
        cases hv : scan (skipWhitespace text₂) with
        | error e => simp [hv] at h
        | ok y =>
          obtain ⟨v, text₃⟩ := y
          simp only [hv] at h
          obtain ⟨rfl, rfl⟩ := Prod.mk.inj (Except.ok.inj h)
          obtain ⟨s', hs', hmeans⟩ := hscan _ v _ hv
          refine ⟨_, ?_, .mk hs hw hw' hmeans⟩
          rw [hquote, hsplit, hcolon, hsplit', hs']
          simp

theorem scanArray_sound (hscan : SoundFor scan means) (h : scanArray scan text = .ok (v, rest)) :
    ∃ body items, text = body ++ ']'.toNat :: rest ∧ Bracketed means body items ∧
      v = .array items := by
  rw [scanArray] at h
  cases hitems : scanBracketed scan ']'.toNat text with
  | error e => simp only [hitems, Except.map, reduceCtorEq] at h
  | ok y =>
    rw [hitems] at h
    obtain ⟨rfl, rfl⟩ := Prod.mk.inj (Except.ok.inj h)
    obtain ⟨body, hbody, hmeans⟩ := scanBracketed_sound hscan _ hitems
    exact ⟨body, y.1, hbody, hmeans, rfl⟩

theorem scanObject_sound (hscan : SoundFor scan means)
    (h : scanObject scan text = .ok (v, rest)) :
    ∃ body pairs, text = body ++ '}'.toNat :: rest ∧ Bracketed (Member means) body pairs ∧
      v = .object (dictOf pairs) := by
  rw [scanObject] at h
  cases hitems : scanBracketed (scanMember scan) '}'.toNat text with
  | error e => simp only [hitems, Except.map, reduceCtorEq] at h
  | ok y =>
    rw [hitems] at h
    obtain ⟨rfl, rfl⟩ := Prod.mk.inj (Except.ok.inj h)
    obtain ⟨body, hbody, hmeans⟩ := scanBracketed_sound (scanMember_sound hscan) _ hitems
    exact ⟨body, y.1, hbody, hmeans, rfl⟩

/-- A value that is in no bracket is a scalar. -/
theorem scanValue_sound {array object : Scan Value}
    (h : scanValue lim array object text = .ok (v, rest)) :
    (∃ s, text = s ++ rest ∧ Scalar s v) ∨
    (∃ text', text = '['.toNat :: text' ∧ array text' = .ok (v, rest)) ∨
    ∃ text', text = '{'.toNat :: text' ∧ object text' = .ok (v, rest) := by
  cases text with
  | nil => simp [scanValue] at h
  | cons c text =>
    rw [scanValue] at h
    split_ifs at h with hquote harray hobject
    · left
      cases hstr : scanString text with
      | error e => simp [hstr, Except.map] at h
      | ok y =>
        rw [hstr] at h
        obtain ⟨rfl, rfl⟩ := Prod.mk.inj (Except.ok.inj h)
        obtain ⟨s, us, hs, hunits, hjoin⟩ := scanString_sound hstr
        refine ⟨'"'.toNat :: (s ++ ['"'.toNat]), by simp [hquote, hs], ?_⟩
        rw [hjoin]
        exact .string hunits
    · exact .inr (.inl ⟨text, by rw [harray], h⟩)
    · exact .inr (.inr ⟨text, by rw [hobject], h⟩)
    · left
      cases hconst : scanConstant (c :: text) with
      | some y =>
        rw [hconst] at h
        obtain ⟨rfl, rfl⟩ := Prod.mk.inj (Except.ok.inj h)
        obtain ⟨name, hname, hmem⟩ := scanConstant_sound hconst
        exact ⟨name, hname, .constant hmem⟩
      | none =>
        rw [hconst] at h
        obtain ⟨s, hs, hnumber⟩ := scanNumber_sound _ _ _ h
        exact ⟨s, hs, .number hnumber⟩

theorem scanOnce_sound (depth : Nat) : SoundFor (scanOnce lim depth) (Means depth) := by
  induction depth with
  | zero =>
    intro text v rest h
    rcases scanValue_sound h with hscalar | ⟨text', -, hdeep⟩ | ⟨text', -, hdeep⟩
    · exact hscalar
    · cases hdeep
    · cases hdeep
  | succ depth ih =>
    intro text v rest h
    rcases scanValue_sound h with ⟨s, hs, hscalar⟩ | ⟨text', rfl, harray⟩ | ⟨text', rfl, hobject⟩
    · exact ⟨s, hs, .inl hscalar⟩
    · obtain ⟨body, items, rfl, hmeans, hv⟩ := scanArray_sound ih harray
      exact ⟨'['.toNat :: (body ++ [']'.toNat]), by simp,
        .inr (.inl ⟨body, items, rfl, hmeans, hv⟩)⟩
    · obtain ⟨body, pairs, rfl, hmeans, hv⟩ := scanObject_sound ih hobject
      exact ⟨'{'.toNat :: (body ++ ['}'.toNat]), by simp,
        .inr (.inr ⟨body, pairs, rfl, hmeans, hv⟩)⟩

/-- What is decoded is a document of the grammar. -/
theorem decodeText_sound (h : decodeText lim text = .ok v) : Document text v := by
  obtain ⟨w, hsplit, hw⟩ := skipWhitespace_split text
  simp only [decodeText] at h
  cases hv : scanOnce lim lim.depth (skipWhitespace text) with
  | error e => simp [hv, bind, Except.bind] at h
  | ok y =>
    obtain ⟨v', rest⟩ := y
    obtain ⟨s, hs, hmeans⟩ := scanOnce_sound lim.depth _ _ _ hv
    obtain ⟨w', hsplit', hw'⟩ := skipWhitespace_split rest
    simp only [hv, bind, Except.bind] at h
    split_ifs at h with hend
    obtain rfl := Except.ok.inj h
    rw [hend, List.append_nil] at hsplit'
    exact ⟨lim.depth, w, s, w', by rw [hsplit, hs, ← hsplit'], hw, hsplit' ▸ hw', hmeans⟩

end Sound

section Complete

variable {α β : Type} {lim : Limits} {fails : ScanError → Prop} {s r text : Text} {v : Value}
  {c : Nat}

/-- What may stand after a value. -/
def Follow (r : Text) : Prop :=
  ∀ c ∈ r.head?, c ∈ [0x20, 0x09, 0x0a, 0x0d, ','.toNat, ']'.toNat, '}'.toNat]

/-- The scan returns `x`, or it fails in one of some ways. -/
def Returns (fails : ScanError → Prop) (m : Except ScanError α) (x : α) : Prop :=
  m = .ok x ∨ ∃ e, fails e ∧ m = .error e

/-- The limits of the scanner. -/
def AtLimit (e : ScanError) : Prop := e = .recursionError ∨ e = .valueError

theorem Returns.bind {m : Except ScanError α} {f : α → Except ScanError β} {x : α} {y : β}
    (hm : Returns fails m x) (hf : Returns fails (f x) y) : Returns fails (m >>= f) y := by
  rcases hm with rfl | ⟨e, he, rfl⟩
  · exact hf
  · exact .inr ⟨e, he, rfl⟩

theorem Returns.map {m : Except ScanError α} {x : α} (f : α → β) (hm : Returns fails m x) :
    Returns fails (m.map f) (f x) := by
  rcases hm with rfl | ⟨e, he, rfl⟩
  · exact .inl rfl
  · exact .inr ⟨e, he, rfl⟩

/-- A text of the grammar with something after it that may follow is scanned up to there. -/
def CompleteFor (fails : ScanError → Prop) (scan : Scan α) (means : Text → α → Prop) : Prop :=
  ∀ s x r, means s x → Follow r → Returns fails (scan (s ++ r)) (x, r)

theorem follow_cons (h : Follow (c :: r)) :
    isDigit c = false ∧ c ≠ '.'.toNat ∧ c ≠ 'e'.toNat ∧ c ≠ 'E'.toNat := by
  have hc := h c rfl
  simp only [List.mem_cons, List.not_mem_nil, or_false] at hc
  rcases hc with rfl | rfl | rfl | rfl | rfl | rfl | rfl <;> decide

theorem follow_whitespace {w : Text} (hw : Whitespace w) (hr : Follow r) : Follow (w ++ r) := by
  cases w with
  | nil => exact hr
  | cons c w =>
    intro c' hc'
    obtain rfl : c = c' := Option.some.inj hc'
    have hc := hw c List.mem_cons_self
    simp only [isWhitespace, List.mem_cons, List.not_mem_nil, or_false, decide_eq_true_eq] at hc
    simp only [List.mem_cons]
    tauto

theorem skipWhitespace_append {w : Text} (hw : Whitespace w) (hc : isWhitespace c = false) :
    skipWhitespace (w ++ c :: r) = c :: r := by
  rw [skipWhitespace, List.dropWhile_append_of_pos hw, List.dropWhile_cons_of_neg (by simp [hc])]

theorem scanUnits_complete {us : List CodeUnit} (h : Units s us) (r : Text) :
    scanUnits (s ++ '"'.toNat :: r) = .ok (us, r) := by
  induction h with
  | nil =>
    rw [List.nil_append, scanUnits.eq_def]
    simp only [if_true]
  | plain hquote hbackslash hcontrol h ih =>
    rw [List.cons_append, scanUnits.eq_def]
    simp only [if_neg hquote, if_neg hbackslash, if_neg (not_lt.mpr hcontrol), ih]
    rfl
  | escape hu he h ih =>
    have hne : '\\'.toNat ≠ '"'.toNat := by decide
    rw [List.cons_append, List.cons_append, scanUnits.eq_def]
    simp only [if_neg hne, if_true, if_neg hu, he, ih]
    rfl
  | unicode hn h ih =>
    have hne : '\\'.toNat ≠ '"'.toNat := by decide
    simp only [List.cons_append]
    rw [scanUnits.eq_def]
    simp only [if_neg hne, if_true, hn, ih]
    rfl

/-- No digit follows. -/
def EndsDigits (r : Text) : Prop := ∀ c ∈ r.head?, isDigit c = false

theorem endsDigits_follow (hr : Follow r) : EndsDigits r := by
  cases r with
  | nil =>
    intro c hc
    cases hc
  | cons c r =>
    intro c' hc'
    obtain rfl : c = c' := Option.some.inj hc'
    exact (follow_cons hr).1

theorem digits_append {ds : Text} (hds : Digits ds) (hr : EndsDigits r) :
    (ds ++ r).takeWhile isDigit = ds ∧ (ds ++ r).dropWhile isDigit = r := by
  rw [List.takeWhile_append_of_pos hds, List.dropWhile_append_of_pos hds]
  cases r with
  | nil => simp
  | cons c r =>
    have hc : ¬isDigit c = true := by simp [hr c rfl]
    rw [List.takeWhile_cons_of_neg hc, List.dropWhile_cons_of_neg hc, List.append_nil]
    exact ⟨rfl, rfl⟩

theorem takeSign_append {signs sign : Text} (hsign : sign = [] ∨ ∃ c ∈ signs, sign = [c])
    (hr : ∀ c ∈ r.head?, c ∉ signs) : takeSign signs (sign ++ r) = (sign, r) := by
  rcases hsign with rfl | ⟨c, hc, rfl⟩
  · cases r with
    | nil => rfl
    | cons c r =>
      rw [List.nil_append, takeSign, if_neg (hr c rfl)]
  · rw [List.singleton_append, takeSign, if_pos hc]

theorem scanInteger_complete (h : IntegerPart s) (hr : EndsDigits r) :
    scanInteger (s ++ r) = some (s, r) := by
  cases h with
  | zero => rfl
  | positive hc hzero hds =>
    obtain ⟨htake, hdrop⟩ := digits_append hds hr
    rw [List.cons_append, scanInteger, if_neg hzero, if_pos hc, htake, hdrop]

theorem scanFraction_complete (h : FractionPart s) (hr : EndsDigits r)
    (hdot : ∀ c ∈ r.head?, c ≠ '.'.toNat) : scanFraction (s ++ r) = (s, r) := by
  cases h with
  | absent =>
    cases r with
    | nil => rfl
    | cons c r => rw [List.nil_append, scanFraction, if_neg fun h => hdot c rfl h.1]
  | present hne hds =>
    obtain ⟨htake, hdrop⟩ := digits_append hds hr
    rw [List.cons_append, scanFraction, htake, hdrop, if_pos ⟨rfl, hne⟩]

theorem scanExponent_complete (h : ExponentPart s) (hr : Follow r) :
    scanExponent (s ++ r) = (s, r) := by
  cases h with
  | absent =>
    cases r with
    | nil => rfl
    | cons c r =>
      obtain ⟨-, -, he, hE⟩ := follow_cons hr
      rw [List.nil_append, scanExponent]
      exact if_neg fun h => h.1.elim he hE
  | @present e sign ds he hsign hne hds =>
    obtain ⟨htake, hdrop⟩ := digits_append hds (endsDigits_follow hr)
    have hhead : ∀ c ∈ (ds ++ r).head?, c ∉ ['+'.toNat, '-'.toNat] := by
      obtain ⟨d, ds', rfl⟩ := List.exists_cons_of_ne_nil hne
      intro c hc hmem
      obtain rfl : d = c := Option.some.inj hc
      have hd := hds d List.mem_cons_self
      simp only [List.mem_cons, List.not_mem_nil, or_false] at hmem
      rcases hmem with rfl | rfl <;> exact absurd hd (by decide)
    have hsigned := takeSign_append (by simpa using hsign) hhead
    rw [List.cons_append, List.cons_append, List.append_assoc, scanExponent, hsigned]
    simp only [htake, hdrop]
    exact if_pos ⟨he, hne⟩

/-- An exponent, or what follows the number, starts with no digit and no point. -/
theorem head_exponent (h : ExponentPart s) (hr : Follow r) :
    ∀ c ∈ (s ++ r).head?, isDigit c = false ∧ c ≠ '.'.toNat := by
  intro c hc
  cases h with
  | absent =>
    cases r with
    | nil => cases hc
    | cons c' r =>
      obtain rfl : c' = c := Option.some.inj hc
      exact ⟨(follow_cons hr).1, (follow_cons hr).2.1⟩
  | present he hsign hne hds =>
    obtain rfl := Option.some.inj hc
    rcases he with rfl | rfl <;> decide

theorem endsDigits_fraction {e : Text} (h : FractionPart s) (he : ExponentPart e)
    (hr : Follow r) : EndsDigits (s ++ (e ++ r)) := by
  cases h with
  | absent => exact fun c hc => (head_exponent he hr c hc).1
  | present hne hds =>
    intro c hc
    obtain rfl := Option.some.inj hc
    decide

theorem head_integer (h : IntegerPart s) : ∃ c t, s = c :: t ∧ isDigit c = true := by
  cases h with
  | zero => exact ⟨_, _, rfl, by decide⟩
  | positive hc hzero hds => exact ⟨_, _, rfl, hc⟩

/-- The scanner takes a number apart as it is put together. -/
theorem scanNumber_eq (lim : Limits) {sign integer fraction exponent : Text}
    (hsign : sign = [] ∨ sign = ['-'.toNat]) (hinteger : IntegerPart integer)
    (hfraction : FractionPart fraction) (hexponent : ExponentPart exponent) (hr : Follow r) :
    scanNumber lim (sign ++ (integer ++ (fraction ++ exponent)) ++ r) =
      if fraction = [] ∧ exponent = [] ∧ lim.digits < integer.length then .error .valueError
      else .ok (numberValue sign integer fraction exponent, r) := by
  have hfrac := endsDigits_fraction hfraction hexponent hr
  have hhead : ∀ c ∈ (integer ++ (fraction ++ (exponent ++ r))).head?, c ∉ ['-'.toNat] := by
    obtain ⟨d, t, rfl, hd⟩ := head_integer hinteger
    intro c hc hmem
    obtain rfl : d = c := Option.some.inj hc
    rw [List.mem_singleton.mp hmem] at hd
    exact absurd hd (by decide)
  have hsigned := takeSign_append (by simpa using hsign) hhead
  have hint := scanInteger_complete hinteger hfrac
  have hfra := scanFraction_complete hfraction
    (fun c hc => (head_exponent hexponent hr c hc).1)
    (fun c hc => (head_exponent hexponent hr c hc).2)
  have hexp := scanExponent_complete hexponent hr
  simp only [scanNumber, List.append_assoc, hsigned, hint, hfra, hexp]

theorem scanNumber_complete (lim : Limits) : CompleteFor AtLimit (scanNumber lim) Number := by
  intro s v r h hr
  obtain @⟨sign, integer, fraction, exponent, hsign, hinteger, hfraction, hexponent⟩ := h
  rw [scanNumber_eq lim hsign hinteger hfraction hexponent hr]
  split_ifs
  · exact .inr ⟨_, .inr rfl, rfl⟩
  · exact .inl rfl

/-- A constant starts with no digit, nor with a sign before a digit. -/
theorem scanConstant_number (h : Number s v) (r : Text) : scanConstant (s ++ r) = none := by
  have hnames : ∀ m ∈ constants, ∃ a ∈ m.1.head?, ∃ b ∈ m.1.tail.head?,
      isDigit a = false ∧ isDigit b = false := by decide
  obtain @⟨sign, integer, fraction, exponent, hsign, hinteger, hfraction, hexponent⟩ := h
  obtain ⟨d, t, rfl, hd⟩ := head_integer hinteger
  rw [scanConstant, List.findSome?_eq_none_iff]
  rintro ⟨name, value⟩ hmem
  obtain ⟨a, ha, b, hb, hna, hnb⟩ := hnames _ hmem
  obtain ⟨name, rfl⟩ := List.head?_eq_some_iff.mp ha
  obtain ⟨name, rfl⟩ := List.head?_eq_some_iff.mp hb
  refine if_neg fun hprefix => ?_
  rcases hsign with rfl | rfl
  · have had := (List.cons_prefix_cons.mp hprefix).1
    rw [had, hd] at hna
    cases hna
  · have hrest := (List.cons_prefix_cons.mp hprefix).2
    have hbd := (List.cons_prefix_cons.mp hrest).1
    rw [hbd, hd] at hnb
    cases hnb

/-- The first character of a value. -/
def Opens (c : Nat) : Prop :=
  isWhitespace c = false ∧ c ≠ ']'.toNat ∧ c ≠ '}'.toNat

instance (c : Nat) : Decidable (Opens c) := inferInstanceAs (Decidable (_ ∧ _))

theorem opens_of_isDigit (h : isDigit c) : Opens c := by
  simp only [isDigit, decide_eq_true_eq] at h
  have h0 : '0'.toNat = 48 := rfl
  have h9 : '9'.toNat = 57 := rfl
  have hbracket : ']'.toNat = 93 := rfl
  have hbrace : '}'.toNat = 125 := rfl
  refine ⟨?_, by omega, by omega⟩
  simp only [isWhitespace, List.mem_cons, List.not_mem_nil, or_false, decide_eq_false_iff_not]
  omega

theorem head_number (h : Number s v) :
    ∃ c t, s = c :: t ∧ Opens c ∧ c ≠ '"'.toNat ∧ c ≠ '['.toNat ∧ c ≠ '{'.toNat := by
  obtain @⟨sign, integer, fraction, exponent, hsign, hinteger, hfraction, hexponent⟩ := h
  obtain ⟨d, t, rfl, hd⟩ := head_integer hinteger
  rcases hsign with rfl | rfl
  · refine ⟨d, _, rfl, opens_of_isDigit hd, ?_, ?_, ?_⟩ <;> rintro rfl <;>
      exact absurd hd (by decide)
  · exact ⟨'-'.toNat, _, rfl, by decide⟩

theorem scanConstant_complete {name : Text} (h : (name, v) ∈ constants) (r : Text) :
    scanConstant (name ++ r) = some (v, r) := by
  simp only [constants, List.mem_cons, List.not_mem_nil, or_false, Prod.mk.injEq] at h
  rcases h with ⟨rfl, rfl⟩ | ⟨rfl, rfl⟩ | ⟨rfl, rfl⟩ | ⟨rfl, rfl⟩ | ⟨rfl, rfl⟩ | ⟨rfl, rfl⟩ <;>
    simp [scanConstant, constants, textOf]

theorem head_constant {name : Text} (h : (name, v) ∈ constants) :
    ∃ c t, name = c :: t ∧ Opens c ∧ c ≠ '"'.toNat ∧ c ≠ '['.toNat ∧ c ≠ '{'.toNat := by
  have hnames : ∀ m ∈ constants, ∃ c ∈ m.1.head?,
      Opens c ∧ c ≠ '"'.toNat ∧ c ≠ '['.toNat ∧ c ≠ '{'.toNat := by decide
  obtain ⟨c, hc, hopens⟩ := hnames _ h
  cases name with
  | nil => cases hc
  | cons a t =>
    obtain rfl : a = c := Option.some.inj hc
    exact ⟨a, t, rfl, hopens⟩

theorem scalar_opens (h : Scalar s v) : ∃ c t, s = c :: t ∧ Opens c := by
  cases h with
  | constant h =>
    obtain ⟨c, t, hs, hopens, -⟩ := head_constant h
    exact ⟨c, t, hs, hopens⟩
  | number h =>
    obtain ⟨c, t, hs, hopens, -⟩ := head_number h
    exact ⟨c, t, hs, hopens⟩
  | string h => exact ⟨_, _, rfl, by decide⟩

section Scalars

variable (lim) (array object : Scan Value)

theorem scanValue_constant {name : Text} (h : (name, v) ∈ constants) (r : Text) :
    scanValue lim array object (name ++ r) = .ok (v, r) := by
  have hconst := scanConstant_complete h r
  obtain ⟨c, t, rfl, -, hquote, harray, hobject⟩ := head_constant h
  rw [List.cons_append] at hconst ⊢
  rw [scanValue, if_neg hquote, if_neg harray, if_neg hobject, hconst]

theorem scanValue_number (h : Number s v) (r : Text) :
    scanValue lim array object (s ++ r) = scanNumber lim (s ++ r) := by
  have hconst := scanConstant_number h r
  obtain ⟨c, t, rfl, -, hquote, harray, hobject⟩ := head_number h
  rw [List.cons_append] at hconst ⊢
  rw [scanValue, if_neg hquote, if_neg harray, if_neg hobject, hconst]

theorem scanValue_string {us : List CodeUnit} (h : Units s us) (r : Text) :
    scanValue lim array object ('"'.toNat :: (s ++ ['"'.toNat]) ++ r) =
      .ok (.string (joinSurrogates us), r) := by
  rw [List.cons_append, scanValue, if_pos rfl, scanString, List.append_assoc,
    List.singleton_append, scanUnits_complete h r]
  rfl

/-- The scanner leaves a scalar to the same branch whatever it does with brackets. -/
theorem scanValue_scalar : CompleteFor AtLimit (scanValue lim array object) Scalar := by
  intro s v r h hr
  cases h with
  | constant h => exact .inl (scanValue_constant lim array object h r)
  | number h =>
    rw [scanValue_number lim array object h r]
    exact scanNumber_complete lim _ _ r h hr
  | string h => exact .inl (scanValue_string lim array object h r)

end Scalars

/-- Every text of `means` starts as a value does. -/
def Starts (means : Text → α → Prop) : Prop := ∀ s x, means s x → ∃ c t, s = c :: t ∧ Opens c

variable {means : Text → α → Prop} {scan : Scan α} {close : Nat}

theorem starts_append (hstarts : Starts means) {x : α} (hx : means s x) {w : Text}
    (hw : Whitespace w) : skipWhitespace (w ++ (s ++ r)) = s ++ r := by
  obtain ⟨c, t, rfl, hopens⟩ := hstarts s x hx
  exact skipWhitespace_append hw hopens.1

theorem items_starts (hstarts : Starts means) : Starts (Items means) := by
  intro s xs h
  cases h with
  | last hx hw =>
    obtain ⟨c, t, rfl, hopens⟩ := hstarts _ _ hx
    exact ⟨c, _, rfl, hopens⟩
  | more hx hw hw' h =>
    obtain ⟨c, t, rfl, hopens⟩ := hstarts _ _ hx
    exact ⟨c, _, rfl, hopens⟩

/-- The two closing brackets. -/
def Closes (close : Nat) : Prop := close = ']'.toNat ∨ close = '}'.toNat

theorem Closes.plain (h : Closes close) :
    isWhitespace close = false ∧ ¬ ','.toNat = close ∧ Follow (close :: r) := by
  rcases h with rfl | rfl
  · exact ⟨by decide, by decide, fun c hc => Option.some.inj hc ▸ by decide⟩
  · exact ⟨by decide, by decide, fun c hc => Option.some.inj hc ▸ by decide⟩

theorem scanItems_complete (hscan : CompleteFor fails scan means) (hstarts : Starts means)
    (hclose : Closes close) {xs : List α} (h : Items means s xs) (r : Text) {fuel : Nat}
    (hfuel : s.length ≤ fuel) :
    Returns fails (scanItems scan close fuel (s ++ close :: r)) (xs, r) := by
  obtain ⟨hwhite, hcomma, hfollow⟩ := hclose.plain (r := r)
  induction h generalizing fuel with
  | @last s w x hx hw =>
    obtain ⟨fuel, rfl⟩ : ∃ n, fuel = n + 1 := by
      obtain ⟨c, t, rfl, -⟩ := hstarts s x hx
      exact Nat.exists_eq_succ_of_ne_zero (by simp at hfuel; omega)
    rw [scanItems, List.append_assoc]
    refine (hscan s x _ hx (follow_whitespace hw hfollow)).bind ?_
    dsimp only
    rw [skipWhitespace_append hw hwhite]
    exact .inl (if_pos rfl)
  | @more s w w' rest x xs hx hw hw' hrest ih =>
    obtain ⟨c, t, rfl, hopens⟩ := hstarts s x hx
    obtain ⟨fuel, rfl⟩ : ∃ n, fuel = n + 1 :=
      Nat.exists_eq_succ_of_ne_zero (by simp at hfuel; omega)
    have hlen : rest.length ≤ fuel := by
      simp only [List.length_append, List.length_cons] at hfuel
      omega
    have hsep : Follow (','.toNat :: (w' ++ (rest ++ close :: r))) :=
      fun c hc => Option.some.inj hc ▸ by decide
    have hassoc : c :: t ++ (w ++ ','.toNat :: (w' ++ rest)) ++ close :: r =
        (c :: t) ++ (w ++ ','.toNat :: (w' ++ (rest ++ close :: r))) := by simp
    rw [scanItems, hassoc]
    refine (hscan _ x _ hx (follow_whitespace hw hsep)).bind ?_
    dsimp only
    rw [skipWhitespace_append hw (by decide)]
    dsimp only
    rw [if_neg hcomma, if_pos rfl, starts_append (items_starts hstarts) hrest hw']
    exact (ih hlen).bind (.inl rfl)

theorem scanBracketed_complete (hscan : CompleteFor fails scan means) (hstarts : Starts means)
    (hclose : Closes close) {xs : List α} (h : Bracketed means s xs) (r : Text) :
    Returns fails (scanBracketed scan close (s ++ close :: r)) (xs, r) := by
  obtain ⟨hwhite, -, -⟩ := hclose.plain (r := r)
  cases h with
  | empty hw =>
    simp only [scanBracketed, skipWhitespace_append hw hwhite]
    exact .inl (if_pos rfl)
  | @items w s xs hw h =>
    obtain ⟨c, t, rfl, hopens⟩ := items_starts hstarts s xs h
    have hne : ¬(c :: t ++ close :: r).head? = some close := by
      rw [List.cons_append, List.head?_cons, Option.some.injEq]
      rcases hclose with rfl | rfl
      · exact hopens.2.1
      · exact hopens.2.2
    simp only [scanBracketed, List.append_assoc]
    rw [starts_append (items_starts hstarts) h hw, if_neg hne]
    refine scanItems_complete hscan hstarts hclose h r ?_
    simp only [List.length_append]
    omega

variable {means : Text → Value → Prop} {scan : Scan Value}

theorem member_starts : Starts (Member means) := by
  intro s x h
  cases h with
  | mk hkey hw hw' hv => exact ⟨_, _, rfl, by decide⟩

theorem scanMember_complete (hscan : CompleteFor fails scan means) (hstarts : Starts means) :
    CompleteFor fails (scanMember scan) (Member means) := by
  intro s x r h hr
  obtain @⟨key, w, w', s, us, v, hkey, hw, hw', hv⟩ := h
  have hassoc : '"'.toNat :: (key ++ '"'.toNat :: (w ++ ':'.toNat :: (w' ++ s))) ++ r =
      '"'.toNat :: (key ++ '"'.toNat :: (w ++ ':'.toNat :: (w' ++ (s ++ r)))) := by simp
  rw [hassoc, scanMember, if_pos rfl, scanString, scanUnits_complete hkey]
  refine Returns.bind (.inl rfl) ?_
  dsimp only
  rw [skipWhitespace_append hw (by decide)]
  dsimp only
  rw [if_pos rfl, starts_append hstarts hv hw']
  exact (hscan s v r hv hr).bind (.inl rfl)

theorem means_starts (depth : Nat) : Starts (Means depth) := by
  intro s v h
  cases depth with
  | zero => exact scalar_opens h
  | succ depth =>
    rcases h with h | ⟨body, items, rfl, -⟩ | ⟨body, pairs, rfl, -⟩
    · exact scalar_opens h
    · exact ⟨_, _, rfl, by decide⟩
    · exact ⟨_, _, rfl, by decide⟩

/-- The scanner returns what a text of the grammar means, or has no room for its nesting or
one of its numbers. -/
theorem scanOnce_complete (nesting depth : Nat) :
    CompleteFor AtLimit (scanOnce lim depth) (Means nesting) := by
  have hscalar : ∀ depth, CompleteFor AtLimit (scanOnce lim depth) Scalar := by
    intro depth
    cases depth with
    | zero => exact scanValue_scalar lim _ _
    | succ depth => exact scanValue_scalar lim _ _
  induction nesting generalizing depth with
  | zero => exact hscalar depth
  | succ nesting ih =>
    intro s v r h hr
    rcases h with h | ⟨body, items, rfl, h, rfl⟩ | ⟨body, pairs, rfl, h, rfl⟩
    · exact hscalar depth s v r h hr
    · have hassoc : '['.toNat :: (body ++ [']'.toNat]) ++ r =
          '['.toNat :: (body ++ ']'.toNat :: r) := by simp
      rw [hassoc]
      cases depth with
      | zero => exact .inr ⟨_, .inl rfl, rfl⟩
      | succ depth =>
        exact (scanBracketed_complete (ih depth) (means_starts nesting) (.inl rfl) h r).map
          fun x => (Value.array x.1, x.2)
    · have hassoc : '{'.toNat :: (body ++ ['}'.toNat]) ++ r =
          '{'.toNat :: (body ++ '}'.toNat :: r) := by simp
      rw [hassoc]
      cases depth with
      | zero => exact .inr ⟨_, .inl rfl, rfl⟩
      | succ depth =>
        exact (scanBracketed_complete (scanMember_complete (ih depth) (means_starts nesting))
          member_starts (.inr rfl) h r).map fun x => (Value.object (dictOf x.1), x.2)

theorem decodeText_complete (lim : Limits) (h : Document text v) :
    Returns AtLimit (decodeText lim text) v := by
  obtain ⟨nesting, w, s, w', rfl, hw, hw', hmeans⟩ := h
  have hend : skipWhitespace w' = [] := List.dropWhile_eq_nil_iff.mpr hw'
  have hfollow : Follow (w' ++ []) := follow_whitespace hw' fun c hc => by cases hc
  rw [List.append_nil] at hfollow
  rw [decodeText, starts_append (means_starts nesting) hmeans hw]
  refine (scanOnce_complete nesting lim.depth s v w' hmeans hfollow).bind ?_
  exact .inl (if_pos hend)

end Complete

/-- Below its limits the scanner decides the grammar. -/
theorem decodeText_iff {lim : Limits} {text : Text}
    (hlim : ∀ e, decodeText lim text = .error e → e = .jsonDecodeError) (v : Value) :
    decodeText lim text = .ok v ↔ Document text v := by
  constructor
  · exact decodeText_sound
  · intro h
    rcases decodeText_complete lim h with hok | ⟨e, rfl | rfl, herr⟩
    · exact hok
    · exact absurd (hlim _ herr) (by decide)
    · exact absurd (hlim _ herr) (by decide)

end PartnerHub.Lib.Json
