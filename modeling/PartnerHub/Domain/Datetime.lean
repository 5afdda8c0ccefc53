import PartnerHub.Domain.Records
import PartnerHub.Lib.Json.Scanner

/-!
# Timestamps as texts

`datetime.isoformat` of an aware UTC timestamp, which is what the hub puts into its envelopes,
and `datetime.fromisoformat` on the texts it writes.
-/
namespace PartnerHub.Domain

open PartnerHub.Lib.Json (Text isDigit natOf)

/-- `_is_leap`. -/
def isLeap (year : Nat) : Bool := year % 4 = 0 ∧ (year % 100 ≠ 0 ∨ year % 400 = 0)

/-- `_days_in_month`. -/
def daysInMonth (year month : Nat) : Nat :=
  if month = 2 then if isLeap year then 29 else 28
  else if month = 4 ∨ month = 6 ∨ month = 9 ∨ month = 11 then 30
  else 31

structure DatetimeFields where
  year : Nat
  month : Nat
  day : Nat
  hour : Nat
  minute : Nat
  second : Nat
  microsecond : Nat
  deriving DecidableEq, Repr

/-- `_check_date_fields` and `_check_time_fields`. -/
structure DatetimeFields.InRange (f : DatetimeFields) : Prop where
  year : 1 ≤ f.year ∧ f.year ≤ 9999
  month : 1 ≤ f.month ∧ f.month ≤ 12
  day : 1 ≤ f.day ∧ f.day ≤ daysInMonth f.year f.month
  hour : f.hour ≤ 23
  minute : f.minute ≤ 59
  second : f.second ≤ 59
  microsecond : f.microsecond ≤ 999999

instance (f : DatetimeFields) : Decidable f.InRange :=
  decidable_of_iff ((1 ≤ f.year ∧ f.year ≤ 9999) ∧ (1 ≤ f.month ∧ f.month ≤ 12) ∧
      (1 ≤ f.day ∧ f.day ≤ daysInMonth f.year f.month) ∧ f.hour ≤ 23 ∧ f.minute ≤ 59 ∧
      f.second ≤ 59 ∧ f.microsecond ≤ 999999)
    ⟨fun h => ⟨h.1, h.2.1, h.2.2.1, h.2.2.2.1, h.2.2.2.2.1, h.2.2.2.2.2.1, h.2.2.2.2.2.2⟩,
      fun h => ⟨h.year, h.month, h.day, h.hour, h.minute, h.second, h.microsecond⟩⟩

/-- An aware UTC timestamp. -/
abbrev Datetime := { f : DatetimeFields // f.InRange }

/-- `_ymd2ord`. -/
def DatetimeFields.toordinal (f : DatetimeFields) : Nat :=
  let before := f.year - 1
  before * 365 + before / 4 - before / 100 + before / 400 +
    ((List.range (f.month - 1)).map fun m => daysInMonth f.year (m + 1)).sum + f.day

/-- Seconds since the day before the first of January of the year 1. -/
def Datetime.time (d : Datetime) : Time :=
  (((d.val.toordinal * 24 + d.val.hour) * 60 + d.val.minute) * 60 + d.val.second : Nat) +
    (d.val.microsecond : ℚ) / 1000000

/-- `'{:0wd}'.format(n)` where `n` has no more than `w` digits. -/
def padded : Nat → Nat → Text
  | 0, _ => []
  | w + 1, n => padded w (n / 10) ++ ['0'.toNat + n % 10]

/-- `datetime.isoformat`; the microseconds are left out when there are none. -/
def isoformat (d : Datetime) : Text :=
  padded 4 d.val.year ++ '-'.toNat :: (padded 2 d.val.month ++ '-'.toNat ::
    (padded 2 d.val.day ++ 'T'.toNat :: (padded 2 d.val.hour ++ ':'.toNat ::
      (padded 2 d.val.minute ++ ':'.toNat :: (padded 2 d.val.second ++
        ((if d.val.microsecond = 0 then [] else '.'.toNat :: padded 6 d.val.microsecond) ++
          Lib.Json.textOf "+00:00"))))))

def takeDigits (w : Nat) (text : Text) : Option (Nat × Text) :=
  if (text.take w).length = w ∧ (text.take w).all isDigit then
    some (natOf (text.take w), text.drop w)
  else none

def expectChar (c : Char) : Text → Option Text
  | x :: rest => if x = c.toNat then some rest else none
  | [] => none

/-- The fraction of the seconds, if there is one. -/
def takeFraction : Text → Option (Nat × Text)
  | x :: rest => if x = '.'.toNat then takeDigits 6 rest else some (0, x :: rest)
  | [] => some (0, [])

/-- `datetime.fromisoformat` on the extended format with seconds, and `replace(tzinfo=UTC)` when
there is no offset; the other formats and offsets it knows are not written anywhere. -/
def fromisoformat (text : Text) : Option Datetime := do
  let (year, text) ← takeDigits 4 text
  let text ← expectChar '-' text
  let (month, text) ← takeDigits 2 text
  let text ← expectChar '-' text
  let (day, text) ← takeDigits 2 text
  let text ← expectChar 'T' text
  let (hour, text) ← takeDigits 2 text
  let text ← expectChar ':' text
  let (minute, text) ← takeDigits 2 text
  let text ← expectChar ':' text
  let (second, text) ← takeDigits 2 text
  let (microsecond, text) ← takeFraction text
  if text = [] ∨ text = Lib.Json.textOf "+00:00" then
    let fields : DatetimeFields := ⟨year, month, day, hour, minute, second, microsecond⟩
    if h : fields.InRange then some ⟨fields, h⟩ else none
  else none

section RoundTrip

theorem natOf_snoc (ds : Text) (d : Nat) : natOf (ds ++ ['0'.toNat + d]) = 10 * natOf ds + d := by
  rw [natOf, List.foldl_append, List.foldl_cons, List.foldl_nil, ← natOf, Nat.add_sub_cancel_left]

theorem natOf_padded (w n : Nat) : natOf (padded w n) = n % 10 ^ w := by
  induction w generalizing n with
  | zero => rw [pow_zero, Nat.mod_one, padded, natOf, List.foldl_nil]
  | succ w ih =>
    rw [padded, natOf_snoc, ih, pow_succ', Nat.mod_mul]
    omega

theorem length_padded (w n : Nat) : (padded w n).length = w := by
  induction w generalizing n with
  | zero => rfl
  | succ w ih => rw [padded, List.length_append, ih, List.length_singleton]

theorem digits_padded (w n : Nat) : (padded w n).all isDigit = true := by
  induction w generalizing n with
  | zero => rfl
  | succ w ih =>
    have hlast : isDigit ('0'.toNat + n % 10) = true := by
      have h0 : '0'.toNat = 48 := rfl
      have h9 : '9'.toNat = 57 := rfl
      rw [isDigit, decide_eq_true_eq]
      omega
    rw [padded, List.all_append, ih, List.all_cons, hlast, List.all_nil]
    rfl

theorem takeDigits_padded {w n : Nat} (h : n < 10 ^ w) (rest : Text) :
    takeDigits w (padded w n ++ rest) = some (n, rest) := by
  have hlen := length_padded w n
  have htake : (padded w n ++ rest).take w = padded w n := by
    rw [List.take_append_of_le_length hlen.ge, List.take_of_length_le hlen.le]
  have hdrop : (padded w n ++ rest).drop w = rest := by
    rw [List.drop_append_of_le_length hlen.ge, List.drop_of_length_le hlen.le, List.nil_append]
  rw [takeDigits, htake, hdrop, if_pos ⟨hlen, digits_padded w n⟩, natOf_padded,
    Nat.mod_eq_of_lt h]

theorem expectChar_cons (c : Char) (rest : Text) : expectChar c (c.toNat :: rest) = some rest :=
  if_pos rfl

theorem takeFraction_microsecond {n : Nat} (h : n ≤ 999999) :
    takeFraction ((if n = 0 then [] else '.'.toNat :: padded 6 n) ++ Lib.Json.textOf "+00:00") =
      some (n, Lib.Json.textOf "+00:00") := by
  split_ifs with hzero
  · rw [hzero]
    decide
  · rw [List.cons_append, takeFraction, if_pos rfl]
    exact takeDigits_padded (by omega) _

theorem daysInMonth_le (year month : Nat) : daysInMonth year month ≤ 31 := by
  unfold daysInMonth
  split_ifs <;> omega

/-- A timestamp is read back from its text. -/
theorem fromisoformat_isoformat (d : Datetime) : fromisoformat (isoformat d) = some d := by
  obtain ⟨f, h⟩ := d
  have hyear := h.year
  have hmonth := h.month
  have hday := h.day
  have hhour := h.hour
  have hminute := h.minute
  have hsecond := h.second
  have hlast := daysInMonth_le f.year f.month
  dsimp only [fromisoformat, isoformat]
  rw [takeDigits_padded (by omega)]
  simp only [Option.bind_eq_bind, Option.bind_some, expectChar_cons]
  rw [takeDigits_padded (by omega)]
  simp only [Option.bind_some, expectChar_cons]
  rw [takeDigits_padded (by omega)]
  simp only [Option.bind_some, expectChar_cons]
  rw [takeDigits_padded (by omega)]
  simp only [Option.bind_some, expectChar_cons]
  rw [takeDigits_padded (by omega)]
  simp only [Option.bind_some, expectChar_cons]
  rw [takeDigits_padded (by omega)]
  simp only [Option.bind_some]
  rw [takeFraction_microsecond h.microsecond]
  simp only [Option.bind_some, or_true, if_true]
  exact dif_pos h

end RoundTrip

end PartnerHub.Domain
