import PartnerHub.Lib.Json.Loaded

/-!
# Values in a JSONB column

What a client reads back of a JSON value that PostgreSQL has taken. Strings are texts of Unicode
characters other than U+0000, in which an escaped surrogate pair is one character. A number is
kept by its value, so that a float may come back as another literal or as an integer. Of members
with one key the last counts, and the order of the members is lost.
-/
namespace PartnerHub.Lib.Json

/-- The text that the escapes of a string stand for. -/
def joined (s : Text) : Text := joinSurrogates (s.flatMap unitsOf)

/-- A code point that is not a surrogate. -/
def ScalarPoint (c : Nat) : Prop := c ≤ 0x10ffff ∧ ¬HighSurrogate c ∧ ¬LowSurrogate c

/-- A character a text of the database can hold. -/
def Character (c : Nat) : Prop := ScalarPoint c ∧ c ≠ 0

instance (c : Nat) : Decidable (Character c) :=
  inferInstanceAs (Decidable ((c ≤ 0x10ffff ∧ ¬HighSurrogate c ∧ ¬LowSurrogate c) ∧ c ≠ 0))

section Decimal

def exponentOf : Text → Int
  | [] => 0
  | _ :: rest =>
    let (sign, digits) := takeSign ['+'.toNat, '-'.toNat] rest
    if sign = ['-'.toNat] then -(natOf digits : Int) else natOf digits

/-- The number with this literal. -/
def decimal (sign integer fraction exponent : Text) : ℚ :=
  (if sign = [] then 1 else -1) * natOf (integer ++ fraction.drop 1) *
    (10 : ℚ) ^ (exponentOf exponent - (fraction.drop 1).length)

inductive Denotes : Text → ℚ → Prop
  | mk {sign integer fraction exponent : Text} (hsign : sign = [] ∨ sign = ['-'.toNat])
      (hinteger : IntegerPart integer) (hfraction : FractionPart fraction)
      (hexponent : ExponentPart exponent) :
      Denotes (sign ++ (integer ++ (fraction ++ exponent)))
        (decimal sign integer fraction exponent)

example : decimal (textOf "-") (textOf "1") (textOf ".25") (textOf "e2") = -125 := by decide +kernel

end Decimal

/-- The second value is read back of the first one, whose floats are written as they are
spelled; a float is smaller than `10 ^ 309`. -/
inductive Stored (floats : FloatText) : Value → Value → Prop
  | null : Stored floats .null .null
  | bool (b : Bool) : Stored floats (.bool b) (.bool b)
  | int (n : Int) : Stored floats (.int n) (.int n)
  | integral {t : Text} {n : Int} (h : Denotes (floats.text t) n) (hn : n.natAbs < 10 ^ 309) :
      Stored floats (.float t) (.int n)
  | float {t t' : Text} {q : ℚ} (h : Denotes (floats.text t) q) (h' : Denotes t' q)
      (hliteral : FloatLiteral t') : Stored floats (.float t) (.float t')
  | string {s : Text} (h : ∀ c ∈ joined s, Character c) :
      Stored floats (.string s) (.string (joined s))
  | array {items : List (Value × Value)} (h : ∀ p ∈ items, Stored floats p.1 p.2) :
      Stored floats (.array (items.map Prod.fst)) (.array (items.map Prod.snd))
  | object {members members' : List (Text × Value)} {entries : List (Text × Value × Value)}
      (hentries : dictOf (members.map fun m => (joined m.1, m.2)) =
        entries.map fun e => (e.1, e.2.1))
      (hkeys : ∀ e ∈ entries, ∀ c ∈ e.1, Character c)
      (h : ∀ e ∈ entries, Stored floats e.2.1 e.2.2)
      (hperm : members'.Perm (entries.map fun e => (e.1, e.2.2))) :
      Stored floats (.object members) (.object members')

section Joined

variable {s : Text}

theorem wellPaired_of_points (h : ∀ c ∈ s, ScalarPoint c) : WellPaired s := by
  refine ⟨fun c hc => (h c hc).1, ?_⟩
  induction s with
  | nil => exact .nil
  | cons c s ih =>
    obtain ⟨hc, hs⟩ := List.forall_mem_cons.mp h
    exact (ih hs).cons fun d _ hpair => hc.2.1 hpair.1

theorem wellPaired_of_characters (h : ∀ c ∈ s, Character c) : WellPaired s :=
  wellPaired_of_points fun c hc => (h c hc).1

theorem joined_of_wellPaired (h : WellPaired s) : joined s = s := joinSurrogates_unitsOf h

theorem joined_members {members : List (Text × Value)} (h : ∀ m ∈ members, WellPaired m.1) :
    members.map (fun m => (joined m.1, m.2)) = members := by
  refine (List.map_congr_left fun m hm => ?_).trans (List.map_id members)
  rw [joined_of_wellPaired (h m hm)]
  rfl

end Joined

section Stored

variable {floats : FloatText} {v w : Value} {lim : Limits}
  {members members' : List (Text × Value)} {entries : List (Text × Value × Value)}

/-- The keys that are read back differ. -/
theorem nodup_entries (hentries : dictOf (members.map fun m => (joined m.1, m.2)) =
    entries.map fun e => (e.1, e.2.1)) : (entries.map Prod.fst).Nodup := by
  have hkeys := nodup_dictOf (members.map fun m => (joined m.1, m.2))
  rw [hentries, List.map_map] at hkeys
  exact hkeys

/-- Whatever was written, what is read back is a value without lone surrogates. -/
theorem Stored.valid (h : Stored floats v w) : Valid w := by
  induction h with
  | null => exact .null
  | bool b => exact .bool b
  | int n => exact .int n
  | integral h hn => exact .int _
  | float h h' hliteral => exact .float hliteral
  | string h => exact .string (wellPaired_of_characters h)
  | array h ih =>
    refine .array fun v hv => ?_
    obtain ⟨p, hp, rfl⟩ := List.mem_map.mp hv
    exact ih p hp
  | @object members members' entries hentries hkeys h hperm ih =>
    have hmember : ∀ m ∈ members', WellPaired m.1 ∧ Valid m.2 := by
      intro m hm
      obtain ⟨e, he, rfl⟩ := List.mem_map.mp (hperm.mem_iff.mp hm)
      exact ⟨wellPaired_of_characters (hkeys e he), ih e he⟩
    refine .object ?_ (fun m hm => (hmember m hm).1) fun m hm => (hmember m hm).2
    rw [(hperm.map Prod.fst).nodup_iff, List.map_map]
    exact nodup_entries hentries

/-- What is read back nests no deeper, and its integers are no longer than those that were
written or than those of a float. -/
theorem Stored.fits (hdigits : 309 ≤ lim.digits) (h : Stored floats v w) {depth : Nat}
    (hfits : Fits lim depth v) : Fits lim depth w := by
  induction h generalizing depth with
  | null => exact hfits
  | bool b => exact hfits
  | int n => exact hfits
  | @integral t n h hn =>
    rw [fits_int, digitsText, List.length_map]
    exact ((Nat.length_toDigits_le_iff (by decide) (by decide)).mpr hn).trans hdigits
  | float h h' hliteral => cases depth <;> trivial
  | string h => cases depth <;> trivial
  | array h ih =>
    cases depth with
    | zero => exact hfits.elim
    | succ depth =>
      intro v hv
      obtain ⟨p, hp, rfl⟩ := List.mem_map.mp hv
      exact ih p hp (hfits p.1 (List.mem_map_of_mem hp))
  | @object members members' entries hentries hkeys h hperm ih =>
    cases depth with
    | zero => exact hfits.elim
    | succ depth =>
      intro m hm
      obtain ⟨e, he, rfl⟩ := List.mem_map.mp (hperm.mem_iff.mp hm)
      have hwritten : (e.1, e.2.1) ∈ entries.map fun e => (e.1, e.2.1) := List.mem_map_of_mem he
      rw [← hentries] at hwritten
      obtain ⟨m, hm, heq⟩ := List.mem_map.mp (mem_dictOf hwritten)
      have hvalue : m.2 = e.2.1 := congrArg Prod.snd heq
      exact ih e he (hvalue ▸ hfits m hm)

/-- A dict with texts for keys comes back with these keys and what is stored under them. -/
theorem Stored.of_object (h : Stored floats (.object members) w)
    (hnodup : (members.map Prod.fst).Nodup) (hpaired : ∀ m ∈ members, WellPaired m.1) :
    ∃ members', w = .object members' ∧ (members'.map Prod.fst).Perm (members.map Prod.fst) ∧
      ∀ m ∈ members, ∃ v, Stored floats m.2 v ∧ (m.1, v) ∈ members' := by
  cases h with
  | object hentries hkeys h hperm =>
    rename_i members' entries
    rw [joined_members hpaired, dictOf_of_nodup hnodup] at hentries
    refine ⟨members', rfl, ?_, ?_⟩
    · rw [hentries, List.map_map]
      refine (hperm.map Prod.fst).trans ?_
      rw [List.map_map]
      exact List.Perm.refl _
    · intro m hm
      rw [hentries] at hm
      obtain ⟨e, he, rfl⟩ := List.mem_map.mp hm
      exact ⟨e.2.2, h e he, hperm.mem_iff.mpr (List.mem_map_of_mem he)⟩

theorem Stored.text {s : Text} (h : ∀ c ∈ s, Character c) :
    Stored floats (.string s) (.string s) := by
  have hjoined := joined_of_wellPaired (wellPaired_of_characters h)
  have hstored : Stored floats (.string s) (.string (joined s)) := .string (hjoined.symm ▸ h)
  rw [hjoined] at hstored
  exact hstored

/-- Members that come back as they are come back in any order. -/
theorem Stored.reordered (hnodup : (members.map Prod.fst).Nodup)
    (hkeys : ∀ m ∈ members, ∀ c ∈ m.1, Character c) (h : ∀ m ∈ members, Stored floats m.2 m.2)
    (hperm : members'.Perm members) : Stored floats (.object members) (.object members') := by
  have hpaired : ∀ m ∈ members, WellPaired m.1 := fun m hm =>
    wellPaired_of_characters (hkeys m hm)
  refine @Stored.object floats members members' (members.map fun m => (m.1, m.2, m.2)) ?_ ?_ ?_ ?_
  · rw [joined_members hpaired, dictOf_of_nodup hnodup, List.map_map]
    exact (List.map_id members).symm
  · intro e he
    obtain ⟨m, hm, rfl⟩ := List.mem_map.mp he
    exact hkeys m hm
  · intro e he
    obtain ⟨m, hm, rfl⟩ := List.mem_map.mp he
    exact h m hm
  · rw [List.map_map]
    exact hperm.trans (List.Perm.of_eq (List.map_id members).symm)

theorem Stored.of_string {s : Text} (h : Stored floats (.string s) w) (hs : WellPaired s) :
    w = .string s := by
  cases h with
  | string h => rw [joined_of_wellPaired hs]

end Stored

end PartnerHub.Lib.Json
