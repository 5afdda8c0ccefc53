import PartnerHub.Lib.Json.RoundTrip

/-!
# What `json.loads` returns, `json.dumps` writes

A loaded value nests no deeper than the scanner does and has no longer integers than it reads,
so the encoder finds room for it. The keys of its dicts are different.
-/
namespace PartnerHub.Lib.Json

/-- The value is within the limits, with this much nesting. -/
def Fits (lim : Limits) : Nat → Value → Prop
  | _, .int n => (digitsText n.natAbs).length ≤ lim.digits
  | 0, .array _ => False
  | 0, .object _ => False
  | depth + 1, .array items => ∀ v ∈ items, Fits lim depth v
  | depth + 1, .object members => ∀ m ∈ members, Fits lim depth m.2
  | _, _ => True

section Bracketed

variable {α : Type} {means : Text → α → Prop} {text : Text} {xs : List α}

/-- Each element comes from a part of the text. -/
theorem items_mem (h : Items means text xs) {x : α} (hx : x ∈ xs) : ∃ s, means s x := by
  induction h with
  | last hy hw =>
    obtain rfl := List.mem_singleton.mp hx
    exact ⟨_, hy⟩
  | more hy hw hw' hrest ih =>
    rcases List.mem_cons.mp hx with rfl | hx
    · exact ⟨_, hy⟩
    · exact ih hx

theorem bracketed_mem (h : Bracketed means text xs) {x : α} (hx : x ∈ xs) : ∃ s, means s x := by
  cases h with
  | empty hw => cases hx
  | items hw h => exact items_mem h hx

end Bracketed

section Dict

variable {members pairs : List (Text × Value)}

theorem mem_setMember {key : Text} {v : Value} {m : Text × Value}
    (h : m ∈ setMember members key v) : m ∈ members ∨ m = (key, v) := by
  unfold setMember at h
  split_ifs at h with hany
  · obtain ⟨m', hm', rfl⟩ := List.mem_map.mp h
    split_ifs with hkey
    · exact .inr rfl
    · exact .inl hm'
  · simpa using h

theorem keys_setMember (members : List (Text × Value)) (key : Text) (v : Value)
    (h : (members.map Prod.fst).Nodup) : ((setMember members key v).map Prod.fst).Nodup := by
  by_cases hmem : key ∈ members.map Prod.fst
  · have hany : members.any (·.1 = key) = true := by
      obtain ⟨m, hm, hkey⟩ := List.mem_map.mp hmem
      exact List.any_eq_true.mpr ⟨m, hm, by simpa using hkey⟩
    have hkeys : (members.map fun m => if m.1 = key then (key, v) else m).map Prod.fst =
        members.map Prod.fst := by
      rw [List.map_map]
      apply List.map_congr_left
      intro m hm
      rw [Function.comp_apply]
      split_ifs with hkey
      · exact hkey.symm
      · rfl
    rw [setMember, if_pos hany, hkeys]
    exact h
  · rw [setMember_of_not_mem v hmem, List.map_append, List.map_singleton]
    refine List.nodup_append.mpr ⟨h, List.nodup_singleton key, fun a ha b hb hab => hmem ?_⟩
    obtain rfl : b = key := List.mem_singleton.mp hb
    exact hab ▸ ha

theorem dictOf_snoc (pairs : List (Text × Value)) (pair : Text × Value) :
    dictOf (pairs ++ [pair]) = setMember (dictOf pairs) pair.1 pair.2 := by
  rw [dictOf, List.foldl_append, List.foldl_cons, List.foldl_nil, ← dictOf]

theorem mem_dictOf {m : Text × Value} (h : m ∈ dictOf pairs) : m ∈ pairs := by
  induction pairs using List.reverseRecOn with
  | nil => cases h
  | append_singleton pairs pair ih =>
    rw [dictOf_snoc] at h
    rcases mem_setMember h with hm | rfl
    · exact List.mem_append_left _ (ih hm)
    · exact List.mem_append_right _ (List.mem_singleton_self _)

theorem nodup_dictOf (pairs : List (Text × Value)) : ((dictOf pairs).map Prod.fst).Nodup := by
  induction pairs using List.reverseRecOn with
  | nil => exact List.nodup_nil
  | append_singleton pairs pair ih =>
    rw [dictOf_snoc]
    exact keys_setMember _ _ _ ih

end Dict

theorem mapM_of_forall {α β ε : Type} {f : α → Except ε β} {xs : List α}
    (h : ∀ x ∈ xs, ∃ y, f x = .ok y) : ∃ ys, xs.mapM f = .ok ys := by
  induction xs with
  | nil => exact ⟨[], rfl⟩
  | cons x xs ih =>
    obtain ⟨y, hy⟩ := h x List.mem_cons_self
    obtain ⟨ys, hys⟩ := ih fun z hz => h z (List.mem_cons_of_mem _ hz)
    exact ⟨y :: ys, by rw [List.mapM_cons, hy, hys]; rfl⟩

section Fits

variable {lim : Limits} {depth : Nat} {text rest : Text} {v : Value}

theorem natOf_lt {ds : Text} (h : Digits ds) : natOf ds < 10 ^ ds.length := by
  induction ds using List.reverseRecOn with
  | nil => decide
  | append_singleton ds c ih =>
    have hhead := ih fun d hd => h d (List.mem_append_left _ hd)
    have hc := h c (by simp)
    rw [isDigit, decide_eq_true_eq] at hc
    have h0 : '0'.toNat = 48 := rfl
    have h9 : '9'.toNat = 57 := rfl
    rw [natOf, List.foldl_append, List.foldl_cons, List.foldl_nil, ← natOf, List.length_append,
      List.length_singleton, pow_succ]
    omega

/-- A number is written with no more digits than it was read from. -/
theorem length_digitsText_le {integer : Text} (h : IntegerPart integer) :
    (digitsText (natOf integer)).length ≤ integer.length := by
  have hdigits : Digits integer := by
    cases h with
    | zero => simp [Digits, isDigit]
    | positive hc hzero hds => exact List.forall_mem_cons.mpr ⟨hc, hds⟩
  have hpos : 0 < integer.length := by
    obtain ⟨c, t, rfl, -⟩ := head_integer h
    exact Nat.succ_pos _
  rw [digitsText, List.length_map, Nat.length_toDigits_le_iff (by decide) hpos]
  exact natOf_lt hdigits

theorem fits_int (n : Int) :
    Fits lim depth (.int n) ↔ (digitsText n.natAbs).length ≤ lim.digits := by
  cases depth <;> rfl

theorem fits_numberValue {sign integer fraction exponent : Text} (h : IntegerPart integer)
    (hdigits : ¬(fraction = [] ∧ exponent = [] ∧ lim.digits < integer.length)) :
    Fits lim depth (numberValue sign integer fraction exponent) := by
  have hlen := length_digitsText_le h
  unfold numberValue
  split_ifs with hint hsign
  · rw [fits_int, Int.natAbs_natCast]
    exact hlen.trans (not_lt.mp fun hlong => hdigits ⟨hint.1, hint.2, hlong⟩)
  · rw [fits_int, Int.natAbs_neg, Int.natAbs_natCast]
    exact hlen.trans (not_lt.mp fun hlong => hdigits ⟨hint.1, hint.2, hlong⟩)
  · cases depth <;> trivial

theorem fits_number (h : scanNumber lim text = .ok (v, rest)) : Fits lim depth v := by
  simp only [scanNumber] at h
  cases hinteger : scanInteger (takeSign ['-'.toNat] text).2 with
  | none => simp only [hinteger, reduceCtorEq] at h
  | some x =>
    obtain ⟨integer, text₁⟩ := x
    simp only [hinteger] at h
    split_ifs at h with hlong
    obtain ⟨rfl, -⟩ := Prod.mk.inj (Except.ok.inj h)
    exact fits_numberValue (scanInteger_sound hinteger).2 hlong

theorem fits_constant {name : Text} (h : (name, v) ∈ constants) : Fits lim depth v := by
  simp only [constants, List.mem_cons, List.not_mem_nil, or_false, Prod.mk.injEq] at h
  rcases h with ⟨-, rfl⟩ | ⟨-, rfl⟩ | ⟨-, rfl⟩ | ⟨-, rfl⟩ | ⟨-, rfl⟩ | ⟨-, rfl⟩ <;>
    cases depth <;> trivial

/-- A scalar is within the limits, whatever the brackets are. -/
theorem fits_scanValue {array object : Scan Value}
    (harray : ∀ text, array text = .ok (v, rest) → Fits lim depth v)
    (hobject : ∀ text, object text = .ok (v, rest) → Fits lim depth v)
    (h : scanValue lim array object text = .ok (v, rest)) : Fits lim depth v := by
  cases text with
  | nil => simp [scanValue] at h
  | cons c text =>
    rw [scanValue] at h
    split_ifs at h
    · cases hstr : scanString text with
      | error e => simp [hstr, Except.map] at h
      | ok y =>
        rw [hstr] at h
        obtain ⟨rfl, -⟩ := Prod.mk.inj (Except.ok.inj h)
        cases depth <;> trivial
    · exact harray text h
    · exact hobject text h
    · cases hconst : scanConstant (c :: text) with
      | some y =>
        rw [hconst] at h
        obtain ⟨rfl, -⟩ := Prod.mk.inj (Except.ok.inj h)
        obtain ⟨name, -, hname⟩ := scanConstant_sound hconst
        exact fits_constant hname
      | none =>
        rw [hconst] at h
        exact fits_number h

theorem fits_scanOnce (depth : Nat) :
    SoundFor (scanOnce lim depth) fun _ v => Fits lim depth v := by
  induction depth with
  | zero =>
    intro text v rest h
    obtain ⟨s, hs, -⟩ := scanOnce_sound 0 text v rest h
    refine ⟨s, hs, fits_scanValue ?_ ?_ h⟩
    · intro text h
      cases h
    · intro text h
      cases h
  | succ depth ih =>
    intro text v rest h
    obtain ⟨s, hs, -⟩ := scanOnce_sound (depth + 1) text v rest h
    refine ⟨s, hs, fits_scanValue ?_ ?_ h⟩
    · intro text h
      obtain ⟨body, items, -, hbody, rfl⟩ := scanArray_sound ih h
      intro x hx
      obtain ⟨s, hfits⟩ := bracketed_mem hbody hx
      exact hfits
    · intro text h
      obtain ⟨body, pairs, -, hbody, rfl⟩ := scanObject_sound ih h
      intro m hm
      obtain ⟨s, hmember⟩ := bracketed_mem hbody (mem_dictOf hm)
      cases hmember with
      | mk hkey hw hw' hfits => exact hfits

/-- The encoder finds room for what is within the limits. -/
theorem encodeOnce_of_fits (floats : FloatText) (style : Style) (h : Fits lim depth v) :
    ∃ text, encodeOnce lim floats style depth v = .ok text := by
  induction depth generalizing v with
  | zero =>
    cases v with
    | int n =>
      rw [encodeOnce, intText, if_neg (not_lt.mpr ((fits_int n).mp h))]
      exact ⟨_, rfl⟩
    | bool b => cases b <;> exact ⟨_, rfl⟩
    | array items => exact h.elim
    | object members => exact h.elim
    | _ => exact ⟨_, rfl⟩
  | succ depth ih =>
    cases v with
    | int n =>
      rw [encodeOnce, intText, if_neg (not_lt.mpr ((fits_int n).mp h))]
      exact ⟨_, rfl⟩
    | bool b => cases b <;> exact ⟨_, rfl⟩
    | array items =>
      obtain ⟨texts, htexts⟩ := mapM_of_forall fun v hv => ih (h v hv)
      rw [encodeOnce, htexts]
      exact ⟨_, rfl⟩
    | object members =>
      have hparts : ∀ m ∈ style.order members,
          ∃ text, encodeMember style (encodeOnce lim floats style depth) m = .ok text := by
        intro m hm
        obtain ⟨text, htext⟩ := ih (h m (mem_order.mp hm))
        rw [encodeMember, htext]
        exact ⟨_, rfl⟩
      obtain ⟨texts, htexts⟩ := mapM_of_forall hparts
      rw [encodeOnce, htexts]
      exact ⟨_, rfl⟩
    | _ => exact ⟨_, rfl⟩

end Fits

section Loaded

variable {lim : Limits} {text : Text} {v : Value}

/-- What is decoded from a text is within the limits. -/
theorem fits_decodeText (h : decodeText lim text = .ok v) : Fits lim lim.depth v := by
  simp only [decodeText] at h
  cases hv : scanOnce lim lim.depth (skipWhitespace text) with
  | error e => simp [hv, bind, Except.bind] at h
  | ok y =>
    obtain ⟨v', rest⟩ := y
    obtain ⟨-, -, hfits⟩ := fits_scanOnce lim.depth _ _ _ hv
    simp only [hv, bind, Except.bind] at h
    split_ifs at h with hend
    obtain rfl := Except.ok.inj h
    exact hfits

end Loaded

end PartnerHub.Lib.Json
