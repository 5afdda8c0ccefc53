import PartnerHub.Domain.Records

/-!
# Texts that keys are built from

Idempotency and cache keys are strings put together from a caller's key and the text of
an id. Two of them are equal only when their parts are.
-/
namespace PartnerHub.Domain

/-- `str.isspace` of one character. -/
def isSpace (c : Char) : Bool :=
  let n := c.toNat
  (0x9 ≤ n && n ≤ 0xD) || (0x1C ≤ n && n ≤ 0x20) || n = 0x85 || n = 0xA0 || n = 0x1680 ||
    (0x2000 ≤ n && n ≤ 0x200A) || n = 0x2028 || n = 0x2029 || n = 0x202F || n = 0x205F ||
    n = 0x3000

def stripChars (cs : List Char) : List Char :=
  ((cs.dropWhile isSpace).reverse.dropWhile isSpace).reverse

/-- `str.strip`. -/
def strip (s : String) : String := String.ofList (stripChars s.toList)

theorem stripChars_eq_self {cs : List Char} (h : ∀ c ∈ cs, isSpace c = false) :
    stripChars cs = cs := by
  have hdrop : ∀ l : List Char, (∀ c ∈ l, isSpace c = false) → l.dropWhile isSpace = l := by
    intro l hl
    cases l with
    | nil => rfl
    | cons c l => rw [List.dropWhile_cons_of_neg (by simp [hl c List.mem_cons_self])]
  rw [stripChars, hdrop cs h, hdrop, List.reverse_reverse]
  intro c hc
  exact h c (List.mem_reverse.mp hc)

def hexValue (c : Char) : Option Nat :=
  if '0' ≤ c ∧ c ≤ '9' then some (c.toNat - '0'.toNat)
  else if 'a' ≤ c ∧ c ≤ 'f' then some (c.toNat - 'a'.toNat + 10)
  else if 'A' ≤ c ∧ c ≤ 'F' then some (c.toNat - 'A'.toNat + 10)
  else none

/-- `uuid.UUID(text)` on texts of hexadecimal digits and dashes; the other spellings it
knows (braces, `urn:uuid:`) are not written anywhere. -/
def Uuid.parse (text : String) : Option Uuid :=
  let digits := text.toList.filter (· ≠ '-')
  if digits.length = 32 then
    (digits.mapM hexValue).map fun ds => BitVec.ofNat 128 (ds.foldl (fun n d => 16 * n + d) 0)
  else none

theorem hexValue_digitChar {a : Nat} (ha : a < 16) : hexValue (Nat.digitChar a) = some a := by
  interval_cases a <;> decide

theorem digitChar_ne_dash {a : Nat} (ha : a < 16) : Nat.digitChar a ≠ '-' := by
  interval_cases a <;> decide

theorem Uuid.hex_length (u : Uuid) : (Uuid.hex u).length = 32 := by
  simp [Uuid.hex]

/-- Reading the last `n` hexadecimal digits of a number, most significant first. -/
theorem foldl_hex_digits (n x : Nat) :
    ((List.range n).map fun i => x / 16 ^ (n - 1 - i) % 16).foldl (fun a d => 16 * a + d) 0 =
      x % 16 ^ n := by
  induction n generalizing x with
  | zero => simp [Nat.mod_one]
  | succ n ih =>
    have hhigh : (List.range n).map (fun i => x / 16 ^ (n + 1 - 1 - i) % 16) =
        (List.range n).map fun i => x / 16 / 16 ^ (n - 1 - i) % 16 := by
      apply List.map_congr_left
      intro i hi
      have hlt := List.mem_range.mp hi
      rw [Nat.div_div_eq_div_mul, ← pow_succ', show n - 1 - i + 1 = n + 1 - 1 - i by omega]
    rw [List.range_succ, List.map_append, List.foldl_append, hhigh, ih (x / 16), pow_succ',
      Nat.mod_mul]
    simp only [List.map_cons, List.map_nil, List.foldl_cons, List.foldl_nil, Nat.add_sub_cancel,
      Nat.sub_self, pow_zero, Nat.div_one]
    omega

theorem mapM_hexValue {ds : List Nat} (h : ∀ d ∈ ds, d < 16) :
    (ds.map Nat.digitChar).mapM hexValue = some ds := by
  induction ds with
  | nil => rfl
  | cons d ds ih =>
    rw [List.map_cons, List.mapM_cons, hexValue_digitChar (h d List.mem_cons_self),
      ih fun e he => h e (List.mem_cons_of_mem _ he)]
    rfl

theorem Uuid.hex_ne_dash {u : Uuid} {c : Char} (h : c ∈ Uuid.hex u) : c ≠ '-' := by
  obtain ⟨i, -, rfl⟩ := List.mem_map.mp h
  exact digitChar_ne_dash (Nat.mod_lt _ (by norm_num))

/-- The digits are what is left of the text without its dashes. -/
theorem Uuid.text_filter (u : Uuid) :
    (Uuid.text u).toList.filter (· ≠ '-') = Uuid.hex u := by
  have hkeep : ∀ i n, (((Uuid.hex u).drop i).take n).filter (· ≠ '-') =
      ((Uuid.hex u).drop i).take n := by
    intro i n
    rw [List.filter_eq_self]
    intro c hc
    simpa using Uuid.hex_ne_dash (List.mem_of_mem_drop (List.mem_of_mem_take hc))
  have hhead : ((Uuid.hex u).take 8).filter (· ≠ '-') = (Uuid.hex u).take 8 := hkeep 0 8
  have hlast : ((Uuid.hex u).drop 20).filter (· ≠ '-') = (Uuid.hex u).drop 20 := by
    have h := hkeep 20 12
    rwa [List.take_of_length_le (by simp [Uuid.hex_length])] at h
  have hjoin : ∀ i n, ((Uuid.hex u).drop i).take n ++ (Uuid.hex u).drop (i + n) =
      (Uuid.hex u).drop i := by
    intro i n
    rw [← List.drop_drop]
    exact List.take_append_drop n _
  simp only [Uuid.text, String.toList_ofList, List.filter_append, List.filter_cons, hkeep, hhead,
    hlast, List.append_assoc, List.cons_append]
  simp only [ne_eq, not_true_eq_false, decide_false, Bool.false_eq_true, if_false]
  rw [hjoin 16 4, hjoin 12 4, hjoin 8 4]
  exact List.take_append_drop 8 _

/-- The text of an id is read back as the id. -/
theorem Uuid.parse_text (u : Uuid) : Uuid.parse (Uuid.text u) = some u := by
  have hds : (Uuid.hex u).mapM hexValue =
      some ((List.range 32).map fun i => u.toNat / 16 ^ (32 - 1 - i) % 16) := by
    have hmap : Uuid.hex u = ((List.range 32).map fun i =>
        u.toNat / 16 ^ (32 - 1 - i) % 16).map Nat.digitChar := by
      rw [List.map_map]
      rfl
    rw [hmap]
    apply mapM_hexValue
    intro d hd
    obtain ⟨i, -, rfl⟩ := List.mem_map.mp hd
    exact Nat.mod_lt _ (by norm_num)
  have hlt : u.toNat < 16 ^ 32 := u.isLt.trans_eq (by norm_num)
  rw [Uuid.parse, Uuid.text_filter, if_pos (Uuid.hex_length u), hds, Option.map_some,
    foldl_hex_digits, Nat.mod_eq_of_lt hlt, BitVec.ofNat_toNat, BitVec.setWidth_eq]

theorem Uuid.text_injective {u v : Uuid} (h : Uuid.text u = Uuid.text v) : u = v :=
  Option.some.inj ((Uuid.parse_text u).symm.trans (h ▸ Uuid.parse_text v))

theorem Uuid.text_length (u : Uuid) : (Uuid.text u).toList.length = 36 := by
  simp [Uuid.text, Uuid.hex_length]

/-- A text before a suffix of fixed length is determined by the whole. -/
theorem append_text_injective {a b : String} {u v : Uuid}
    (h : a ++ Uuid.text u = b ++ Uuid.text v) : a = b ∧ u = v := by
  have hl := congrArg String.toList h
  rw [String.toList_append, String.toList_append] at hl
  obtain ⟨hab, huv⟩ := List.append_inj' hl (by rw [Uuid.text_length, Uuid.text_length])
  exact ⟨String.toList_inj.mp hab, Uuid.text_injective (String.toList_inj.mp huv)⟩

/-- Two lists without the separator are determined by what stands before it. -/
theorem split_injective {α : Type*} {c : α} {l l' a b : List α} (hl : c ∉ l) (hl' : c ∉ l')
    (h : l ++ c :: a = l' ++ c :: b) : l = l' ∧ a = b := by
  induction l generalizing l' with
  | nil =>
    cases l' with
    | nil => exact ⟨rfl, (List.cons.inj h).2⟩
    | cons y l' =>
      obtain ⟨rfl, -⟩ := List.cons.inj h
      exact absurd List.mem_cons_self hl'
  | cons x l ih =>
    cases l' with
    | nil =>
      obtain ⟨rfl, -⟩ := List.cons.inj h
      exact absurd List.mem_cons_self hl
    | cons y l' =>
      obtain ⟨rfl, ht⟩ := List.cons.inj h
      obtain ⟨rfl, hab⟩ := ih (fun hm => hl (List.mem_cons_of_mem _ hm))
        (fun hm => hl' (List.mem_cons_of_mem _ hm)) ht
      exact ⟨rfl, hab⟩

theorem colon_not_mem_repr (n : Nat) : ':' ∉ (Nat.repr n).toList := by
  intro h
  have hd := Nat.isDigit_of_mem_toDigits (by norm_num) (by norm_num)
    (by simpa [Nat.repr] using h : ':' ∈ Nat.toDigits 10 n)
  exact absurd hd (by decide)

/-- A decimal number before a colon is determined by the whole. -/
theorem decimal_colon_injective {m n : Nat} {a b : String}
    (h : Nat.repr m ++ ":" ++ a = Nat.repr n ++ ":" ++ b) : m = n ∧ a = b := by
  have hl := congrArg String.toList h
  simp only [String.toList_append, List.append_assoc] at hl
  obtain ⟨hmn, hab⟩ := split_injective (colon_not_mem_repr m) (colon_not_mem_repr n) hl
  exact ⟨Nat.repr_injective (String.toList_inj.mp hmn), String.toList_inj.mp hab⟩

/-- `ByteArray.toList` counts its way through the bytes. -/
theorem bytes_toList (bytes : ByteArray) : bytes.toList = bytes.data.toList := by
  have hloop : ∀ n i r, bytes.size - i = n →
      ByteArray.toList.loop bytes i r = r.reverse ++ bytes.data.toList.drop i := by
    intro n
    induction n with
    | zero =>
      intro i r hn
      have hi : ¬i < bytes.size := by omega
      have hdrop : bytes.data.toList.drop i = [] := by
        rw [List.drop_eq_nil_iff, Array.length_toList]
        exact not_lt.mp hi
      rw [ByteArray.toList.loop, if_neg hi, hdrop, List.append_nil]
    | succ n ih =>
      intro i r hn
      have hi : i < bytes.size := by omega
      have hsize : i < bytes.data.toList.length := by simpa using hi
      rw [ByteArray.toList.loop, if_pos hi, ih (i + 1) _ (by omega), List.reverse_cons,
        List.append_assoc, List.drop_eq_getElem_cons hsize]
      simp [ByteArray.get!, getElem!_pos, hi]
  exact hloop bytes.size 0 [] rfl

/-- The bytes of a text, character by character. -/
theorem toUTF8_toList (text : String) :
    text.toUTF8.toList = text.toList.flatMap String.utf8EncodeChar := by
  have hencode : text.toUTF8 = text.toList.utf8Encode := String.utf8Encode_toList.symm
  rw [hencode, bytes_toList, List.utf8Encode, List.toList_data_toByteArray]

theorem toUTF8_toList_injective {a b : String} (h : a.toUTF8.toList = b.toUTF8.toList) :
    a = b := by
  rw [bytes_toList, bytes_toList] at h
  exact String.toByteArray_inj.mp (ByteArray.ext (Array.toList_inj.mp h))

/-- Only a full stop is encoded with its byte. -/
theorem eq_dot_of_mem_utf8EncodeChar {c : Char} (h : 0x2e ∈ String.utf8EncodeChar c) :
    c = '.' := by
  have hbyte : ∀ n, (0x2e : UInt8) = UInt8.ofNat n → n % 256 = 46 := by
    intro n hn
    have hnat := congrArg UInt8.toNat hn
    simpa [eq_comm] using hnat
  apply Char.ext
  apply UInt32.toNat_inj.mp
  simp only [String.utf8EncodeChar] at h
  split_ifs at h
  all_goals simp only [List.mem_cons, List.not_mem_nil, or_false] at h
  · have hval := hbyte _ h
    change c.val.toNat = 46
    omega
  -- every byte of a longer encoding is at least 128
  · exfalso
    rcases h with h | h <;> have hval := hbyte _ h <;> omega
  · exfalso
    rcases h with h | h | h <;> have hval := hbyte _ h <;> omega
  · exfalso
    rcases h with h | h | h | h <;> have hval := hbyte _ h <;> omega

theorem dot_not_mem_toUTF8 {text : String} (h : '.' ∉ text.toList) :
    0x2e ∉ text.toUTF8.toList := by
  rw [toUTF8_toList]
  intro hmem
  obtain ⟨c, hc, hbyte⟩ := List.mem_flatMap.mp hmem
  exact h (eq_dot_of_mem_utf8EncodeChar hbyte ▸ hc)

end PartnerHub.Domain
