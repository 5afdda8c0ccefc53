import Mathlib

/-!
# Pages of an ordered query

A query with `ORDER BY key DESC` may return rows with one key in any order, and need not
return them in the same order twice. A reader who walks through its pages with LIMIT and
OFFSET sees every row once exactly when no page ends between two rows with one key. While
rows are added in between, nothing that was there at the start is missed.
-/
namespace PartnerHub.Lib.Pages

variable {α β κ : Type*} [LinearOrder κ]

/-- What the query may return. -/
structure Answers (key : α → κ) (rows xs : List α) : Prop where
  perm : xs.Perm rows
  sorted : xs.Pairwise fun a b => key b ≤ key a

/-- One of the answers. -/
def ordered (key : α → κ) (rows : List α) : List α := rows.insertionSort fun a b => key b ≤ key a

theorem answers_ordered (key : α → κ) (rows : List α) : Answers key rows (ordered key rows) where
  perm := List.perm_insertionSort _ rows
  sorted := List.pairwise_insertionSort (fun a b : α => key b ≤ key a) rows

def page (limit offset : Nat) (xs : List α) : List α := (xs.drop offset).take limit

/-- The first `n` pages, each from an answer of its own. -/
def walk (limit : Nat) (answers : Nat → List α) (n : Nat) : List α :=
  (List.range n).flatMap fun k => page limit (k * limit) (answers k)

/-- The rows that come before all rows with the key of `a`. -/
def above (key : α → κ) (rows : List α) (a : α) : Nat := rows.countP fun b => key a < key b

/-- The rows up to the last one with the key of `a`. -/
def through (key : α → κ) (rows : List α) (a : α) : Nat := rows.countP fun b => key a ≤ key b

/-- The rows with the key of `a` stand on both sides of position `m`. -/
def Straddles (key : α → κ) (rows : List α) (m : Nat) (a : α) : Prop :=
  above key rows a < m ∧ m < through key rows a

instance (key : α → κ) (rows : List α) (m : Nat) (a : α) : Decidable (Straddles key rows m a) :=
  inferInstanceAs (Decidable (_ ∧ _))

variable {key : α → κ} {rows xs ys : List α} {a b : α} {limit m n : Nat}

theorem mem_page {offset : Nat} :
    a ∈ page limit offset xs ↔ ∃ i, offset ≤ i ∧ i < offset + limit ∧ xs[i]? = some a := by
  simp only [page, List.mem_iff_getElem?, List.getElem?_take, List.getElem?_drop]
  constructor
  · rintro ⟨i, hi⟩
    split at hi
    · exact ⟨offset + i, by omega, by omega, hi⟩
    · cases hi
  · rintro ⟨i, hle, hlt, hi⟩
    refine ⟨i - offset, ?_⟩
    rw [if_pos (by omega), Nat.add_sub_cancel' hle]
    exact hi

theorem take_add_page (offset : Nat) (xs : List α) :
    xs.take offset ++ page limit offset xs = xs.take (offset + limit) := List.take_add.symm

theorem walk_succ (answers : Nat → List α) (n : Nat) :
    walk limit answers (n + 1) = walk limit answers n ++ page limit (n * limit) (answers n) := by
  simp [walk, List.range_succ]

/-- Where what satisfies `p` comes first. -/
theorem getElem_iff_lt_countP {p : α → Bool} (h : xs.Pairwise fun a b => p b = true → p a = true)
    {i : Nat} (hi : i < xs.length) : p xs[i] = true ↔ i < xs.countP p := by
  induction xs generalizing i with
  | nil => cases hi
  | cons x xs ih =>
    obtain ⟨hhead, htail⟩ := List.pairwise_cons.mp h
    by_cases hx : p x = true
    · rw [List.countP_cons_of_pos hx]
      cases i with
      | zero => exact iff_of_true hx (Nat.succ_pos _)
      | succ i => rw [List.getElem_cons_succ, ih htail (Nat.lt_of_succ_lt_succ hi),
          Nat.succ_lt_succ_iff]
    · have hnone : ∀ y ∈ x :: xs, ¬ p y = true := by
        intro y hy
        rcases List.mem_cons.mp hy with rfl | hy
        · exact hx
        · exact fun hp => hx (hhead y hy hp)
      rw [List.countP_eq_zero.mpr hnone]
      exact iff_of_false (hnone _ (List.getElem_mem hi)) (Nat.not_lt_zero i)

theorem take_eq_filter {p : α → Bool}
    (h : ∀ i (hi : i < xs.length), p xs[i] = true ↔ i < m) : xs.take m = xs.filter p := by
  induction xs generalizing m with
  | nil => simp
  | cons x xs ih =>
    have hx : p x = true ↔ 0 < m := h 0 (Nat.succ_pos _)
    cases m with
    | zero =>
      have hnone : ∀ y ∈ x :: xs, ¬ p y = true := by
        intro y hy
        obtain ⟨i, hi, rfl⟩ := List.getElem_of_mem hy
        exact fun hp => Nat.not_lt_zero i ((h i hi).mp hp)
      rw [List.take_zero, List.filter_eq_nil_iff.mpr hnone]
    | succ m =>
      rw [List.take_succ_cons, List.filter_cons_of_pos (hx.mpr (Nat.succ_pos m))]
      congr 1
      refine ih fun i hi => ?_
      rw [← Nat.succ_lt_succ_iff]
      exact h (i + 1) (Nat.succ_lt_succ hi)

section Ranks

theorem above_perm (hp : xs.Perm ys) : above key xs a = above key ys a := hp.countP_eq _

theorem through_perm (hp : xs.Perm ys) : through key xs a = through key ys a := hp.countP_eq _

theorem above_mono (h : xs.Subperm ys) : above key xs a ≤ above key ys a := h.countP_le _

theorem Answers.le_key_iff (h : Answers key rows xs) {i : Nat} (hi : i < xs.length) (a : α) :
    key a ≤ key xs[i] ↔ i < through key rows a := by
  rw [← through_perm h.perm, through]
  refine Iff.trans ?_ (getElem_iff_lt_countP ?_ hi)
  · exact decide_eq_true_iff.symm
  · exact h.sorted.imp fun hle hb => decide_eq_true ((of_decide_eq_true hb).trans hle)

theorem Answers.lt_key_iff (h : Answers key rows xs) {i : Nat} (hi : i < xs.length) (a : α) :
    key a < key xs[i] ↔ i < above key rows a := by
  rw [← above_perm h.perm, above]
  refine Iff.trans ?_ (getElem_iff_lt_countP ?_ hi)
  · exact decide_eq_true_iff.symm
  · exact h.sorted.imp fun hle hb => decide_eq_true ((of_decide_eq_true hb).trans_le hle)

/-- A row stands among the rows with its key. -/
theorem Answers.position (h : Answers key rows xs) {i : Nat} (hi : xs[i]? = some a) :
    above key rows a ≤ i ∧ i < through key rows a := by
  obtain ⟨hlt, rfl⟩ := List.getElem?_eq_some_iff.mp hi
  exact ⟨Nat.le_of_not_lt (mt (h.lt_key_iff hlt _).mpr (lt_irrefl _)),
    (h.le_key_iff hlt _).mp le_rfl⟩

theorem Answers.key_eq (h : Answers key rows xs) {i : Nat} (hi : i < xs.length)
    (hle : above key rows a ≤ i) (hlt : i < through key rows a) : key xs[i] = key a := by
  refine le_antisymm ?_ ((h.le_key_iff hi a).mpr hlt)
  exact le_of_not_gt fun hgt => (Nat.not_lt.mpr hle) ((h.lt_key_iff hi a).mp hgt)

theorem through_le (key : α → κ) (rows : List α) (a : α) : through key rows a ≤ rows.length :=
  List.countP_le_length

end Ranks

section Walks

/-- All answers have the same rows in front of a position that separates no ties. -/
theorem Answers.take_perm (h : Answers key rows xs) (hm : ∀ a ∈ rows, ¬ Straddles key rows m a) :
    (xs.take m).Perm (rows.filter fun a => through key rows a ≤ m) := by
  have hfilter : xs.take m = xs.filter fun a => through key rows a ≤ m := by
    refine take_eq_filter fun i hi => ?_
    rw [decide_eq_true_iff]
    obtain ⟨habove, hthrough⟩ := h.position (List.getElem?_eq_getElem hi)
    constructor
    · omega
    · intro hlt
      have hmem : xs[i] ∈ rows := h.perm.mem_iff.mp (List.getElem_mem hi)
      exact Nat.le_of_not_lt fun hcut => hm _ hmem ⟨by omega, hcut⟩
  rw [hfilter]
  exact h.perm.filter _

theorem walk_perm {answers : Nat → List α} (hx : ∀ k, Answers key rows (answers k))
    (hm : ∀ k, ∀ a ∈ rows, ¬ Straddles key rows (k * limit) a) (n : Nat) :
    (walk limit answers n).Perm (rows.filter fun a => through key rows a ≤ n * limit) := by
  induction n with
  | zero =>
    have hnone := (hx 0).take_perm (m := 0) (by rintro a - ⟨h, -⟩; exact Nat.not_lt_zero _ h)
    rw [List.take_zero] at hnone
    simpa [walk] using hnone
  | succ n ih =>
    rw [walk_succ]
    have hfront := ih.trans ((hx n).take_perm (hm n)).symm
    refine (hfront.append_right _).trans ?_
    rw [take_add_page, ← Nat.succ_mul]
    exact (hx n).take_perm (hm (n + 1))

/-- Two neighbours with one key may as well stand the other way round. -/
theorem Answers.swap {front back : List α} (h : Answers key rows (front ++ a :: b :: back))
    (hk : key a = key b) : Answers key rows (front ++ b :: a :: back) where
  perm := ((List.Perm.swap a b back).append_left front).trans h.perm
  sorted := by
    have hs := h.sorted
    simp only [List.pairwise_append, List.pairwise_cons, List.mem_cons, forall_eq_or_imp] at hs ⊢
    obtain ⟨hfront, ⟨⟨-, ha⟩, hb, hback⟩, hcross⟩ := hs
    exact ⟨hfront, ⟨⟨hk.le, hb⟩, ha, hback⟩, fun x hx => ⟨(hcross x hx).2.1, (hcross x hx).1,
      (hcross x hx).2.2⟩⟩

/-- When a page ends between two ties, one of them can be shown twice. -/
theorem exists_repeating {k : Nat} (h : Straddles key rows (k * limit) a) :
    ∃ (answers : Nat → List α) (b : α), (∀ j, Answers key rows (answers j)) ∧ 0 < k ∧
      b ∈ page limit ((k - 1) * limit) (answers (k - 1)) ∧
      b ∈ page limit (k * limit) (answers k) := by
  obtain ⟨habove, hthrough⟩ := h
  obtain ⟨xs, hxs⟩ : ∃ xs, Answers key rows xs := ⟨_, answers_ordered key rows⟩
  have hk : 0 < k := Nat.pos_of_ne_zero fun h0 => by simp [h0] at habove
  have hlimit : 0 < limit := Nat.pos_of_ne_zero fun h0 => by simp [h0] at habove
  have hstep : (k - 1) * limit + limit = k * limit := by
    rw [← Nat.succ_mul]
    congr 1
    omega
  have hlen : k * limit < xs.length :=
    hxs.perm.length_eq ▸ hthrough.trans_le (through_le key rows a)
  obtain ⟨m, hm⟩ : ∃ m, k * limit = m + 1 := ⟨k * limit - 1, by omega⟩
  have hlast : m < xs.length := by omega
  have hnext : m + 1 < xs.length := by omega
  have hsplit : xs.take m ++ xs[m] :: xs[m + 1] :: xs.drop (m + 2) = xs := by
    rw [← List.drop_eq_getElem_cons hnext, ← List.drop_eq_getElem_cons hlast, List.take_append_drop]
  have hties : key xs[m] = key xs[m + 1] := by
    have hleft : key xs[m] = key a := hxs.key_eq hlast (by omega) (by omega)
    have hright : key xs[m + 1] = key a := hxs.key_eq hnext (by omega) (by omega)
    exact hleft.trans hright.symm
  have hys : Answers key rows (xs.take m ++ xs[m + 1] :: xs[m] :: xs.drop (m + 2)) := by
    refine Answers.swap ?_ hties
    rw [hsplit]
    exact hxs
  have hfront : (xs.take m).length = m := List.length_take_of_le hlast.le
  refine ⟨fun j => if j = k then xs.take m ++ xs[m + 1] :: xs[m] :: xs.drop (m + 2) else xs,
    xs[m], ?_, hk, ?_, ?_⟩
  · intro j
    dsimp only
    split
    · exact hys
    · exact hxs
  · dsimp only
    rw [if_neg (by omega)]
    exact mem_page.mpr ⟨m, by omega, by omega, List.getElem?_eq_getElem hlast⟩
  · dsimp only
    rw [if_pos rfl]
    refine mem_page.mpr ⟨m + 1, by omega, by omega, ?_⟩
    rw [List.getElem?_append_right (by omega), hfront]
    simp

/-- Whatever each query answers, the walk shows every row once, exactly when no page ends
between two rows with one key. -/
theorem walk_exact_iff (hlimit : 0 < limit) (hn : rows.Nodup) :
    (∀ n answers, rows.length ≤ n * limit → (∀ k, Answers key rows (answers k)) →
      (walk limit answers n).Perm rows) ↔
        ∀ k, ∀ a ∈ rows, ¬ Straddles key rows (k * limit) a := by
  constructor
  · intro hexact k a _ hcut
    obtain ⟨answers, b, hx, hk, hlast, hnext⟩ := exists_repeating hcut
    have hlen : rows.length ≤ (rows.length + k + 1) * limit := by nlinarith
    have hnodup := (hexact _ answers hlen hx).nodup_iff.mpr hn
    have hpages := (List.nodup_flatMap.mp hnodup).2
    have hrange : k < (List.range (rows.length + k + 1)).length := by
      rw [List.length_range]
      omega
    have hdisjoint := List.pairwise_iff_getElem.mp hpages (k - 1) k (by omega) hrange (by omega)
    simp only [List.getElem_range, Function.onFun] at hdisjoint
    exact hdisjoint hlast hnext
  · intro hm n answers hlen hx
    have hperm := walk_perm hx hm n
    rwa [List.filter_eq_self.mpr] at hperm
    intro a _
    exact decide_eq_true ((through_le key rows a).trans hlen)

/-- With distinct keys there is one answer, and the walk returns it. -/
theorem walk_of_injective {answers : Nat → List α} (hx : ∀ k, Answers key rows (answers k))
    (hkey : Set.InjOn key {a | a ∈ rows}) (hlen : rows.length ≤ n * limit)
    (h : Answers key rows xs) : walk limit answers n = xs := by
  have hsame : ∀ k, answers k = xs := by
    intro k
    have hp : (answers k).Perm xs := (hx k).perm.trans h.perm.symm
    refine hp.eq_of_pairwise ?_ (hx k).sorted h.sorted
    intro a b ha hb hba hab
    exact hkey ((hx k).perm.mem_iff.mp ha) (h.perm.mem_iff.mp hb) (le_antisymm hab hba)
  have hwalk : ∀ j, walk limit answers j = xs.take (j * limit) := by
    intro j
    induction j with
    | zero => simp [walk]
    | succ j ih => rw [walk_succ, ih, hsame, take_add_page, ← Nat.succ_mul]
  rw [hwalk, List.take_of_length_le (h.perm.length_eq ▸ hlen)]

/-- Rows are added while the reader walks: a row that was there at the start is shown, if
no page that is read cuts through its ties and the last one reaches the end. -/
theorem shown_of_grows {rows answers : Nat → List α} (hgrow : ∀ k, (rows k).Subperm (rows (k + 1)))
    (hx : ∀ k, Answers key (rows k) (answers k)) (ha : a ∈ rows 0)
    (hcut : ∀ k < n, ¬ Straddles key (rows k) ((k + 1) * limit) a)
    (hend : ∃ k < n, (rows k).length ≤ (k + 1) * limit) :
    ∃ k < n, a ∈ page limit (k * limit) (answers k) := by
  by_contra hnone
  have hmem : ∀ k, a ∈ rows k := by
    intro k
    induction k with
    | zero => exact ha
    | succ k ih => exact (hgrow k).subset ih
  -- a row that is not shown stands behind the page
  have hbehind : ∀ k < n, k * limit ≤ above key (rows k) a →
      ∃ i, (answers k)[i]? = some a ∧ (k + 1) * limit ≤ i := by
    intro k hk hle
    obtain ⟨i, hi⟩ := List.mem_iff_getElem?.mp ((hx k).perm.mem_iff.mpr (hmem k))
    refine ⟨i, hi, Nat.le_of_not_lt fun hlt => hnone ⟨k, hk, ?_⟩⟩
    refine mem_page.mpr ⟨i, hle.trans ((hx k).position hi).1, ?_, hi⟩
    rw [← Nat.succ_mul]
    exact hlt
  have hrank : ∀ k, k < n → k * limit ≤ above key (rows k) a := by
    intro k
    induction k with
    | zero =>
      intro _
      rw [Nat.zero_mul]
      exact Nat.zero_le _
    | succ k ih =>
      intro hk
      obtain ⟨i, hi, hle⟩ := hbehind k (by omega) (ih (by omega))
      have hthrough := ((hx k).position hi).2
      have habove : (k + 1) * limit ≤ above key (rows k) a :=
        Nat.le_of_not_lt fun hlt => hcut k (by omega) ⟨hlt, by omega⟩
      exact habove.trans (above_mono (hgrow k))
  obtain ⟨k, hk, hlen⟩ := hend
  obtain ⟨i, hi, hle⟩ := hbehind k hk (hrank k hk)
  have hlt := (List.getElem?_eq_some_iff.mp hi).1
  rw [(hx k).perm.length_eq] at hlt
  omega

end Walks

/-- An answer seen through what is kept of its rows. -/
theorem Answers.map {key' : β → κ} {f : α → β} (h : Answers key rows xs)
    (hf : ∀ a, key' (f a) = key a) : Answers key' (rows.map f) (xs.map f) where
  perm := h.perm.map f
  sorted := List.pairwise_map.mpr (h.sorted.imp fun hle => by rw [hf, hf]; exact hle)

theorem straddles_map {key' : β → κ} {f : α → β} (hf : ∀ a, key' (f a) = key a) (m : Nat) (a : α) :
    Straddles key' (rows.map f) m (f a) ↔ Straddles key rows m a := by
  simp only [Straddles, above, through, List.countP_map, Function.comp_def, hf]

theorem length_page (limit offset : Nat) (xs : List α) :
    (page limit offset xs).length = min limit (xs.length - offset) := by
  rw [page, List.length_take, List.length_drop]

theorem map_page (f : α → β) (offset : Nat) :
    (page limit offset xs).map f = page limit offset (xs.map f) := by
  simp [page, List.map_take, List.map_drop]

end PartnerHub.Lib.Pages
