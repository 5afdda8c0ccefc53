import Mathlib

/-!
# Nearest ranks

The element of rank `k` of a list is the least one that is not exceeded by `k` elements. It
stands at position `k - 1` of the sorted list, and the order of the list does not matter.
-/
namespace PartnerHub.Lib

variable {α : Type*} [LinearOrder α]

/-- At least `k` elements are at most `x`, which is the least element of which that is so. -/
structure IsNearestRank (k : Nat) (l : List α) (x : α) : Prop where
  mem : x ∈ l
  enough : k ≤ l.countP (· ≤ x)
  least : ∀ y ∈ l, y < x → l.countP (· ≤ y) < k

/-- In a sorted list the elements up to a bound come first. -/
theorem getElem_le_iff_lt_countP {l : List α} (hl : l.Pairwise (· ≤ ·)) {i : Nat}
    (hi : i < l.length) (x : α) : l[i] ≤ x ↔ i < l.countP (· ≤ x) := by
  induction l generalizing i with
  | nil => simp at hi
  | cons a l ih =>
    obtain ⟨hhead, htail⟩ := List.pairwise_cons.mp hl
    by_cases ha : a ≤ x
    · rw [List.countP_cons_of_pos (by simpa using ha)]
      cases i with
      | zero => exact iff_of_true ha (Nat.succ_pos _)
      | succ i =>
        rw [List.getElem_cons_succ, ih htail (by simpa using hi), Nat.succ_lt_succ_iff]
    · have hnone : ∀ y ∈ a :: l, ¬ y ≤ x := by
        intro y hy
        rcases List.mem_cons.mp hy with rfl | hy
        · exact ha
        · exact fun hle => ha ((hhead y hy).trans hle)
      have hzero : (a :: l).countP (· ≤ x) = 0 :=
        List.countP_eq_zero.mpr fun y hy => by simpa using hnone y hy
      rw [hzero]
      exact iff_of_false (hnone _ (List.getElem_mem hi)) (Nat.not_lt_zero _)

theorem isNearestRank_of_sorted {l : List α} (hl : l.Pairwise (· ≤ ·)) {i : Nat}
    (hi : i < l.length) : IsNearestRank (i + 1) l l[i] where
  mem := List.getElem_mem hi
  enough := (getElem_le_iff_lt_countP hl hi l[i]).mp le_rfl
  least y _ hy := by
    have hnot := mt (getElem_le_iff_lt_countP hl hi y).mpr (not_le.mpr hy)
    omega

theorem IsNearestRank.perm {k : Nat} {l l' : List α} {x : α} (h : IsNearestRank k l x)
    (hp : l'.Perm l) : IsNearestRank k l' x where
  mem := hp.mem_iff.mpr h.mem
  enough := (hp.countP_eq _).symm ▸ h.enough
  least y hy hlt := (hp.countP_eq _).symm ▸ h.least y (hp.mem_iff.mp hy) hlt

/-- Sorting first: the element at position `i` has rank `i + 1`. -/
theorem isNearestRank_insertionSort (l : List α) {i : Nat}
    (hi : i < (l.insertionSort (· ≤ ·)).length) :
    IsNearestRank (i + 1) l (l.insertionSort (· ≤ ·))[i] :=
  (isNearestRank_of_sorted (List.pairwise_insertionSort _ l) hi).perm
    (List.perm_insertionSort _ l).symm

/-- Two lists with the same elements sort alike. -/
theorem insertionSort_eq_of_perm {l l' : List α} (hp : l'.Perm l) :
    l'.insertionSort (· ≤ ·) = l.insertionSort (· ≤ ·) :=
  List.Perm.eq_of_pairwise' (List.pairwise_insertionSort _ l') (List.pairwise_insertionSort _ l)
    ((List.perm_insertionSort _ l').trans (hp.trans (List.perm_insertionSort _ l).symm))

end PartnerHub.Lib
