import Mathlib

/-!
# Partitioned append-only logs

A broker keeps one append-only list of records per partition; the offset of a record is
its index and never changes. Generic in what partitions and records are.
-/
namespace PartnerHub.Lib.PartitionLog

variable {κ μ : Type*} [DecidableEq κ]

/-- Append a record to one partition. -/
def append (log : κ → List μ) (k : κ) (m : μ) : κ → List μ :=
  Function.update log k (log k ++ [m])

/-- Append when a partition is given, as for a send whose outcome is unknown. -/
def appendIf (log : κ → List μ) (k : Option κ) (m : μ) : κ → List μ :=
  match k with
  | none => log
  | some k => append log k m

@[simp] theorem append_self (log : κ → List μ) (k : κ) (m : μ) :
    append log k m k = log k ++ [m] := Function.update_self ..

theorem append_of_ne (log : κ → List μ) {k k' : κ} (m : μ) (h : k' ≠ k) :
    append log k m k' = log k' := Function.update_of_ne h ..

/-- A stored record keeps its offset. -/
theorem getElem_append {log : κ → List μ} {k k' : κ} {m m' : μ} {i : Nat}
    (h : (log k')[i]? = some m') : (append log k m k')[i]? = some m' := by
  by_cases hk : k' = k
  · subst hk
    rw [append_self, List.getElem?_append_left (List.getElem?_eq_some_iff.mp h).1]
    exact h
  · rwa [append_of_ne _ _ hk]

theorem getElem_appendIf {log : κ → List μ} {k : Option κ} {k' : κ} {m m' : μ} {i : Nat}
    (h : (log k')[i]? = some m') : (appendIf log k m k')[i]? = some m' := by
  cases k with
  | none => exact h
  | some k => exact getElem_append h

/-- The new record is at the end. -/
theorem getElem_append_new (log : κ → List μ) (k : κ) (m : μ) :
    (append log k m k)[(log k).length]? = some m := by
  rw [append_self, List.getElem?_append_right le_rfl]
  simp

theorem length_le_append (log : κ → List μ) (k k' : κ) (m : μ) :
    (log k').length ≤ (append log k m k').length := by
  by_cases hk : k' = k
  · subst hk
    simp
  · rw [append_of_ne _ _ hk]

end PartnerHub.Lib.PartitionLog
