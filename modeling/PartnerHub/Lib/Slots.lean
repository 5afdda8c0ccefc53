import Mathlib

/-!
# Slots

A table of processes is a map from identifiers to what each of them holds, `none` for a
free slot; a step of one process updates its own slot.
-/
namespace PartnerHub.Lib.Slots

variable {κ β : Type*} [DecidableEq κ] {f : κ → Option β} {k k' : κ} {b : β}

theorem update_some_cases {x : Option β} (h : Function.update f k x k' = some b) :
    (k' = k ∧ x = some b) ∨ (k' ≠ k ∧ f k' = some b) := by
  by_cases he : k' = k
  · subst he
    rw [Function.update_self] at h
    exact .inl ⟨rfl, h⟩
  · rw [Function.update_of_ne he] at h
    exact .inr ⟨he, h⟩

theorem update_none_some (h : Function.update f k none k' = some b) : f k' = some b ∧ k' ≠ k := by
  rcases update_some_cases h with ⟨-, hx⟩ | ⟨he, hf⟩
  · cases hx
  · exact ⟨hf, he⟩

end PartnerHub.Lib.Slots
