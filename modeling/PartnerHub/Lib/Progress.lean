import PartnerHub.Lib.System

/-!
# Steps that use up a measure

A measure that no step of a run raises, and that every step of one kind lowers, bounds how
many steps of that kind the run takes.
-/
namespace PartnerHub.Lib.System

variable {σ α : Type*} {step : σ → α → Option σ} {ok : σ → α → Prop}

/-- What a step of the run does to the measure. -/
structure UsesUp (μ : σ → Nat) (own : α → Bool) (s : σ) (a : α) (s' : σ) : Prop where
  le : μ s' ≤ μ s
  lt : own a = true → μ s' < μ s

theorem countP_le_measure (I : σ → Prop) {μ : σ → Nat} {own : α → Bool}
    (hkeep : ∀ s a s', I s → ok s a → step s a = some s' → I s')
    (huses : ∀ s a s', I s → ok s a → step s a = some s' → UsesUp μ own s a s')
    {s s' : σ} {as : List α} (hi : I s) (hok : Along step ok s as)
    (hrun : exec step s as = some s') : as.countP own + μ s' ≤ μ s := by
  induction as generalizing s with
  | nil =>
    obtain rfl := Option.some.inj hrun
    simp
  | cons a as ih =>
    obtain ⟨t, hst, hrest⟩ := Option.bind_eq_some_iff.mp hrun
    have htail := ih (hkeep s a t hi hok.1 hst) (hok.2 t hst) hrest
    obtain ⟨hle, hlt⟩ := huses s a t hi hok.1 hst
    rw [List.countP_cons]
    split
    · have hdown := hlt ‹_›
      omega
    · omega

end PartnerHub.Lib.System
