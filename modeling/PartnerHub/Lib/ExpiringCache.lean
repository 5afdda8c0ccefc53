import Mathlib

/-!
# Dictionaries whose entries expire

A dictionary holds values with an expiry; reading drops an entry that has expired. What
every entry satisfies is kept by reading, and by writing a value that satisfies it, so that
a reader may rely on it whatever the pattern of hits, misses and expiries.
-/
namespace PartnerHub.Lib

abbrev ExpiringCache (κ τ β : Type*) := κ → Option (τ × β)

namespace ExpiringCache

variable {κ τ β : Type*}

def empty : ExpiringCache κ τ β := fun _ => none

/-- Every entry, expired or not, satisfies `P`. -/
def Holds (P : κ → β → Prop) (c : ExpiringCache κ τ β) : Prop :=
  ∀ k expiresAt v, c k = some (expiresAt, v) → P k v

theorem holds_empty {P : κ → β → Prop} : Holds P (empty : ExpiringCache κ τ β) := by
  intro k expiresAt v h
  cases h

section Remove

/-- The dictionary without the entries whose keys satisfy `p`. -/
def eraseAll (c : ExpiringCache κ τ β) (p : κ → Prop) [DecidablePred p] : ExpiringCache κ τ β :=
  fun k => if p k then none else c k

/-- `d` is `c` without exactly the entries whose keys satisfy `p`. -/
def Removes (p : κ → Prop) (c d : ExpiringCache κ τ β) : Prop :=
  ∀ k, (p k → d k = none) ∧ (¬ p k → d k = c k)

variable {p q : κ → Prop} {c d e : ExpiringCache κ τ β}

theorem removes_eraseAll (c : ExpiringCache κ τ β) (p : κ → Prop) [DecidablePred p] :
    Removes p c (c.eraseAll p) :=
  fun _ => ⟨fun h => if_pos h, fun h => if_neg h⟩

/-- One removal after another. -/
theorem Removes.trans (hcd : Removes p c d)
    (hde : Removes q d e) : Removes (fun k => p k ∨ q k) c e := by
  intro k
  constructor
  · intro h
    by_cases hq : q k
    · exact (hde k).1 hq
    · rw [(hde k).2 hq, (hcd k).1 (h.resolve_right hq)]
  · intro h
    obtain ⟨hp, hq⟩ := not_or.mp h
    rw [(hde k).2 hq, (hcd k).2 hp]

theorem Removes.congr (h : Removes p c d)
    (hpq : ∀ k, p k ↔ q k) : Removes q c d := by
  intro k
  rw [← hpq k]
  exact h k

end Remove

section Write

variable [DecidableEq κ]

def erase (c : ExpiringCache κ τ β) (k : κ) : ExpiringCache κ τ β := Function.update c k none

def set (c : ExpiringCache κ τ β) (k : κ) (expiresAt : τ) (v : β) : ExpiringCache κ τ β :=
  Function.update c k (some (expiresAt, v))

variable {P : κ → β → Prop} {c : ExpiringCache κ τ β} {k k' : κ} {v : β}

theorem Holds.erase (h : Holds P c) (k : κ) : Holds P (c.erase k) := by
  intro k' expiresAt v hv
  by_cases hk : k' = k
  · rw [hk, ExpiringCache.erase, Function.update_self] at hv
    cases hv
  · rw [ExpiringCache.erase, Function.update_of_ne hk] at hv
    exact h k' expiresAt v hv

theorem Holds.set (h : Holds P c) (expiresAt : τ) (hv : P k v) : Holds P (c.set k expiresAt v) := by
  intro k' e w hw
  by_cases hk : k' = k
  · rw [hk, ExpiringCache.set, Function.update_self] at hw
    cases hw
    exact hk ▸ hv
  · rw [ExpiringCache.set, Function.update_of_ne hk] at hw
    exact h k' e w hw

theorem removes_erase (c : ExpiringCache κ τ β) (k : κ) : Removes (· = k) c (c.erase k) := by
  intro k'
  constructor
  · rintro rfl
    exact Function.update_self _ _ _
  · exact fun h => Function.update_of_ne h _ _

theorem set_of_ne (expiresAt : τ) (v : β) (hk : k' ≠ k) : c.set k expiresAt v k' = c k' :=
  Function.update_of_ne hk _ _

end Write

section Read

variable [LinearOrder τ]

/-- The value under a key that has not expired at `now`. -/
def value (c : ExpiringCache κ τ β) (now : τ) (k : κ) : Option β :=
  match c k with
  | none => none
  | some (expiresAt, v) => if expiresAt ≤ now then none else some v

variable {P : κ → β → Prop} {c : ExpiringCache κ τ β} {now : τ} {k k' : κ} {v : β}

theorem Holds.value (h : Holds P c) (hv : c.value now k = some v) : P k v := by
  unfold ExpiringCache.value at hv
  split at hv
  · cases hv
  · rename_i expiresAt w hc
    split at hv
    · cases hv
    · obtain rfl := Option.some.inj hv
      exact h k expiresAt w hc

theorem value_congr {d : ExpiringCache κ τ β} (h : d k = c k) (now : τ) :
    d.value now k = c.value now k := by
  simp only [ExpiringCache.value, h]

variable [DecidableEq κ]

/-- The dictionary after a reading: an expired entry is dropped. -/
def touch (c : ExpiringCache κ τ β) (now : τ) (k : κ) : ExpiringCache κ τ β :=
  match c k with
  | none => c
  | some (expiresAt, _) => if expiresAt ≤ now then c.erase k else c

theorem Holds.touch (h : Holds P c) (now : τ) (k : κ) : Holds P (c.touch now k) := by
  unfold ExpiringCache.touch
  split
  · exact h
  · split
    · exact h.erase k
    · exact h

/-- Reading one key does not change what another holds. -/
theorem touch_of_ne (now : τ) (hk : k' ≠ k) : c.touch now k k' = c k' := by
  cases hc : c k with
  | none => simp only [touch, hc]
  | some entry =>
    simp only [touch, hc]
    by_cases he : entry.1 ≤ now
    · rw [if_pos he]
      exact Function.update_of_ne hk _ _
    · rw [if_neg he]

end Read

end ExpiringCache

end PartnerHub.Lib
