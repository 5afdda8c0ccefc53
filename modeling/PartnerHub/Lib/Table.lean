import Mathlib

/-!
# Tables as lists of rows

A table is the list of its rows in insertion order. `modify` is an UPDATE of the
rows with one key value; a unique column is a duplicate-free projection. The
lemmas say which rows and which projections an update leaves alone.
-/
namespace PartnerHub.Lib.Table

variable {ρ κ β : Type*} [DecidableEq κ]

/-- UPDATE: apply `f` to every row whose key is `k`. -/
def modify (key : ρ → κ) (k : κ) (f : ρ → ρ) (t : List ρ) : List ρ :=
  t.map fun r => if key r = k then f r else r

theorem mem_modify {key : ρ → κ} {k : κ} {f : ρ → ρ} {t : List ρ} {r : ρ} :
    r ∈ modify key k f t ↔ ∃ r₀ ∈ t, r = if key r₀ = k then f r₀ else r₀ := by
  simp only [modify, List.mem_map, eq_comm]

theorem mem_modify_of_ne {key : ρ → κ} {k : κ} {f : ρ → ρ} {t : List ρ} {r : ρ}
    (h : r ∈ t) (hk : key r ≠ k) : r ∈ modify key k f t :=
  mem_modify.mpr ⟨r, h, by rw [if_neg hk]⟩

theorem mem_modify_of_eq {key : ρ → κ} {k : κ} {f : ρ → ρ} {t : List ρ} {r : ρ}
    (h : r ∈ t) (hk : key r = k) : f r ∈ modify key k f t :=
  mem_modify.mpr ⟨r, h, by rw [if_pos hk]⟩

/-- An update that does not write a column leaves its projection as it was. -/
theorem map_modify (key : ρ → κ) (k : κ) (f : ρ → ρ) (g : ρ → β) (t : List ρ)
    (hg : ∀ r, g (f r) = g r) : (modify key k f t).map g = t.map g := by
  rw [modify, List.map_map]
  apply List.map_congr_left
  intro r _
  simp only [Function.comp_apply]
  split <;> simp [hg]

/-- Two rows with the same value of a unique column are one row. -/
theorem eq_of_unique {g : ρ → β} {t : List ρ} (hn : (t.map g).Nodup) {r r' : ρ}
    (h : r ∈ t) (h' : r' ∈ t) (he : g r = g r') : r = r' :=
  List.inj_on_of_nodup_map hn h h' he

/-- A SELECT on a unique column finds the row that has the value. -/
theorem find_of_mem {g : ρ → κ} {t : List ρ} (hn : (t.map g).Nodup) {r : ρ} (h : r ∈ t) :
    t.find? (fun x => g x = g r) = some r := by
  cases hf : t.find? (fun x => g x = g r) with
  | none =>
    have hno := List.find?_eq_none.mp hf r h
    simp at hno
  | some x =>
    have hx : g x = g r := by simpa using List.find?_some hf
    rw [eq_of_unique hn (List.mem_of_find?_eq_some hf) h hx]

theorem mem_of_find {p : ρ → Bool} {t : List ρ} {r : ρ} (h : t.find? p = some r) :
    r ∈ t ∧ p r = true :=
  ⟨List.mem_of_find?_eq_some h, List.find?_some h⟩

/-- A SELECT that one row satisfies returns that row alone. -/
theorem filter_eq_singleton {p : ρ → Bool} {t : List ρ} (hn : t.Nodup) {r : ρ} (hr : r ∈ t)
    (hp : p r = true) (h : ∀ x ∈ t, p x = true → x = r) : t.filter p = [r] := by
  have hmem : ∀ x, x ∈ t.filter p ↔ x = r := by
    intro x
    rw [List.mem_filter]
    constructor
    · exact fun hx => h x hx.1 hx.2
    · rintro rfl
      exact ⟨hr, hp⟩
  exact List.perm_singleton.mp ((List.perm_ext_iff_of_nodup (hn.filter p)
    (List.nodup_singleton r)).mpr fun x => by rw [hmem, List.mem_singleton])

/-- The order of the rows does not matter to it. -/
theorem filter_perm_singleton {p : ρ → Bool} {t t' : List ρ} {r : ρ} (h : t'.Perm t)
    (hr : t.filter p = [r]) : t'.filter p = [r] :=
  List.perm_singleton.mp (hr ▸ h.filter p)

theorem length_filter_le_one {p : ρ → Bool} {t : List ρ} (hn : t.Nodup)
    (h : ∀ x ∈ t, ∀ y ∈ t, p x = true → p y = true → x = y) : (t.filter p).length ≤ 1 := by
  cases hf : t.filter p with
  | nil => exact Nat.zero_le 1
  | cons r rest =>
    obtain ⟨hr, hp⟩ := List.mem_filter.mp (hf ▸ List.mem_cons_self : r ∈ t.filter p)
    rw [← hf, filter_eq_singleton hn hr hp fun x hx hpx => h x hx r hr hpx hp]
    rfl

/-- After an INSERT of a row with a new key, a pair of rows with one key is a pair of old
rows or twice the new row. -/
theorem forall_pairs_concat {key : ρ → β} {t : List ρ} {r : ρ} (hr : ∀ x ∈ t, key x ≠ key r)
    {motive : ρ → ρ → Prop} (h : ∀ a ∈ t, ∀ b ∈ t, key a = key b → motive a b)
    (hnew : motive r r) : ∀ a ∈ t ++ [r], ∀ b ∈ t ++ [r], key a = key b → motive a b := by
  intro a hma b hmb hk
  rcases List.mem_append.mp hma with ha | ha
  · rcases List.mem_append.mp hmb with hb | hb
    · exact h a ha b hb hk
    · rw [List.mem_singleton.mp hb] at hk
      exact absurd hk (hr a ha)
  · rw [List.mem_singleton.mp ha] at hk ⊢
    rcases List.mem_append.mp hmb with hb | hb
    · exact absurd hk.symm (hr b hb)
    · rw [List.mem_singleton.mp hb]
      exact hnew

end PartnerHub.Lib.Table
