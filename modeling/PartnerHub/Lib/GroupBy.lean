import Mathlib

/-!
# Grouping rows in a dictionary

A dictionary that keeps the order of insertion is the list of its entries. Each row is
added to the value under its key, which its first row has put there. What a key holds in
the end is the fold of its own rows in their order.
-/
namespace PartnerHub.Lib.GroupBy

variable {ρ κ σ β : Type*} [DecidableEq κ] {key : ρ → κ} {start : ρ → σ} {add : σ → ρ → σ}

/-- Add one row. -/
def insertRow (key : ρ → κ) (start : ρ → σ) (add : σ → ρ → σ) (groups : List (κ × σ)) (r : ρ) :
    List (κ × σ) :=
  if key r ∈ groups.map (·.1) then
    groups.map fun g => if g.1 = key r then (g.1, add g.2 r) else g
  else groups ++ [(key r, add (start r) r)]

def groupRows (key : ρ → κ) (start : ρ → σ) (add : σ → ρ → σ) (rows : List ρ) : List (κ × σ) :=
  rows.foldl (insertRow key start add) []

/-- `grouped.setdefault(key, []).append(value)` for every row. -/
def collect (key : ρ → κ) (value : ρ → β) (rows : List ρ) : List (κ × List β) :=
  groupRows key (fun _ => []) (fun vs r => vs ++ [value r]) rows

/-- What the rows with a key add up to. -/
def valueOf (key : ρ → κ) (start : ρ → σ) (add : σ → ρ → σ) (rows : List ρ) (k : κ) : Option σ :=
  match rows.filter (key · = k) with
  | [] => none
  | r :: rest => some ((r :: rest).foldl add (start r))

theorem groupRows_snoc (rows : List ρ) (r : ρ) :
    groupRows key start add (rows ++ [r]) =
      insertRow key start add (groupRows key start add rows) r := by
  rw [groupRows, List.foldl_append]
  rfl

theorem insertRow_keys (groups : List (κ × σ)) (r : ρ) :
    (insertRow key start add groups r).map (·.1) =
      if key r ∈ groups.map (·.1) then groups.map (·.1) else groups.map (·.1) ++ [key r] := by
  unfold insertRow
  split
  · rw [List.map_map]
    apply List.map_congr_left
    intro g _
    simp only [Function.comp_apply]
    split <;> rfl
  · rw [List.map_append]
    rfl

theorem mem_groupRows_keys {rows : List ρ} {k : κ} :
    k ∈ (groupRows key start add rows).map (·.1) ↔ k ∈ rows.map key := by
  induction rows using List.reverseRecOn with
  | nil => rfl
  | append_singleton rows r ih =>
    rw [groupRows_snoc, insertRow_keys, List.map_append, List.mem_append, ← ih]
    split
    · rename_i hr
      constructor
      · exact .inl
      · rintro (h | h)
        · exact h
        · obtain rfl := List.mem_singleton.mp h
          exact hr
    · exact List.mem_append

theorem nodup_groupRows_keys (rows : List ρ) :
    ((groupRows key start add rows).map (·.1)).Nodup := by
  induction rows using List.reverseRecOn with
  | nil => exact List.nodup_nil
  | append_singleton rows r ih =>
    rw [groupRows_snoc, insertRow_keys]
    split
    · exact ih
    · rename_i hr
      exact List.nodup_append.mpr ⟨ih, List.nodup_singleton _, fun k hk k' hk' =>
        List.mem_singleton.mp hk' ▸ ne_of_mem_of_not_mem hk hr⟩

theorem valueOf_snoc (rows : List ρ) (r : ρ) (k : κ) :
    valueOf key start add (rows ++ [r]) k =
      if key r = k then some (add ((valueOf key start add rows k).getD (start r)) r)
      else valueOf key start add rows k := by
  unfold valueOf
  rw [List.filter_append]
  by_cases hr : key r = k
  · rw [if_pos hr, List.filter_cons_of_pos (by simpa using hr), List.filter_nil]
    cases rows.filter (key · = k) with
    | nil => rfl
    | cons r₀ rest => simp [List.foldl_append]
  · rw [if_neg hr, List.filter_cons_of_neg (by simpa using hr), List.filter_nil, List.append_nil]

theorem valueOf_eq_none_iff {rows : List ρ} {k : κ} :
    valueOf key start add rows k = none ↔ k ∉ rows.map key := by
  unfold valueOf
  cases hf : rows.filter (key · = k) with
  | nil =>
    refine iff_of_true rfl ?_
    rintro hk
    obtain ⟨r, hr, rfl⟩ := List.mem_map.mp hk
    simpa using List.filter_eq_nil_iff.mp hf r hr
  | cons r rest =>
    refine iff_of_false (Option.some_ne_none _) ?_
    obtain ⟨hr, hk⟩ := List.mem_filter.mp (hf ▸ List.mem_cons_self : r ∈ rows.filter (key · = k))
    exact not_not.mpr (List.mem_map.mpr ⟨r, hr, by simpa using hk⟩)

/-- The entry of a key holds what its rows add up to. -/
theorem mem_groupRows {rows : List ρ} {k : κ} {s : σ} :
    (k, s) ∈ groupRows key start add rows ↔ valueOf key start add rows k = some s := by
  induction rows using List.reverseRecOn generalizing k s with
  | nil => simp [groupRows, valueOf]
  | append_singleton rows r ih =>
    rw [groupRows_snoc, valueOf_snoc, insertRow]
    split
    · rename_i hr
      obtain ⟨⟨k₀, s₀⟩, hg, hk₀⟩ := List.mem_map.mp hr
      have hold : valueOf key start add rows (key r) = some s₀ := ih.mp (hk₀ ▸ hg)
      rw [List.mem_map]
      by_cases hk : key r = k
      · subst hk
        rw [if_pos rfl, hold, Option.getD_some, Option.some.injEq]
        constructor
        · rintro ⟨⟨k₁, s₁⟩, hg₁, he⟩
          by_cases hk₁ : k₁ = key r
          · subst hk₁
            simp only [if_true, Prod.mk.injEq, true_and] at he
            rwa [Option.some.inj (hold.symm.trans (ih.mp hg₁))]
          · rw [if_neg hk₁] at he
            exact absurd (Prod.mk.inj he).1 hk₁
        · intro hs
          exact ⟨(key r, s₀), ih.mpr hold, by simp [hs]⟩
      · rw [if_neg hk, ← ih]
        constructor
        · rintro ⟨⟨k₁, s₁⟩, hg₁, he⟩
          by_cases hk₁ : k₁ = key r
          · rw [if_pos hk₁] at he
            exact absurd (hk₁.symm.trans (Prod.mk.inj he).1) hk
          · rw [if_neg hk₁] at he
            exact he ▸ hg₁
        · intro hg₁
          exact ⟨(k, s), hg₁, if_neg fun he => hk he.symm⟩
    · rename_i hr
      have hnone : valueOf key start add rows (key r) = none :=
        valueOf_eq_none_iff.mpr (mt mem_groupRows_keys.mpr hr)
      rw [List.mem_append, List.mem_singleton, Prod.mk.injEq]
      by_cases hk : key r = k
      · subst hk
        rw [if_pos rfl, hnone, Option.getD_none, Option.some.injEq, ih, hnone]
        simp [eq_comm]
      · rw [if_neg hk, ih]
        exact or_iff_left fun he => hk he.1.symm

/-- What is made of the entries, some left out, still has one element for a key. -/
theorem nodup_filterMap_groupRows {τ : Type*} {f : κ × σ → Option τ} {k : τ → κ}
    (hf : ∀ g x, f g = some x → k x = g.1) (rows : List ρ) :
    (((groupRows key start add rows).filterMap f).map k).Nodup := by
  have hkeys : ((groupRows key start add rows).map (·.1)).Nodup := nodup_groupRows_keys rows
  refine List.Nodup.sublist ?_ hkeys
  induction groupRows key start add rows with
  | nil => exact List.Sublist.slnil
  | cons g groups ih =>
    rw [List.filterMap_cons]
    split
    · exact ih.cons _
    · rename_i x hx
      rw [List.map_cons, List.map_cons, hf g x hx]
      exact ih.cons_cons _

/-- A collected group has the values of its rows, in their order. -/
theorem mem_collect {value : ρ → β} {rows : List ρ} {k : κ} {vs : List β} :
    (k, vs) ∈ collect key value rows ↔
      k ∈ rows.map key ∧ vs = (rows.filter (key · = k)).map value := by
  have hfold : ∀ (rs : List ρ) (acc : List β),
      rs.foldl (fun vs r => vs ++ [value r]) acc = acc ++ rs.map value := by
    intro rs
    induction rs with
    | nil => simp
    | cons r rs ih => intro acc; simp [ih]
  rw [collect, mem_groupRows]
  by_cases hk : k ∈ rows.map key
  · unfold valueOf
    cases hf : rows.filter (key · = k) with
    | nil =>
      obtain ⟨r, hr, rfl⟩ := List.mem_map.mp hk
      exact absurd (List.filter_eq_nil_iff.mp hf r hr) (by simp)
    | cons r rest =>
      simp only [hfold, List.nil_append, Option.some.injEq, hk, true_and]
      exact eq_comm
  · rw [valueOf_eq_none_iff.mpr hk]
    simp [hk]

/-- In a dictionary the entry of a key is the one that is found. -/
theorem lookup_eq_of_mem {groups : List (κ × σ)} (hn : (groups.map (·.1)).Nodup) {k : κ} {s : σ}
    (h : (k, s) ∈ groups) : groups.lookup k = some s := by
  induction groups with
  | nil => cases h
  | cons g groups ih =>
    obtain ⟨hg, hn⟩ := List.nodup_cons.mp hn
    rcases List.mem_cons.mp h with rfl | h
    · exact List.lookup_cons_self
    · have hne : k ≠ g.1 := by
        rintro rfl
        exact hg (List.mem_map.mpr ⟨_, h, rfl⟩)
      rw [List.lookup_cons, beq_false_of_ne hne]
      exact ih hn h

theorem lookup_eq_none {groups : List (κ × σ)} {k : κ} (hk : k ∉ groups.map (·.1)) :
    groups.lookup k = none := by
  rw [List.lookup_eq_none_iff]
  intro g hg
  exact bne_iff_ne.mpr fun he => hk (List.mem_map.mpr ⟨g, hg, he.symm⟩)

/-- The order of its entries does not matter to a dictionary. -/
theorem lookup_perm {groups groups' : List (κ × σ)} (hn : (groups.map (·.1)).Nodup)
    (hp : groups'.Perm groups) (k : κ) : groups'.lookup k = groups.lookup k := by
  have hn' : (groups'.map (·.1)).Nodup := (hp.map _).nodup_iff.mpr hn
  by_cases hk : k ∈ groups.map (·.1)
  · obtain ⟨⟨k', s⟩, hg, rfl⟩ := List.mem_map.mp hk
    rw [lookup_eq_of_mem hn hg, lookup_eq_of_mem hn' (hp.mem_iff.mpr hg)]
  · have hk' : k ∉ groups'.map (·.1) := mt (hp.map _).mem_iff.mp hk
    rw [lookup_eq_none hk, lookup_eq_none hk']

/-- Looking a key up among the collected groups is selecting its rows. -/
theorem lookup_collect (value : ρ → β) (rows : List ρ) (k : κ) :
    ((collect key value rows).lookup k).getD [] = (rows.filter (key · = k)).map value := by
  by_cases hk : k ∈ rows.map key
  · have hkeys : ((collect key value rows).map (·.1)).Nodup := nodup_groupRows_keys rows
    have hentry : (k, (rows.filter (key · = k)).map value) ∈ collect key value rows :=
      mem_collect.mpr ⟨hk, rfl⟩
    rw [lookup_eq_of_mem hkeys hentry, Option.getD_some]
  · have hkeys : k ∉ (collect key value rows).map (·.1) := mt mem_groupRows_keys.mp hk
    have hnil : rows.filter (key · = k) = [] := by
      rw [List.filter_eq_nil_iff]
      intro r hr he
      exact hk (List.mem_map.mpr ⟨r, hr, of_decide_eq_true he⟩)
    rw [lookup_eq_none hkeys, hnil]
    rfl

end PartnerHub.Lib.GroupBy
