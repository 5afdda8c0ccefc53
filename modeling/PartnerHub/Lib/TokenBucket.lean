import Mathlib

/-!
# Token buckets

A log lists requests with their times and whether each was granted. A bucket with a
`burst` and a `rate` promises that every window of the log, from one of its requests to
now, grants at most `burst + rate * length`. The level of the bucket is the most that can
still be granted now; the lemmas say how it moves when time passes and when a request is
recorded, and what a log obeys in which every grant fitted.
-/
namespace PartnerHub.Lib.TokenBucket

variable {K : Type*}

def granted (log : List (K × Bool)) : Nat := log.countP (·.2)

@[simp] theorem granted_append (a b : List (K × Bool)) :
    granted (a ++ b) = granted a + granted b := List.countP_append

variable [LinearOrder K]

/-- The grants with a time from `start` to `stop`. -/
def grantedWithin (start stop : K) (log : List (K × Bool)) : Nat :=
  log.countP fun c => c.2 && decide (start ≤ c.1 ∧ c.1 ≤ stop)

theorem grantedWithin_le_granted (start stop : K) (log : List (K × Bool)) :
    grantedWithin start stop log ≤ granted log := by
  apply List.countP_mono_left
  intro c _ hc
  exact (Bool.and_eq_true_iff.mp hc).1

/-- What is granted before the first request of a window is not granted within it. -/
theorem grantedWithin_eq_dropWhile (start stop : K) (log : List (K × Bool)) :
    grantedWithin start stop log =
      grantedWithin start stop (log.dropWhile fun c => decide (c.1 < start)) := by
  induction log with
  | nil => rfl
  | cons c log ih =>
    by_cases hc : c.1 < start
    · rw [List.dropWhile_cons_of_pos (by simpa using hc), ← ih]
      apply List.countP_cons_of_neg
      simp [not_le.mpr hc]
    · rw [List.dropWhile_cons_of_neg (by simpa using hc)]

variable [Field K]

/-- One request in the units of the bucket. -/
def cost (allowed : Bool) : K := if allowed then 1 else 0

/-- `x` more can be granted now: neither the empty window nor one that starts at a request
of the log gets more than its share. -/
def Fits (burst rate : K) (log : List (K × Bool)) (now x : K) : Prop :=
  x ≤ burst ∧ ∀ (i : Nat) (hi : i < log.length),
    (granted (log.drop i) : K) + x ≤ burst + rate * (now - log[i].1)

/-- The level is the most that fits. -/
def IsLevel (burst rate : K) (log : List (K × Bool)) (now level : K) : Prop :=
  ∀ x, x ≤ level ↔ Fits burst rate log now x

/-- Every granted request fitted when it was granted. -/
def Conforms (burst rate : K) (log : List (K × Bool)) : Prop :=
  ∀ (n : Nat) (hn : n < log.length), log[n].2 = true →
    Fits burst rate (log.take n) log[n].1 1

variable {burst rate now level t : K} {log : List (K × Bool)}

theorem isLevel_nil : IsLevel burst rate [] now burst := by
  intro x
  simp [Fits]

theorem IsLevel.level_le_burst (h : IsLevel burst rate log now level) : level ≤ burst :=
  ((h level).mp le_rfl).1

theorem IsLevel.le_iff (h : IsLevel burst rate log now level) (x : K) :
    x ≤ level ↔ Fits burst rate log now x := h x

/-- A window of what fits, by the part of the log it starts with. -/
theorem Fits.window {x : K} {before later : List (K × Bool)} {c : K × Bool}
    (h : Fits burst rate (before ++ c :: later) now x) :
    (granted (c :: later) : K) + x ≤ burst + rate * (now - c.1) := by
  have hi := h.2 before.length (by simp)
  rw [List.drop_left, List.getElem_append_right le_rfl] at hi
  simpa using hi

theorem conforms_nil : Conforms burst rate [] := by
  intro n hn
  cases hn

/-- A longer log conforms when its beginning does and its last request, if granted, fitted. -/
theorem conforms_snoc {c : K × Bool} : Conforms burst rate (log ++ [c]) ↔
    Conforms burst rate log ∧ (c.2 = true → Fits burst rate log c.1 1) := by
  constructor
  · intro h
    constructor
    · intro n hn ha
      have hn' := h n (by rw [List.length_append]; omega)
      rw [List.getElem_append_left hn, List.take_append_of_le_length hn.le] at hn'
      exact hn' ha
    · have hlast := h log.length (by simp)
      rw [List.getElem_append_right le_rfl, List.take_left] at hlast
      simpa using hlast
  · intro ⟨h, hlast⟩ n hn ha
    by_cases hlt : n < log.length
    · rw [List.getElem_append_left hlt] at ha ⊢
      rw [List.take_append_of_le_length hlt.le]
      exact h n hlt ha
    · have he : n = log.length := by
        rw [List.length_append, List.length_singleton] at hn
        omega
      subst he
      rw [List.getElem_append_right le_rfl] at ha ⊢
      simp only [Nat.sub_self, List.getElem_cons_zero] at ha ⊢
      rw [List.take_left]
      exact hlast ha

variable [IsStrictOrderedRing K]

theorem cost_nonneg (allowed : Bool) : (0 : K) ≤ cost allowed := by
  cases allowed <;> simp [cost]

theorem granted_singleton (t : K) (allowed : Bool) :
    (granted [(t, allowed)] : K) = cost allowed := by
  cases allowed <;> simp [granted, cost]

/-- While time passes the bucket is refilled up to the burst. -/
theorem IsLevel.refill (h : IsLevel burst rate log t level) (hr : 0 ≤ rate) (ht : t ≤ now) :
    IsLevel burst rate log now (min burst (level + rate * (now - t))) := by
  intro x
  have hpos : 0 ≤ rate * (now - t) := mul_nonneg hr (sub_nonneg.mpr ht)
  have hsplit (i : Nat) (hi : i < log.length) :
      rate * (now - log[i].1) = rate * (now - t) + rate * (t - log[i].1) := by ring
  rw [le_min_iff, ← sub_le_iff_le_add, h.le_iff]
  constructor
  · intro ⟨hx, _, hall⟩
    refine ⟨hx, ?_⟩
    intro i hi
    have hi' := hall i hi
    rw [hsplit i hi]
    linarith
  · intro ⟨hx, hall⟩
    refine ⟨hx, by linarith, ?_⟩
    intro i hi
    have hi' := hall i hi
    rw [hsplit i hi] at hi'
    linarith

/-- A recorded request takes its cost out of the bucket. -/
theorem IsLevel.record (h : IsLevel burst rate log now level) (allowed : Bool) :
    IsLevel burst rate (log ++ [(now, allowed)]) now (level - cost allowed) := by
  intro x
  have hcost := cost_nonneg (K := K) allowed
  rw [le_sub_iff_add_le, h.le_iff]
  constructor
  · intro ⟨hx, hall⟩
    refine ⟨by linarith, ?_⟩
    intro i hi
    by_cases hlt : i < log.length
    · have hi' := hall i hlt
      rw [List.drop_append_of_le_length hlt.le, granted_append, Nat.cast_add, granted_singleton,
        List.getElem_append_left hlt]
      linarith
    · have he : i = log.length := by
        rw [List.length_append, List.length_singleton] at hi
        omega
      subst he
      rw [List.drop_left, granted_singleton, List.getElem_append_right le_rfl]
      simp only [Nat.sub_self, List.getElem_cons_zero, sub_self, mul_zero, add_zero]
      linarith
  · intro ⟨hx, hall⟩
    constructor
    · have hlast := hall log.length (by simp)
      rw [List.drop_left, granted_singleton, List.getElem_append_right le_rfl] at hlast
      simp only [Nat.sub_self, List.getElem_cons_zero, sub_self, mul_zero, add_zero] at hlast
      linarith
    · intro i hlt
      have hi' := hall i (by rw [List.length_append]; omega)
      rw [List.drop_append_of_le_length hlt.le, granted_append, Nat.cast_add, granted_singleton,
        List.getElem_append_left hlt] at hi'
      linarith

/-- A request that fits leaves room for itself in every window that holds it. -/
theorem Fits.grantedWithin_lt {start stop : K} (h : Fits burst rate log now 1) (hr : 0 ≤ rate)
    (hstart : start ≤ now) (hstop : now ≤ stop) :
    (grantedWithin start stop log : K) + 1 ≤ burst + rate * (stop - start) := by
  let early (c : K × Bool) : Bool := decide (c.1 < start)
  rw [grantedWithin_eq_dropWhile]
  have happ := List.takeWhile_append_dropWhile (p := early) (l := log)
  cases hd : log.dropWhile early with
  | nil =>
    have hpos : 0 ≤ rate * (stop - start) := mul_nonneg hr (by linarith)
    have hone := h.1
    simp only [grantedWithin, List.countP_nil, Nat.cast_zero]
    linarith
  | cons c later =>
    rw [hd] at happ
    rw [← happ] at h
    -- the window from the first request that is not before `start` covers the grants counted
    have hwin := h.window
    have hc : start ≤ c.1 := by
      have hne : log.dropWhile early ≠ [] := by simp [hd]
      have hnot := List.head_dropWhile_not early hne
      simpa [hd, early] using hnot
    have hle : (grantedWithin start stop (c :: later) : K) ≤ granted (c :: later) :=
      Nat.cast_le.mpr (grantedWithin_le_granted _ _ _)
    have hlen : rate * (now - c.1) ≤ rate * (stop - start) :=
      mul_le_mul_of_nonneg_left (by linarith) hr
    linarith

/-- No window of a conforming log is over-admitted. -/
theorem Conforms.grantedWithin_le (hc : Conforms burst rate log) (hb : 0 ≤ burst)
    (hr : 0 ≤ rate) {start stop : K} (hle : start ≤ stop) :
    (grantedWithin start stop log : K) ≤ burst + rate * (stop - start) := by
  induction log using List.reverseRecOn with
  | nil =>
    have hpos : 0 ≤ rate * (stop - start) := mul_nonneg hr (sub_nonneg.mpr hle)
    simp only [grantedWithin, List.countP_nil, Nat.cast_zero]
    linarith
  | append_singleton log c ih =>
    obtain ⟨hlog, hfit⟩ := conforms_snoc.mp hc
    have hsplit : grantedWithin start stop (log ++ [c]) =
        grantedWithin start stop log + grantedWithin start stop [c] := List.countP_append
    by_cases hin : c.2 = true ∧ start ≤ c.1 ∧ c.1 ≤ stop
    · have hlast : grantedWithin start stop [c] = 1 := by simp [grantedWithin, hin]
      rw [hsplit, hlast, Nat.cast_add, Nat.cast_one]
      exact (hfit hin.1).grantedWithin_lt hr hin.2.1 hin.2.2
    · have hlast : grantedWithin start stop [c] = 0 := by
        rw [grantedWithin, List.countP_eq_zero]
        intro d hd hd'
        obtain rfl := List.mem_singleton.mp hd
        rw [Bool.and_eq_true_iff, decide_eq_true_eq] at hd'
        exact hin hd'
      rw [hsplit, hlast, Nat.add_zero]
      exact ih hlog

end PartnerHub.Lib.TokenBucket
