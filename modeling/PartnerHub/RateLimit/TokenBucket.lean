import PartnerHub.Lib.TokenBucket
import PartnerHub.Domain.Records

/-!
# The rate limit of a partner

`allow_request` on the keys `rl:{slug}:tokens` and `rl:{slug}:ts` of one partner, with
rational numbers for the floats. The stored pair tracks a token bucket whose burst and
rate are both `rate_limit_rps`.
-/
namespace PartnerHub.RateLimit

open PartnerHub.Domain
open PartnerHub.Lib.TokenBucket

/-- The values under the two keys of a partner. -/
structure Keys where
  tokens : Option ℚ := none
  ts : Option Time := none
  deriving DecidableEq, Repr

/-- What a call makes of the values it read: the tokens it stores and its answer. -/
def settle (rateLimitRps : ℤ) (currentTime : Time) (tokensRaw tsRaw : Option ℚ) : ℚ × Bool :=
  let burst : ℚ := rateLimitRps
  match tokensRaw, tsRaw with
  | some stored, some lastTs =>
    let elapsed := currentTime - lastTs
    let tokens := if 0 < elapsed then min burst (stored + elapsed * rateLimitRps) else stored
    if tokens < 1 then (tokens, false) else (tokens - 1, true)
  | _, _ => (burst - 1, true)

/-- `allow_request` with nothing in between; without Redis the request passes. -/
def allowRequest (rateLimitRps : ℤ) (redis : Option Keys) (currentTime : Time) :
    Option Keys × Bool :=
  match redis with
  | none => (none, true)
  | some keys =>
    if rateLimitRps ≤ 0 then (some keys, false)
    else
      let (tokens, allowed) := settle rateLimitRps currentTime keys.tokens keys.ts
      (some { tokens := some tokens, ts := some currentTime }, allowed)

/-- Calls one after another at the given clock readings, from absent keys: what is stored
and the readings with their answers. -/
def allowRequests (rateLimitRps : ℤ) (times : List Time) : Option Keys × List (Time × Bool) :=
  times.foldl
    (fun (redis, log) now =>
      let (redis, allowed) := allowRequest rateLimitRps redis now
      (redis, log ++ [(now, allowed)]))
    (some {}, [])

def answers (rateLimitRps : ℤ) (times : List Time) : List Bool :=
  (allowRequests rateLimitRps times).2.map (·.2)

/-- The keys hold the level of the bucket as of the stored timestamp. -/
inductive Tracks (rps : ℤ) : List (Time × Bool) → Keys → Prop
  | unused : Tracks rps [] {}
  | used {log : List (Time × Bool)} {level : ℚ} {ts : Time}
      (hlevel : IsLevel (rps : ℚ) rps log ts level) :
      Tracks rps log { tokens := some level, ts := some ts }

variable {rps : ℤ} {log : List (Time × Bool)} {keys : Keys} {now : Time}

theorem one_le_rps (hr : 0 < rps) : (1 : ℚ) ≤ rps := by
  exact_mod_cast hr

/-- The refill: skipping it when no time elapsed makes no difference. -/
theorem refilled_isLevel {level : ℚ} {ts : Time} (hr : 0 < rps)
    (h : IsLevel (rps : ℚ) rps log ts level) (hts : ts ≤ now) :
    IsLevel (rps : ℚ) rps log now
      (if 0 < now - ts then min (rps : ℚ) (level + (now - ts) * rps) else level) := by
  have hpos : (0 : ℚ) ≤ rps := (zero_le_one).trans (one_le_rps hr)
  have hlater := h.refill hpos hts
  split
  · rw [mul_comm]
    exact hlater
  · rename_i hnot
    have he : now = ts := le_antisymm (by linarith) hts
    rw [he, sub_self, mul_zero, add_zero, min_eq_right h.level_le_burst] at hlater
    rw [he]
    exact hlater

/-- A bucket with at least one token gives one away; with less it keeps what it has. -/
theorem taken_isLevel {level : ℚ} (h : IsLevel (rps : ℚ) rps log now level) :
    let result := if level < 1 then (level, false) else (level - 1, true)
    IsLevel (rps : ℚ) rps (log ++ [(now, result.2)]) now result.1 ∧
      (result.2 = true ↔ Fits (rps : ℚ) rps log now 1) := by
  intro result
  have hfit := h.le_iff 1
  by_cases hlt : level < 1
  · have hres : result = (level, false) := if_pos hlt
    have hrec := h.record false
    rw [hres]
    simp only [cost, Bool.false_eq_true, if_false, sub_zero] at hrec
    exact ⟨hrec, by simpa [not_le.mpr hlt] using hfit⟩
  · have hres : result = (level - 1, true) := if_neg hlt
    rw [hres]
    exact ⟨h.record true, by simpa [not_lt.mp hlt] using hfit⟩

/-- One call on keys that track the bucket: it answers whether one more request fits and
leaves keys that track the bucket with this call recorded. -/
theorem settle_tracks (hr : 0 < rps) (h : Tracks rps log keys)
    (hts : ∀ ts, keys.ts = some ts → ts ≤ now) :
    let result := settle rps now keys.tokens keys.ts
    Tracks rps (log ++ [(now, result.2)]) { tokens := some result.1, ts := some now } ∧
      (result.2 = true ↔ Fits (rps : ℚ) rps log now 1) := by
  cases h with
  | unused =>
    have hfit : Fits (rps : ℚ) rps [] now 1 := (isLevel_nil.le_iff 1).mp (one_le_rps hr)
    exact ⟨.used (isLevel_nil.record true), iff_of_true rfl hfit⟩
  | used hlevel =>
    obtain ⟨hrec, hfit⟩ := taken_isLevel (refilled_isLevel hr hlevel (hts _ rfl))
    exact ⟨.used hrec, hfit⟩

theorem allowRequests_snoc (rps : ℤ) (times : List Time) (now : Time) :
    allowRequests rps (times ++ [now]) =
      ((allowRequest rps (allowRequests rps times).1 now).1,
        (allowRequests rps times).2 ++
          [(now, (allowRequest rps (allowRequests rps times).1 now).2)]) := by
  rw [allowRequests, List.foldl_append]
  rfl

theorem allowRequests_times (rps : ℤ) (times : List Time) :
    (allowRequests rps times).2.map (·.1) = times := by
  induction times using List.reverseRecOn with
  | nil => rfl
  | append_singleton times now ih => rw [allowRequests_snoc, List.map_append, ih]; rfl

theorem allowRequests_length (rps : ℤ) (times : List Time) :
    (allowRequests rps times).2.length = times.length := by
  rw [← List.length_map (·.1), allowRequests_times]

theorem allowRequests_take (rps : ℤ) (times : List Time) (n : Nat) :
    (allowRequests rps (times.take n)).2 = (allowRequests rps times).2.take n := by
  induction times using List.reverseRecOn with
  | nil => simp [allowRequests]
  | append_singleton times now ih =>
    by_cases hn : n ≤ times.length
    · have hn' : n ≤ (allowRequests rps times).2.length := by
        rw [allowRequests_length]
        exact hn
      rw [List.take_append_of_le_length hn, ih, allowRequests_snoc,
        List.take_append_of_le_length hn']
    · have hlong : (times ++ [now]).length ≤ n := by
        rw [List.length_append, List.length_singleton]
        omega
      have hlong' : (allowRequests rps (times ++ [now])).2.length ≤ n := by
        rw [allowRequests_length]
        exact hlong
      rw [List.take_of_length_le hlong, List.take_of_length_le hlong']

/-- The answer of call `n` is the one it gives on what the calls before it stored. -/
theorem allowRequests_getElem? (rps : ℤ) (times : List Time) {n : Nat} (hn : n < times.length) :
    (allowRequests rps times).2[n]? =
      some (times[n], (allowRequest rps (allowRequests rps (times.take n)).1 times[n]).2) := by
  have hlen : (allowRequests rps (times.take n)).2.length = n := by
    rw [allowRequests_length, List.length_take]
    omega
  have htake : (allowRequests rps times).2.take (n + 1) =
      (allowRequests rps (times.take n)).2 ++
        [(times[n], (allowRequest rps (allowRequests rps (times.take n)).1 times[n]).2)] := by
    rw [← allowRequests_take, List.take_succ_eq_append_getElem hn, allowRequests_snoc]
  have hlt : n < n + 1 := Nat.lt_succ_self n
  rw [← List.getElem?_take_of_lt hlt, htake, List.getElem?_append_right hlen.le, hlen,
    Nat.sub_self, List.getElem?_cons_zero]

theorem allowRequests_time (rps : ℤ) (times : List Time) {n : Nat}
    (hn : n < (allowRequests rps times).2.length) (hn' : n < times.length) :
    (allowRequests rps times).2[n].1 = times[n] := by
  have hget := allowRequests_getElem? rps times hn'
  rw [List.getElem?_eq_getElem hn] at hget
  exact congrArg Prod.fst (Option.some.inj hget)

theorem allowRequest_some (hr : 0 < rps) (keys : Keys) (now : Time) :
    allowRequest rps (some keys) now =
      (some { tokens := some (settle rps now keys.tokens keys.ts).1, ts := some now },
        (settle rps now keys.tokens keys.ts).2) := by
  simp only [allowRequest, if_neg (not_le.mpr hr)]

/-- Along calls at non-decreasing times the keys track the bucket of the log, and the stored
timestamp is a clock reading of an earlier call. -/
theorem tracks_allowRequests (hr : 0 < rps) {times : List Time} (hs : times.Pairwise (· ≤ ·)) :
    ∃ keys, (allowRequests rps times).1 = some keys ∧
      Tracks rps (allowRequests rps times).2 keys ∧ ∀ ts, keys.ts = some ts → ts ∈ times := by
  induction times using List.reverseRecOn with
  | nil => exact ⟨{}, rfl, .unused, fun ts h => nomatch h⟩
  | append_singleton times now ih =>
    obtain ⟨hs', -, hlast⟩ := List.pairwise_append.mp hs
    obtain ⟨keys, hkeys, htracks, hmem⟩ := ih hs'
    have hts (ts : Time) (h : keys.ts = some ts) : ts ≤ now :=
      hlast ts (hmem ts h) now List.mem_cons_self
    rw [allowRequests_snoc, hkeys, allowRequest_some hr]
    refine ⟨_, rfl, (settle_tracks hr htracks hts).1, ?_⟩
    intro ts h
    obtain rfl := Option.some.inj h
    exact List.mem_append_right _ List.mem_cons_self

/-- A call is granted exactly when it fits behind the calls before it. -/
theorem allowRequests_granted_iff (hr : 0 < rps) {times : List Time}
    (hs : times.Pairwise (· ≤ ·)) {n : Nat} (hn : n < times.length) :
    (answers rps times)[n]? = some true ↔
      Fits (rps : ℚ) rps ((allowRequests rps times).2.take n) times[n] 1 := by
  have hs' : (times.take n).Pairwise (· ≤ ·) := hs.sublist (List.take_sublist n times)
  obtain ⟨keys, hkeys, htracks, hmem⟩ := tracks_allowRequests hr hs'
  have hts (ts : Time) (h : keys.ts = some ts) : ts ≤ times[n] := by
    obtain ⟨i, hi, rfl⟩ := List.mem_take_iff_getElem.mp (hmem ts h)
    exact List.pairwise_iff_getElem.mp hs i n (by omega) hn (by omega)
  rw [answers, List.getElem?_map, allowRequests_getElem? rps times hn, hkeys,
    allowRequest_some hr, ← allowRequests_take]
  simp only [Option.map_some, Option.some.injEq]
  exact (settle_tracks hr htracks hts).2

/-- The share of the windows in terms of the clock readings and answers. -/
theorem fits_allowRequests_iff (hr : 0 < rps) (times : List Time) {n : Nat}
    (hn : n < times.length) :
    Fits (rps : ℚ) rps ((allowRequests rps times).2.take n) times[n] 1 ↔
      ∀ (i : Nat) (hi : i ≤ n),
        ((((answers rps times).take n).drop i).count true : ℚ) + 1 ≤
          rps + rps * (times[n] - times[i]) := by
  have hcount (i : Nat) : (((answers rps times).take n).drop i).count true =
      granted (((allowRequests rps times).2.take n).drop i) := by
    rw [answers, ← List.map_take, ← List.map_drop, List.count, List.countP_map, granted]
    apply List.countP_congr
    intro c _
    simp
  have hlen : ((allowRequests rps times).2.take n).length = n := by
    rw [← allowRequests_take, allowRequests_length, List.length_take]
    omega
  have htime (i : Nat) (hi : i < ((allowRequests rps times).2.take n).length)
      (hi' : i < times.length) : ((allowRequests rps times).2.take n)[i].1 = times[i] := by
    rw [List.getElem_take]
    exact allowRequests_time rps times _ hi'
  constructor
  · intro hfits i hi
    obtain ⟨hone, hall⟩ := hfits
    rw [hcount]
    rcases Nat.lt_or_eq_of_le hi with hlt | rfl
    · have h := hall i (hlen.symm ▸ hlt)
      rwa [htime i _ (by omega)] at h
    · rw [List.drop_of_length_le hlen.le]
      simpa [granted] using hone
  · intro hall
    refine ⟨one_le_rps hr, ?_⟩
    intro i hi
    have h := hall i (by omega)
    rw [hcount] at h
    rwa [htime i hi (by omega)]

theorem conforms_allowRequests (hr : 0 < rps) {times : List Time}
    (hs : times.Pairwise (· ≤ ·)) : Conforms (rps : ℚ) rps (allowRequests rps times).2 := by
  intro n hn ha
  have hn' : n < times.length := by
    rw [← allowRequests_length rps times]
    exact hn
  rw [allowRequests_time rps times hn hn']
  apply (allowRequests_granted_iff hr hs hn').mp
  rw [answers, List.getElem?_map, List.getElem?_eq_getElem hn, Option.map_some, ha]

/-- Requests that keep a distance of `1 / rps` from each other are that far apart over any
number of them. -/
theorem spaced_le (hr : 0 < rps) {times : List Time}
    (hsp : times.IsChain fun a b => a + 1 / (rps : ℚ) ≤ b) {n : Nat} (hn : n < times.length) :
    ∀ (i : Nat) (hi : i ≤ n), ((n - i : Nat) : ℚ) ≤ rps * (times[n] - times[i]) := by
  have hpos : (0 : ℚ) < rps := by exact_mod_cast hr
  induction n with
  | zero =>
    intro i hi
    obtain rfl := Nat.le_zero.mp hi
    simp
  | succ n ih =>
    intro i hi
    rcases Nat.lt_or_eq_of_le hi with hlt | rfl
    · have hgap := List.isChain_iff_getElem.mp hsp n hn
      have hih := ih (by omega) i (by omega)
      have hstep : 1 ≤ rps * (times[n + 1] - times[n]) := by
        rw [← div_le_iff₀' hpos]
        linarith
      have hsucc : n + 1 - i = (n - i) + 1 := by omega
      rw [hsucc, Nat.cast_add, Nat.cast_one]
      have hsum : rps * (times[n + 1] - times[i]) =
          rps * (times[n + 1] - times[n]) + rps * (times[n] - times[i]) := by ring
      rw [hsum]
      linarith
    · simp

/-- The token bucket is exact: a call is answered True exactly when every window that ends
with it keeps its share. So no window is over-admitted, and requests at least `1 / rps`
apart all pass. -/
theorem allow_request_exact (rps : ℤ) (hr : 0 < rps) (times : List Time)
    (hs : times.Pairwise (· ≤ ·)) :
    (∀ (n : Nat) (hn : n < times.length), (answers rps times)[n]? = some true ↔
      ∀ (i : Nat) (hi : i ≤ n),
        ((((answers rps times).take n).drop i).count true : ℚ) + 1 ≤
          rps + rps * (times[n] - times[i])) ∧
    (∀ start stop : Time, start ≤ stop →
      (grantedWithin start stop (times.zip (answers rps times)) : ℚ) ≤
        rps + rps * (stop - start)) ∧
    ((times.IsChain fun a b => a + 1 / (rps : ℚ) ≤ b) →
      answers rps times = List.replicate times.length true) := by
  have hpos : (0 : ℚ) ≤ rps := zero_le_one.trans (one_le_rps hr)
  have hexact (n : Nat) (hn : n < times.length) :=
    (allowRequests_granted_iff hr hs hn).trans (fits_allowRequests_iff hr times hn)
  refine ⟨hexact, ?_, ?_⟩
  · intro start stop hle
    have hzip : times.zip (answers rps times) = (allowRequests rps times).2 := by
      nth_rewrite 1 [← allowRequests_times rps times]
      exact (List.zip_of_prod rfl rfl).symm
    rw [hzip]
    exact (conforms_allowRequests hr hs).grantedWithin_le hpos hpos hle
  · intro hsp
    have hlen : (answers rps times).length = times.length := by
      rw [answers, List.length_map, allowRequests_length]
    apply List.ext_getElem?
    intro n
    by_cases hn : n < times.length
    · rw [List.getElem?_replicate_of_lt hn, hexact n hn]
      intro i hi
      have hcount : (((answers rps times).take n).drop i).count true ≤ n - i := by
        apply List.count_le_length.trans
        rw [List.length_drop, List.length_take]
        omega
      have hcast : ((((answers rps times).take n).drop i).count true : ℚ) ≤ (n - i : Nat) :=
        Nat.cast_le.mpr hcount
      have hgap := spaced_le hr hsp hn i hi
      have hone := one_le_rps hr
      linarith
    · rw [List.getElem?_eq_none (by omega), List.getElem?_eq_none (by simp; omega)]

/-- A burst of three at two requests a second, and one a second later. -/
theorem allow_request_exact_burst :
    answers 2 [0, 0, 0, 1] = [true, true, false, true] ∧
    (grantedWithin 0 1 ([0, 0, 0, 1].zip (answers 2 [0, 0, 0, 1])) : ℚ) ≤
      (2 : ℤ) + (2 : ℤ) * ((1 : ℚ) - 0) :=
  ⟨by decide +kernel,
    (allow_request_exact 2 (by decide) [0, 0, 0, 1] (by decide +kernel)).2.1 0 1 zero_le_one⟩

end PartnerHub.RateLimit
