import PartnerHub.Circuit.Breaker
import PartnerHub.RateLimit.TokenBucket

/-!
# The rate limit under Redis errors

`allow_request` when any of its four commands may raise `RedisError`, before or after Redis
executed it. The first error ends the call, which then lets the request pass.
-/
namespace PartnerHub.RateLimit

open PartnerHub.Domain
open PartnerHub.Circuit (Reply)

inductive Command where
  | getTokens | getTs | setTokens | setTs
  deriving DecidableEq, Repr

/-- The two SETs of a call, in their order. -/
def storeUnder (reply : Command → Reply) (keys : Keys) (tokens : ℚ) (currentTime : Time)
    (allowed : Bool) : Keys × Bool :=
  let first := if (reply .setTokens).executed then { keys with tokens := some tokens } else keys
  let second := if (reply .setTs).executed then { first with ts := some currentTime } else first
  match reply .setTokens, reply .setTs with
  | .raised _, _ => (first, true)
  | .answered, .raised _ => (second, true)
  | .answered, .answered => (second, allowed)

/-- `allow_request` with the replies Redis gives to its commands. -/
def allowRequestUnder (reply : Command → Reply) (rateLimitRps : ℤ) (redis : Option Keys)
    (currentTime : Time) : Option Keys × Bool :=
  match redis with
  | none => (none, true)
  | some keys =>
    if rateLimitRps ≤ 0 then (some keys, false)
    else
      match reply .getTokens, reply .getTs with
      | .answered, .answered =>
        let (tokens, allowed) := settle rateLimitRps currentTime keys.tokens keys.ts
        let (keys, allowed) := storeUnder reply keys tokens currentTime allowed
        (some keys, allowed)
      | _, _ => (some keys, true)

variable {reply : Command → Reply} {rps : ℤ} {keys : Keys} {now : Time}

theorem allowRequestUnder_answered (h : ∀ c, reply c = .answered) (redis : Option Keys) :
    allowRequestUnder reply rps redis now = allowRequest rps redis now := by
  cases redis with
  | none => rfl
  | some keys => simp [allowRequestUnder, allowRequest, storeUnder, h, Reply.executed]

/-- A request is turned away on answered commands only, or because the partner has no rate. -/
theorem answered_of_refused (hr : 0 < rps)
    (h : (allowRequestUnder reply rps (some keys) now).2 = false) (c : Command) :
    reply c = .answered := by
  simp only [allowRequestUnder, if_neg (not_le.mpr hr), storeUnder] at h
  cases hgetTokens : reply .getTokens <;> cases hgetTs : reply .getTs <;>
    cases hsetTokens : reply .setTokens <;> cases hsetTs : reply .setTs <;>
    simp only [hgetTokens, hgetTs, hsetTokens, hsetTs, Bool.true_eq_false] at h
  cases c <;> assumption

end PartnerHub.RateLimit
