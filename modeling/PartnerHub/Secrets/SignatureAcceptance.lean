import PartnerHub.Secrets.InboundSignature

/-!
# Which signatures are accepted

The endpoint publishes that the `sha256=` prefix of the signature is optional. `verify` asks for
it, and hands whatever follows it to `compare_digest`, which takes ASCII only.
-/
namespace PartnerHub.Secrets

open PartnerHub.Domain

/-- The header without a leading `sha256=`, if it has one. -/
def withoutPrefix (header : String) : String := (headerHex header).getD header

/-- `hex` is the digest of the payload under one of the two secrets. -/
def DigestOf (digest : Secret → List UInt8 → List UInt8) (primary : Secret)
    (previous : Option Secret) (payload : List UInt8) (hex : String) : Prop :=
  hexdigest (digest primary payload) = hex ∨
    ∃ secret ∈ previous, hexdigest (digest secret payload) = hex

instance (digest : Secret → List UInt8 → List UInt8) (primary : Secret) (previous : Option Secret)
    (payload : List UInt8) (hex : String) :
    Decidable (DigestOf digest primary previous payload hex) :=
  inferInstanceAs (Decidable (_ ∨ ∃ secret ∈ previous, _))

/-- `verify` returns, and accepts exactly what the published contract accepts: a timestamp in
tolerance and the digest under one of the two secrets, with or without the prefix. -/
def AsDocumented (parseInt : String → Option Int) (digest : Secret → List UInt8 → List UInt8)
    (primary : Secret) (previous : Option Secret) (timestamp : String) (ts : Int)
    (body : List UInt8) (header : String) (now tolerance : Int) : Prop :=
  ∃ accepted, verify parseInt digest primary timestamp body header now tolerance previous =
      .ok accepted ∧
    (accepted = true ↔ |now - ts| ≤ tolerance ∧
      DigestOf digest primary previous (signedPayload timestamp body) (withoutPrefix header))

section Documented

variable {parseInt : String → Option Int} {digest : Secret → List UInt8 → List UInt8}
  {primary : Secret} {previous : Option Secret} {timestamp header hex : String} {ts : Int}
  {body : List UInt8} {now tolerance : Int}

theorem ascii_of_digestOf {payload : List UInt8}
    (h : DigestOf digest primary previous payload hex) : Ascii hex := by
  rcases h with rfl | ⟨secret, -, rfl⟩ <;> exact ascii_hexdigest _

theorem verify_late (hts : parseInt timestamp = some ts) (hlate : tolerance < |now - ts|) :
    verify parseInt digest primary timestamp body header now tolerance previous = .ok false := by
  simp only [verify, hts, if_pos hlate]

theorem verify_unprefixed (hts : parseInt timestamp = some ts)
    (htol : ¬tolerance < |now - ts|) (hhex : headerHex header = none) :
    verify parseInt digest primary timestamp body header now tolerance previous = .ok false := by
  simp only [verify, hts, if_neg htol, hhex]

theorem matches_ascii {secret : Secret} {payload : List UInt8} (h : Ascii hex) :
    matchesSecret digest secret payload hex =
      .ok (decide (hexdigest (digest secret payload) = hex)) := if_pos h

theorem matches_raises {secret : Secret} {payload : List UInt8} (h : ¬Ascii hex) :
    matchesSecret digest secret payload hex = .error .typeError := if_neg h

theorem verify_compares (hts : parseInt timestamp = some ts) (htol : ¬tolerance < |now - ts|)
    (hhex : headerHex header = some hex) :
    verify parseInt digest primary timestamp body header now tolerance previous =
      (matchesSecret digest primary (signedPayload timestamp body) hex).bind fun matched =>
        if matched then .ok true
        else match previous with
          | none => .ok false
          | some secret => matchesSecret digest secret (signedPayload timestamp body) hex := by
  simp only [verify, hts, if_neg htol, hhex]
  rfl

/-- In time, what follows the prefix is compared with both digests if it can be compared. -/
theorem verify_prefixed (hts : parseInt timestamp = some ts) (htol : ¬tolerance < |now - ts|)
    (hhex : headerHex header = some hex) :
    verify parseInt digest primary timestamp body header now tolerance previous =
      if Ascii hex then
        .ok (decide (DigestOf digest primary previous (signedPayload timestamp body) hex))
      else .error .typeError := by
  rw [verify_compares hts htol hhex]
  by_cases hascii : Ascii hex
  · rw [matches_ascii hascii, if_pos hascii, Except.bind]
    by_cases hprim : hexdigest (digest primary (signedPayload timestamp body)) = hex
    · rw [decide_eq_true hprim, if_pos rfl, decide_eq_true (.inl hprim)]
    cases previous with
    | none =>
      have hnone : ¬DigestOf digest primary none (signedPayload timestamp body) hex := by
        simp [DigestOf, hprim]
      rw [decide_eq_false hprim, if_neg Bool.false_ne_true, decide_eq_false hnone]
    | some secret =>
      have hprev : hexdigest (digest secret (signedPayload timestamp body)) = hex ↔
          DigestOf digest primary (some secret) (signedPayload timestamp body) hex := by
        simp [DigestOf, hprim]
      rw [decide_eq_false hprim, if_neg Bool.false_ne_true, ← decide_eq_decide.mpr hprev]
      exact matches_ascii hascii
  · rw [matches_raises hascii, if_neg hascii]
    rfl

/-- What an accepted request has gone through. -/
theorem verify_accepts_iff :
    verify parseInt digest primary timestamp body header now tolerance previous = .ok true ↔
      ∃ ts hex, parseInt timestamp = some ts ∧ |now - ts| ≤ tolerance ∧
        headerHex header = some hex ∧
        DigestOf digest primary previous (signedPayload timestamp body) hex := by
  constructor
  · intro h
    cases hts : parseInt timestamp with
    | none => simp [verify, hts] at h
    | some ts =>
      by_cases hlate : tolerance < |now - ts|
      · rw [verify_late hts hlate] at h
        simp at h
      cases hhex : headerHex header with
      | none =>
        rw [verify_unprefixed hts hlate hhex] at h
        simp at h
      | some hex =>
        rw [verify_prefixed hts hlate hhex] at h
        split_ifs at h
        exact ⟨ts, hex, rfl, not_lt.mp hlate, rfl, of_decide_eq_true (Except.ok.inj h)⟩
  · rintro ⟨ts, hex, hts, htol, hhex, hdigest⟩
    rw [verify_prefixed hts (not_lt.mpr htol) hhex, if_pos (ascii_of_digestOf hdigest),
      decide_eq_true hdigest]

/-- Both secrets' own signatures are accepted while the timestamp is in tolerance. -/
theorem verify_own_signature {secret : Secret} (hts : parseInt timestamp = some ts)
    (htol : |now - ts| ≤ tolerance) (hsecret : secret = primary ∨ previous = some secret) :
    verify parseInt digest primary timestamp body (sign digest secret timestamp body) now
      tolerance previous = .ok true := by
  have hdigest : DigestOf digest primary previous (signedPayload timestamp body)
      (hexdigest (digest secret (signedPayload timestamp body))) := by
    rcases hsecret with rfl | rfl
    · exact .inl rfl
    · exact .inr ⟨secret, rfl, rfl⟩
  exact verify_accepts_iff.mpr ⟨ts, _, hts, htol, headerHex_sign secret timestamp body, hdigest⟩

end Documented

/-- The contract is kept exactly for the requests that are late, the headers with a prefix and
ASCII after it, and the headers without a prefix that are no digest either. -/
theorem accepted_as_documented_iff (parseInt : String → Option Int)
    (digest : Secret → List UInt8 → List UInt8) (primary : Secret) (previous : Option Secret)
    (timestamp : String) (ts : Int) (body : List UInt8) (header : String) (now tolerance : Int)
    (hts : parseInt timestamp = some ts) :
    AsDocumented parseInt digest primary previous timestamp ts body header now tolerance ↔
      tolerance < |now - ts| ∨
      (∃ hex, headerHex header = some hex ∧ Ascii hex) ∨
      headerHex header = none ∧
        ¬DigestOf digest primary previous (signedPayload timestamp body) header := by
  by_cases hlate : tolerance < |now - ts|
  · have hkept : AsDocumented parseInt digest primary previous timestamp ts body header now
        tolerance := ⟨false, verify_late hts hlate, by simp [not_le.mpr hlate]⟩
    simp [hkept, hlate]
  have htol : |now - ts| ≤ tolerance := not_lt.mp hlate
  cases hhex : headerHex header with
  | none =>
    have hverify : verify parseInt digest primary timestamp body header now tolerance previous =
        .ok false := verify_unprefixed hts hlate hhex
    simp [AsDocumented, hverify, hlate, htol, withoutPrefix, hhex]
  | some hex =>
    have hverify : verify parseInt digest primary timestamp body header now tolerance previous =
        if Ascii hex then
          .ok (decide (DigestOf digest primary previous (signedPayload timestamp body) hex))
        else .error .typeError := verify_prefixed hts hlate hhex
    by_cases hascii : Ascii hex
    · simp [AsDocumented, hverify, hlate, htol, withoutPrefix, hhex, hascii]
    · simp [AsDocumented, hverify, hlate, hascii]

/-- `int` on the texts of decimal digits alone. -/
def decimalInt (text : String) : Option Int :=
  if text.toList ≠ [] ∧ ∀ c ∈ text.toList, c.isDigit then
    some (text.toList.foldl (fun n c => 10 * n + (c.toNat - 48)) 0 : Nat)
  else none

theorem decimalInt_hundred : decimalInt "100" = some 100 := by
  simp [decimalInt]

theorem accepted_as_documented_own_signature :
    AsDocumented decimalInt (fun key message => key ++ message) [1] none "100" 100 []
      (sign (fun key message => key ++ message) [1] "100" []) 100 300 := by
  refine (accepted_as_documented_iff decimalInt _ [1] none "100" 100 [] _ 100 300
    decimalInt_hundred).mpr ?_
  exact .inr (.inl ⟨_, headerHex_sign [1] "100" [], ascii_hexdigest _⟩)

/-- A digest sent without the prefix is refused, and a prefix followed by a letter that is not
ASCII makes `verify` raise. -/
theorem documented_signature_refused :
    ¬AsDocumented decimalInt (fun key message => key ++ message) [1] none "100" 100 []
        "013130302e" 100 300 ∧
      ¬AsDocumented decimalInt (fun key message => key ++ message) [1] none "100" 100 []
        "sha256=é" 100 300 := by
  have hpayload : signedPayload "100" [] = [49, 48, 48, 46] := by
    rw [signedPayload, toUTF8_toList]
    decide
  constructor
  · rintro ⟨accepted, hverify, hiff⟩
    rw [verify_unprefixed decimalInt_hundred (by decide) (by decide)] at hverify
    obtain rfl := Except.ok.inj hverify
    rw [hpayload] at hiff
    exact absurd (hiff.mpr (by decide)) Bool.false_ne_true
  · rintro ⟨accepted, hverify, -⟩
    have hrest : headerHex "sha256=é" = some "é" := by decide
    have hascii : ¬Ascii "é" := by simp [Ascii]
    rw [verify_prefixed decimalInt_hundred (by decide) hrest,
      if_neg hascii] at hverify
    simp at hverify

section Resplit

variable {parseInt : String → Option Int} {digest : Secret → List UInt8 → List UInt8}

/-- A text `int` takes, or one of decimal digits alone. -/
def DecimalTimestamp (parseInt : String → Option Int) (text : String) : Prop :=
  (parseInt text).isSome ∨ ∀ c ∈ text.toList, c.isDigit

/-- The first full stop of the payload ends the timestamp. -/
theorem signedPayload_injective {t t' : String} {b b' : List UInt8} (ht : '.' ∉ t.toList)
    (ht' : '.' ∉ t'.toList) (h : signedPayload t b = signedPayload t' b') : t = t' ∧ b = b' := by
  have hsplit : ∀ t b, signedPayload t b = t.toUTF8.toList ++ 0x2e :: b := by
    intro t b
    have hdot : ".".toUTF8.toList = [0x2e] := by rw [toUTF8_toList]; decide
    rw [signedPayload, toUTF8_toList, String.toList_append, List.flatMap_append, ← toUTF8_toList,
      ← toUTF8_toList, hdot, List.append_assoc]
    rfl
  rw [hsplit, hsplit] at h
  obtain ⟨htext, hbody⟩ := split_injective (dot_not_mem_toUTF8 ht) (dot_not_mem_toUTF8 ht') h
  exact ⟨toUTF8_toList_injective htext, hbody⟩

theorem dot_not_mem_decimal {text : String}
    (hdot : ∀ text, '.' ∈ text.toList → parseInt text = none)
    (h : DecimalTimestamp parseInt text) : '.' ∉ text.toList := by
  intro hmem
  rcases h with hparsed | hdigits
  · rw [hdot text hmem] at hparsed
    simp at hparsed
  · exact absurd (hdigits '.' hmem) (by decide)

end Resplit

/-- A request that is accepted is accepted under one of the two secrets alone, and under no
secret that accepts it is its signature the one of another timestamp or body. -/
theorem signed_payload_not_resplit (parseInt : String → Option Int)
    (digest : Secret → List UInt8 → List UInt8) (primary : Secret) (previous : Option Secret)
    (timestamp : String) (body : List UInt8) (header : String) (now tolerance : Int)
    (hdot : ∀ text, '.' ∈ text.toList → parseInt text = none)
    (hinj : ∀ secret, Function.Injective (digest secret))
    (haccepted : verify parseInt digest primary timestamp body header now tolerance previous =
      .ok true) :
    (∃ secret, (secret = primary ∨ previous = some secret) ∧
      verify parseInt digest secret timestamp body header now tolerance none = .ok true) ∧
    ∀ secret,
      verify parseInt digest secret timestamp body header now tolerance none = .ok true →
      ∀ timestamp' body', DecimalTimestamp parseInt timestamp' →
        header = sign digest secret timestamp' body' → timestamp' = timestamp ∧ body' = body := by
  constructor
  · obtain ⟨ts, hex, hts, htol, hhex, hdigest⟩ := verify_accepts_iff.mp haccepted
    rcases hdigest with hprim | ⟨secret, hsecret, hprev⟩
    · exact ⟨primary, .inl rfl, verify_accepts_iff.mpr ⟨ts, hex, hts, htol, hhex, .inl hprim⟩⟩
    · exact ⟨secret, .inr hsecret,
        verify_accepts_iff.mpr ⟨ts, hex, hts, htol, hhex, .inl hprev⟩⟩
  · intro secret halone timestamp' body' hdecimal hsign
    obtain ⟨ts, hex, hts, -, hhex, hdigest⟩ := verify_accepts_iff.mp halone
    have hdigest : hexdigest (digest secret (signedPayload timestamp body)) = hex := by
      simpa [DigestOf] using hdigest
    have hcaptured : headerHex (sign digest secret timestamp' body') =
        some (hexdigest (digest secret (signedPayload timestamp' body'))) :=
      headerHex_sign secret timestamp' body'
    rw [← hsign, hhex, ← hdigest] at hcaptured
    have hpayload := hinj secret (hexdigest_injective (Option.some.inj hcaptured))
    obtain ⟨hstamp, hbody⟩ := signedPayload_injective
      (dot_not_mem_decimal hdot (.inl (hts ▸ rfl))) (dot_not_mem_decimal hdot hdecimal) hpayload
    exact ⟨hstamp.symm, hbody.symm⟩

theorem signed_payload_not_resplit_hundred :
    verify decimalInt (fun key message => key ++ message) [1] "100" [123, 125]
        (sign (fun key message => key ++ message) [1] "100" [123, 125]) 100 300 none = .ok true ∧
      ∀ timestamp' body', DecimalTimestamp decimalInt timestamp' →
        sign (fun key message => key ++ message) [1] "100" [123, 125] =
          sign (fun key message => key ++ message) [1] timestamp' body' →
        timestamp' = "100" ∧ body' = [123, 125] := by
  have hdot : ∀ text, '.' ∈ text.toList → decimalInt text = none := by
    intro text hmem
    rw [decimalInt, if_neg]
    rintro ⟨-, hdigits⟩
    exact absurd (hdigits '.' hmem) (by decide)
  have hinj : ∀ secret : Secret, Function.Injective fun message : List UInt8 =>
      secret ++ message := fun secret _ _ h => List.append_cancel_left h
  have haccepted : verify decimalInt (fun key message => key ++ message) [1] "100" [123, 125]
      (sign (fun key message => key ++ message) [1] "100" [123, 125]) 100 300 none =
      .ok true := verify_own_signature decimalInt_hundred (by decide) (.inl rfl)
  exact ⟨haccepted, (signed_payload_not_resplit decimalInt (fun key message => key ++ message)
    [1] none "100" [123, 125] _ 100 300 hdot hinj haccepted).2 [1] haccepted⟩

end PartnerHub.Secrets
