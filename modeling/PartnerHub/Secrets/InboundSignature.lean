import PartnerHub.Domain.Wire
import PartnerHub.Secrets.SigningSecrets

/-!
# Verifying an inbound signature

`verify` of `hmac_service.py` and the secrets `load_inbound_signing_secrets` gives it: the
primary one and the first previous one that has not expired and can be decrypted.
-/
namespace PartnerHub.Secrets

open PartnerHub.Domain

def signaturePrefix : String := "sha256="

/-- Why `verify` raises: `int` refuses the timestamp, or `compare_digest` a text that is not
ASCII. -/
inductive VerifyError where
  | valueError
  | typeError
  deriving DecidableEq, Repr

/-- `_header_hex`. -/
def headerHex (header : String) : Option String :=
  if signaturePrefix.toList <+: header.toList then
    some (String.ofList (header.toList.drop signaturePrefix.toList.length))
  else none

/-- `_matches_secret`. -/
def matchesSecret (digest : Secret → List UInt8 → List UInt8) (secret : Secret)
    (payload : List UInt8) (hex : String) : Except VerifyError Bool :=
  if Ascii hex then .ok (decide (hexdigest (digest secret payload) = hex)) else .error .typeError

/-- `verify`; `parseInt` is `int`, `none` where it raises. -/
def verify (parseInt : String → Option Int) (digest : Secret → List UInt8 → List UInt8)
    (secret : Secret) (timestamp : String) (body : List UInt8) (header : String)
    (now tolerance : Int) (previousSecret : Option Secret) : Except VerifyError Bool :=
  match parseInt timestamp with
  | none => .error .valueError
  | some ts =>
    if tolerance < |now - ts| then .ok false
    else
      match headerHex header with
      | none => .ok false
      | some hex => do
        if ← matchesSecret digest secret (signedPayload timestamp body) hex then return true
        match previousSecret with
        | none => return false
        | some previous => matchesSecret digest previous (signedPayload timestamp body) hex

/-- `_previous_is_valid`. -/
def previousIsValid (row : PartnerSigningSecret) (now : Time) : Bool :=
  row.status = .previous ∧ ∀ validUntil ∈ row.validUntil, now < validUntil

/-- `load_inbound_signing_secrets` for the partner with this id. -/
def SecretStore.loadInboundSigningSecrets (decrypt : Secret → Option Secret) (s : SecretStore)
    (partnerId : Nat) (now : Time) : Except SecretError (Option Secret × Option Secret) := do
  match ← fetchPrimaryRow s.rows partnerId with
  | none =>
    match (s.partners.find? (·.id = partnerId)).bind (·.signingSecretEncrypted) with
    | none | some [] => return (none, none)
    | some encrypted => return (decrypt encrypted, none)
  | some primaryRow =>
    match decrypt primaryRow.secretEncrypted with
    | none => return (none, none)
    | some primary =>
      let previous := (fetchPreviousRows s.rows partnerId).findSome? fun row =>
        if previousIsValid row now then decrypt row.secretEncrypted else none
      return (some primary, previous)

section Signed

variable {parseInt : String → Option Int} {digest : Secret → List UInt8 → List UInt8}

/-- No two of these secrets give the message one digest. -/
def NoCollisions (digest : Secret → List UInt8 → List UInt8) (secrets : List Secret)
    (message : List UInt8) : Prop :=
  ∀ k ∈ secrets, ∀ k' ∈ secrets, digest k message = digest k' message → k = k'

/-- The digits of the bytes. -/
def nibbles (bytes : List UInt8) : List Nat := bytes.flatMap fun b => [b.toNat / 16, b.toNat % 16]

theorem nibbles_injective {a b : List UInt8} (h : nibbles a = nibbles b) : a = b := by
  induction a generalizing b with
  | nil =>
    cases b with
    | nil => rfl
    | cons y b => simp [nibbles] at h
  | cons x a ih =>
    cases b with
    | nil => simp [nibbles] at h
    | cons y b =>
      have hcons : x.toNat / 16 = y.toNat / 16 ∧ x.toNat % 16 = y.toNat % 16 ∧
          nibbles a = nibbles b := by simpa [nibbles] using h
      obtain ⟨hhigh, hlow, hrest⟩ := hcons
      have hbyte : x = y := UInt8.toNat_inj.mp (by omega)
      rw [hbyte, ih hrest]

/-- `hexdigest` loses nothing. -/
theorem hexdigest_injective {a b : List UInt8} (h : hexdigest a = hexdigest b) : a = b := by
  have hdigits : ∀ bytes, (hexdigest bytes).toList.mapM hexValue = some (nibbles bytes) := by
    intro bytes
    have hmap : (hexdigest bytes).toList = (nibbles bytes).map Nat.digitChar := by
      simp [hexdigest, nibbles, List.map_flatMap]
    rw [hmap]
    apply mapM_hexValue
    intro d hd
    obtain ⟨b, -, hb⟩ := List.mem_flatMap.mp hd
    have hlt := b.toNat_lt
    simp only [List.mem_cons, List.not_mem_nil, or_false] at hb
    omega
  apply nibbles_injective
  exact Option.some.inj ((hdigits a).symm.trans (h ▸ hdigits b))

theorem headerHex_sign (secret : Secret) (timestamp : String) (body : List UInt8) :
    headerHex (sign digest secret timestamp body) =
      some (hexdigest (digest secret (signedPayload timestamp body))) := by
  have hlist : (sign digest secret timestamp body).toList = signaturePrefix.toList ++
      (hexdigest (digest secret (signedPayload timestamp body))).toList := String.toList_append
  rw [headerHex, hlist, if_pos (List.prefix_append _ _), List.drop_left, String.ofList_toList]

theorem matches_sign (secret k : Secret) (payload : List UInt8) :
    matchesSecret digest secret payload (hexdigest (digest k payload)) =
      .ok (decide (digest secret payload = digest k payload)) := by
  have hiff : hexdigest (digest secret payload) = hexdigest (digest k payload) ↔
      digest secret payload = digest k payload := ⟨hexdigest_injective, congrArg hexdigest⟩
  rw [matchesSecret, if_pos (ascii_hexdigest _), decide_eq_decide.mpr hiff]

/-- A signed request in time is accepted exactly under one of the two secrets it is verified
with. -/
theorem verify_signed_iff {primary k : Secret} {previous : Option Secret} {timestamp : String}
    {body : List UInt8} {ts now tolerance : Int} {secrets : List Secret}
    (hts : parseInt timestamp = some ts) (htol : |now - ts| ≤ tolerance)
    (hno : NoCollisions digest secrets (signedPayload timestamp body))
    (hk : k ∈ secrets) (hp : primary ∈ secrets) (hq : ∀ q ∈ previous, q ∈ secrets) :
    verify parseInt digest primary timestamp body (sign digest k timestamp body) now tolerance
      previous = .ok true ↔ k = primary ∨ previous = some k := by
  have hsame : ∀ q ∈ secrets, (digest q (signedPayload timestamp body) =
      digest k (signedPayload timestamp body) ↔ q = k) :=
    fun q hmem => ⟨hno q hmem k hk, fun he => he ▸ rfl⟩
  simp only [verify, hts, if_neg (not_lt.mpr htol), headerHex_sign, matches_sign,
    hsame primary hp]
  cases hprim : decide (primary = k) with
  | true => simp [bind, Except.bind, pure, Except.pure, (of_decide_eq_true hprim).symm]
  | false =>
    have hne : k ≠ primary := fun he => (of_decide_eq_false hprim) he.symm
    cases previous with
    | none => simp [bind, Except.bind, pure, Except.pure, hne]
    | some q =>
      have hqk := hsame q (hq q rfl)
      simp [bind, Except.bind, hne, hqk]

end Signed

end PartnerHub.Secrets
