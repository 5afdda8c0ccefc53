import PartnerHub.Lib.System
import PartnerHub.Lib.Table
import PartnerHub.Domain.Records

/-!
# Signing secrets and their rotation

`create_partner` and `rotate_partner_signing_secret` over the committed rows. A rotation
reads the primary row without a lock; the SELECT of the previous rows flushes the
promotion first, so from then on the promoted row is locked until the rotation's
transaction ends. Everything else is written at the commit.
-/
namespace PartnerHub.Secrets

open PartnerHub.Domain PartnerHub.Lib

/-- The columns of a partner these services write. -/
structure PartnerRow where
  id : Nat
  publicId : Uuid
  slug : String
  signingSecretEncrypted : Option Secret
  deriving DecidableEq, Repr

/-- A call of `rotate_partner_signing_secret` under way: what it was called with, the new
encrypted secret, the primary row it read, and, once it read them, the previous rows it
revokes. -/
structure Rotation where
  partnerId : Nat
  actorId : String
  currentTime : Time
  encrypted : Secret
  currentPrimary : Option PartnerSigningSecret
  previous : Option (List Uuid)
  deriving DecidableEq, Repr

structure SecretStore where
  partners : List PartnerRow
  partnerSeq : Nat
  rows : List PartnerSigningSecret
  auditLogs : List AuditLog
  locked : List (Nat × Uuid)
  rotations : Nat → Option Rotation

def SecretStore.init : SecretStore where
  partners := []
  partnerSeq := 0
  rows := []
  auditLogs := []
  locked := []
  rotations := fun _ => none

inductive SecretError where
  | multipleResultsFound
  deriving DecidableEq, Repr

def hasStatus (partnerId : Nat) (status : SigningSecretStatus) (row : PartnerSigningSecret) : Bool :=
  row.partnerId = partnerId ∧ row.status = status

/-- `_fetch_primary_row`: `scalar_one_or_none` raises on a second row. -/
def fetchPrimaryRow (rows : List PartnerSigningSecret) (partnerId : Nat) :
    Except SecretError (Option PartnerSigningSecret) :=
  match rows.filter (hasStatus partnerId .primary) with
  | [] => .ok none
  | [row] => .ok (some row)
  | _ => .error .multipleResultsFound

/-- `_fetch_previous_rows`. -/
def fetchPreviousRows (rows : List PartnerSigningSecret) (partnerId : Nat) :
    List PartnerSigningSecret :=
  rows.filter (hasStatus partnerId .previous)

/-- `load_outbound_primary_secret` for the partner with this id. `decrypt` is the Fernet
decryption, `none` where it raises; only that is caught. -/
def SecretStore.loadOutboundPrimarySecret (decrypt : Secret → Option Secret) (s : SecretStore)
    (partnerId : Nat) : Except SecretError (Option Secret) := do
  match ← fetchPrimaryRow s.rows partnerId with
  | some row => return decrypt row.secretEncrypted
  | none =>
    match (s.partners.find? (·.id = partnerId)).bind (·.signingSecretEncrypted) with
    | none | some [] => return none
    | some encrypted => return decrypt encrypted

/-- The look-up raises exactly on a second PRIMARY row. -/
theorem load_returns_iff (decrypt : Secret → Option Secret) (s : SecretStore) (partnerId : Nat) :
    (∃ secret, s.loadOutboundPrimarySecret decrypt partnerId = .ok secret) ↔
      (s.rows.filter (hasStatus partnerId .primary)).length ≤ 1 := by
  unfold SecretStore.loadOutboundPrimarySecret fetchPrimaryRow
  cases s.rows.filter (hasStatus partnerId .primary) with
  | nil =>
    refine iff_of_true ?_ (Nat.zero_le 1)
    dsimp only [bind, Except.bind]
    split <;> exact ⟨_, rfl⟩
  | cons row rest =>
    cases rest with
    | nil => exact iff_of_true ⟨_, rfl⟩ le_rfl
    | cons row' rest =>
      refine iff_of_false ?_ (by simp)
      rintro ⟨secret, h⟩
      cases h

/-- `insert_primary_signing_secret`. -/
def insertPrimarySigningSecret (id : Uuid) (partnerId : Nat) (encrypted : Secret) (version : Nat)
    (now : Time) : PartnerSigningSecret where
  id := id
  partnerId := partnerId
  secretEncrypted := encrypted
  version := version
  status := .primary
  validFrom := now
  validUntil := none

/-- The promotion of the row that was read. -/
def Rotation.promote (settings : Settings) (x : Rotation) (row : PartnerSigningSecret) :
    PartnerSigningSecret :=
  if x.currentPrimary.map (·.id) = some row.id then
    { row with
      status := .previous
      validUntil := some (x.currentTime + 3600 * settings.hubSecretRotationOverlapHours) }
  else row

def revoke (previous : List Uuid) (row : PartnerSigningSecret) : PartnerSigningSecret :=
  if row.id ∈ previous then { row with status := .revoked } else row

def Rotation.nextVersion (x : Rotation) : Nat :=
  match x.currentPrimary with
  | none => 1
  | some row => row.version + 1

/-- The previous rows other than the promoted one, as the SELECT after the flushed
promotion returns them. -/
def Rotation.otherPrevious (settings : Settings) (x : Rotation) (rows : List PartnerSigningSecret) :
    List Uuid :=
  match x.currentPrimary with
  | none => []
  | some primary =>
    ((fetchPreviousRows (rows.map (x.promote settings)) x.partnerId).filter
      (·.id ≠ primary.id)).map (·.id)

/-- No other open transaction has written one of the rows. -/
def SecretStore.Unlocked (s : SecretStore) (w : Nat) (ids : List Uuid) : Prop :=
  ∀ l ∈ s.locked, l.2 ∈ ids → l.1 = w

instance (s : SecretStore) (w : Nat) (ids : List Uuid) : Decidable (s.Unlocked w ids) :=
  inferInstanceAs (Decidable (∀ l ∈ s.locked, l.2 ∈ ids → l.1 = w))

inductive SecretAction where
  | createPartner (publicId : Uuid) (slug : String) (encrypted : Secret) (secretId : Uuid)
      (now : Time)
  | readPrimary (w partnerId : Nat) (actorId : String) (now : Time) (encrypted : Secret)
  | readPrevious (w : Nat)
  | commit (w : Nat) (secretId : Uuid)
  | abort (w : Nat)
  deriving DecidableEq, Repr

/-- The rotation whose transaction can commit now: it went through its SELECTs, no row it
writes is locked by another one, and the generated id is new. -/
def SecretStore.committing (s : SecretStore) (w : Nat) (secretId : Uuid) : Option Rotation :=
  match s.rotations w with
  | none => none
  | some x =>
    match x.previous with
    | none => none
    | some previous =>
      if s.Unlocked w previous ∧ secretId ∉ s.rows.map (·.id) then some x else none

def SecretStore.endRotation (s : SecretStore) (w : Nat) : SecretStore :=
  { s with
    locked := s.locked.filter (·.1 ≠ w)
    rotations := Function.update s.rotations w none }

/-- The UPDATEs of a rotation. -/
def Rotation.written (settings : Settings) (x : Rotation) (row : PartnerSigningSecret) :
    PartnerSigningSecret :=
  revoke (x.previous.getD []) (x.promote settings row)

/-- The rows after a rotation. -/
def Rotation.rotated (settings : Settings) (x : Rotation) (secretId : Uuid)
    (rows : List PartnerSigningSecret) : List PartnerSigningSecret :=
  rows.map (x.written settings) ++
    [insertPrimarySigningSecret secretId x.partnerId x.encrypted x.nextVersion x.currentTime]

def SecretStore.commitRotation (settings : Settings) (s : SecretStore) (w : Nat) (secretId : Uuid)
    (x : Rotation) : SecretStore :=
  { s.endRotation w with
    rows := x.rotated settings secretId s.rows
    partners := Table.modify (·.id) x.partnerId
      (fun p => { p with signingSecretEncrypted := some x.encrypted }) s.partners
    auditLogs := s.auditLogs ++ ((s.partners.find? (·.id = x.partnerId)).map fun p =>
      { actorId := x.actorId, action := .signingSecretRotate, resourceId := p.publicId
        metadata := [("version", Nat.repr x.nextVersion)] }).toList }

def SecretStore.step (settings : Settings) (s : SecretStore) : SecretAction → Option SecretStore
  | .createPartner publicId slug encrypted secretId now =>
    if secretId ∈ s.rows.map (·.id) ∨ publicId ∈ s.partners.map (·.publicId) then none
    else if slug ∈ s.partners.map (·.slug) then some { s with partnerSeq := s.partnerSeq + 1 }
    else
      let id := s.partnerSeq + 1
      some { s with
        partnerSeq := id
        partners := s.partners ++ [⟨id, publicId, slug, some encrypted⟩]
        rows := s.rows ++ [insertPrimarySigningSecret secretId id encrypted 1 now] }
  | .readPrimary w partnerId actorId now encrypted =>
    if s.rotations w = none ∧ partnerId ∈ s.partners.map (·.id) then
      match fetchPrimaryRow s.rows partnerId with
      | .error _ => some s
      | .ok row => some { s with
          rotations := Function.update s.rotations w
            (some ⟨partnerId, actorId, now, encrypted, row, none⟩) }
    else none
  | .readPrevious w =>
    match s.rotations w with
    | none => none
    | some x =>
      let promoted := (x.currentPrimary.map (·.id)).toList
      if x.previous = none ∧ s.Unlocked w promoted then
        some { s with
          locked := s.locked ++ promoted.map (w, ·)
          rotations := Function.update s.rotations w
            (some { x with previous := some (x.otherPrevious settings s.rows) }) }
      else none
  | .commit w secretId =>
    (s.committing w secretId).map (s.commitRotation settings w secretId)
  | .abort w => (s.rotations w).map fun _ => s.endRotation w

end PartnerHub.Secrets
