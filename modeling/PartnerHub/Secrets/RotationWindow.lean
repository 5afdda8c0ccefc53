import PartnerHub.Secrets.InboundSignature
import PartnerHub.Secrets.Rotation

/-!
# The window of a rotation

Runs in which the rotations of one partner do not overlap, with every plaintext the hub
handed out kept beside the rows. The newest secret is primary, the one before it is
accepted until its expiry, and all older ones are revoked.
-/
namespace PartnerHub.Secrets

open PartnerHub.Domain PartnerHub.Lib PartnerHub.Lib.Slots PartnerHub.Lib.System

/-- Fernet with the configured key. A token also depends on the time and on random bytes,
which are the second argument of `encrypt`. -/
structure Fernet where
  encrypt : Secret → List UInt8 → Secret
  decrypt : Secret → Option Secret

def Fernet.Undoes (fernet : Fernet) : Prop :=
  ∀ secret nonce, fernet.decrypt (fernet.encrypt secret nonce) = some secret

/-- A secret the partner was given, and the `now` of the call. -/
structure Issued where
  secret : Secret
  time : Time
  deriving DecidableEq

/-- The store, what each rotation under way has generated, and the secrets of each partner,
newest first. -/
structure Vault where
  store : SecretStore
  generated : Nat → Secret
  issued : Nat → List Issued

def Vault.init : Vault := ⟨SecretStore.init, fun _ => [], fun _ => []⟩

inductive VaultAction where
  | createPartner (publicId : Uuid) (slug : String) (secret : Secret) (nonce : List UInt8)
      (secretId : Uuid) (now : Time)
  | readPrimary (w partnerId : Nat) (actorId : String) (now : Time) (secret : Secret)
      (nonce : List UInt8)
  | readPrevious (w : Nat)
  | commit (w : Nat) (secretId : Uuid)
  | abort (w : Nat)

def VaultAction.call (fernet : Fernet) : VaultAction → SecretAction
  | .createPartner publicId slug secret nonce secretId now =>
    .createPartner publicId slug (fernet.encrypt secret nonce) secretId now
  | .readPrimary w partnerId actorId now secret nonce =>
    .readPrimary w partnerId actorId now (fernet.encrypt secret nonce)
  | .readPrevious w => .readPrevious w
  | .commit w secretId => .commit w secretId
  | .abort w => .abort w

def Vault.generatedAfter (s : Vault) : VaultAction → Nat → Secret
  | .readPrimary w _ _ _ secret _ => Function.update s.generated w secret
  | _ => s.generated

/-- A partner that is created and a rotation that commits hand out a secret. -/
def Vault.issuedAfter (s : Vault) : VaultAction → Nat → List Issued
  | .createPartner _ slug secret _ _ now =>
    if slug ∈ s.store.partners.map (·.slug) then s.issued
    else Function.update s.issued (s.store.partnerSeq + 1) [⟨secret, now⟩]
  | .commit w _ =>
    match s.store.rotations w with
    | none => s.issued
    | some x => Function.update s.issued x.partnerId
        (⟨s.generated w, x.currentTime⟩ :: s.issued x.partnerId)
  | _ => s.issued

def Vault.step (fernet : Fernet) (settings : Settings) (s : Vault) (a : VaultAction) :
    Option Vault :=
  (s.store.step settings (a.call fernet)).map fun t =>
    ⟨t, s.generatedAfter a, s.issuedAfter a⟩

/-- No rotation of a partner starts while another one of it is under way. -/
def NonOverlapping (s : Vault) : VaultAction → Prop
  | .readPrimary _ partnerId _ _ _ _ =>
    ∀ v x, s.store.rotations v = some x → x.partnerId ≠ partnerId
  | _ => True

/-- The rows of a partner, in the order of their insertion. -/
def secretRows (rows : List PartnerSigningSecret) (partnerId : Nat) : List PartnerSigningSecret :=
  rows.filter (·.partnerId = partnerId)

/-- The previous secret at `now`: the last but one, until it expires. -/
def previousSecret (settings : Settings) (now : Time) : List Issued → Option Secret
  | latest :: replaced :: _ =>
    if now < latest.time + 3600 * settings.hubSecretRotationOverlapHours then some replaced.secret
    else none
  | _ => none

/-- What the readers of a partner's secrets get at `now`. -/
structure SeesWindow (parseInt : String → Option Int) (digest : Secret → List UInt8 → List UInt8)
    (fernet : Fernet) (settings : Settings) (s : Vault) (partnerId : Nat) (now : Time) : Prop where
  loaded : ∃ latest older, s.issued partnerId = latest :: older ∧
    s.store.loadOutboundPrimarySecret fernet.decrypt partnerId = .ok (some latest.secret) ∧
    s.store.loadInboundSigningSecrets fernet.decrypt partnerId now =
      .ok (some latest.secret, previousSecret settings now (s.issued partnerId))
  created : (secretRows s.store.rows partnerId).map
      (fun row => fernet.decrypt row.secretEncrypted) =
    (s.issued partnerId).reverse.map fun i => some i.secret
  versions : (secretRows s.store.rows partnerId).map (·.version) =
    List.range' 1 (s.issued partnerId).length
  verified : ∀ timestamp body ts clock tolerance, parseInt timestamp = some ts →
    |clock - ts| ≤ tolerance →
    NoCollisions digest ((s.issued partnerId).map (·.secret)) (signedPayload timestamp body) →
    ∀ i ∈ s.issued partnerId, ∃ primary previous,
      s.store.loadInboundSigningSecrets fernet.decrypt partnerId now =
        .ok (some primary, previous) ∧
      (verify parseInt digest primary timestamp body (sign digest i.secret timestamp body) clock
        tolerance previous = .ok true ↔ i.secret = primary ∨ previous = some i.secret)

section Written

variable {settings : Settings} {s : SecretStore} {x : Rotation} {secretId : Uuid}
  {row current : PartnerSigningSecret} {previous : List Uuid}

theorem written_secret (settings : Settings) (x : Rotation) (row : PartnerSigningSecret) :
    (x.written settings row).secretEncrypted = row.secretEncrypted := by
  unfold Rotation.written revoke Rotation.promote
  split_ifs <;> rfl

/-- The promoted row gets its expiry. -/
theorem written_current (settings : Settings) (hk : Kept s) (h : x.Fits s)
    (hc : ReadsCurrent s x current) :
    (x.written settings current).status = .previous ∧
      (x.written settings current).validUntil =
        some (x.currentTime + 3600 * settings.hubSecretRotationOverlapHours) := by
  have hkeep : current.id ∉ x.previous.getD [] := fun hrev =>
    (h.revoked hk hc.mem hrev).2 hc.status
  unfold Rotation.written revoke Rotation.promote
  rw [if_pos hc.read, if_neg hkeep]
  exact ⟨rfl, rfl⟩

/-- Every other row of the partner is revoked, or was. -/
theorem written_revoked (hk : Kept s) (h : x.Fits s) (hc : ReadsCurrent s x current)
    (hprev : x.previous = some previous) (hr : row ∈ s.rows) (hpid : row.partnerId = x.partnerId)
    (hst : row.status ≠ .primary) : (x.written settings row).status = .revoked := by
  rcases written_cases settings x row with ⟨hprim, -, -⟩ | ⟨-, hrev⟩ | ⟨-, hno, heq⟩
  · have hsame : row.id = current.id := Option.some.inj (hprim.symm.trans hc.read)
    obtain rfl := Table.eq_of_unique hk.row_ids hr hc.mem hsame
    exact absurd hc.status hst
  · exact hrev
  · rw [heq]
    cases hs : row.status with
    | primary => exact absurd hs hst
    | previous =>
      rw [hprev] at hno
      exact absurd (h.complete previous hprev current hc.mem hc.read hc.status row hr hpid hs) hno
    | revoked => rfl

theorem mem_secretRows {rows : List PartnerSigningSecret} {n : Nat} :
    row ∈ secretRows rows n ↔ row ∈ rows ∧ row.partnerId = n := by
  simp [secretRows]

theorem filter_hasStatus (rows : List PartnerSigningSecret) (n : Nat)
    (status : SigningSecretStatus) :
    rows.filter (hasStatus n status) = (secretRows rows n).filter (·.status = status) := by
  rw [secretRows, List.filter_filter]
  congr 1
  funext row
  simp [hasStatus, Bool.and_comm]

theorem secretRows_append (rows rows' : List PartnerSigningSecret) (n : Nat) :
    secretRows (rows ++ rows') n = secretRows rows n ++ secretRows rows' n :=
  List.filter_append _ _

theorem secretRows_map_written (rows : List PartnerSigningSecret) (n : Nat) :
    secretRows (rows.map (x.written settings)) n =
      (secretRows rows n).map (x.written settings) := by
  rw [secretRows, List.filter_map]
  congr 2
  funext row
  simp

theorem secretRows_rotated_self (rows : List PartnerSigningSecret) :
    secretRows (x.rotated settings secretId rows) x.partnerId =
      (secretRows rows x.partnerId).map (x.written settings) ++ [x.newRow secretId] := by
  have hnew : secretRows [x.newRow secretId] x.partnerId = [x.newRow secretId] := by
    simp [secretRows, Rotation.newRow, insertPrimarySigningSecret]
  rw [Rotation.rotated, secretRows_append, secretRows_map_written]
  exact congrArg (_ ++ ·) hnew

theorem secretRows_rotated_other (hk : Kept s) (h : x.Fits s) {n : Nat} (hn : n ≠ x.partnerId) :
    secretRows (x.rotated settings secretId s.rows) n = secretRows s.rows n := by
  have hnew : secretRows [x.newRow secretId] n = [] := by
    simp [secretRows, Rotation.newRow, insertPrimarySigningSecret, hn.symm]
  have hsame : (secretRows s.rows n).map (x.written settings) = secretRows s.rows n := by
    refine (List.map_congr_left fun row hrow => ?_).trans (List.map_id _)
    obtain ⟨hr, hpid⟩ := mem_secretRows.mp hrow
    exact written_other hk h hr (hpid ▸ hn)
  rw [Rotation.rotated, secretRows_append, secretRows_map_written, hsame]
  exact (congrArg (_ ++ ·) hnew).trans (List.append_nil _)

end Written

/-- The rows below the primary one: the first is previous until its expiry, the others are
revoked. -/
def Expiring (settings : Settings) (rotatedAt : Time) : List PartnerSigningSecret → Prop
  | [] => True
  | replaced :: older => replaced.status = .previous ∧
      replaced.validUntil = some (rotatedAt + 3600 * settings.hubSecretRotationOverlapHours) ∧
      ∀ row ∈ older, row.status = .revoked

/-- The rows of a partner, newest first, against what the partner was given. -/
structure History (settings : Settings) (decrypt : Secret → Option Secret)
    (rows : List PartnerSigningSecret) (issued : List Issued) : Prop where
  secrets : rows.map (fun row => decrypt row.secretEncrypted) = issued.map fun i => some i.secret
  versions : rows.map (·.version) = (List.range' 1 rows.length).reverse
  window : ∃ current rest latest older, rows = current :: rest ∧ issued = latest :: older ∧
    current.status = .primary ∧ Expiring settings latest.time rest

section Rows

variable {settings : Settings} {decrypt : Secret → Option Secret} {s : SecretStore}
  {rows rest : List PartnerSigningSecret} {current : PartnerSigningSecret} {issued : List Issued}
  {n : Nat}

theorem Expiring.not_primary {rotatedAt : Time} (h : Expiring settings rotatedAt rest) :
    ∀ row ∈ rest, row.status ≠ .primary := by
  intro row hrow
  cases rest with
  | nil => cases hrow
  | cons replaced older =>
    obtain ⟨hprev, -, hrev⟩ := h
    rcases List.mem_cons.mp hrow with rfl | hold
    · simp [hprev]
    · simp [hrev row hold]

/-- The SELECTs of a partner's rows, when they are as the window says. -/
theorem selects_of_window {rotatedAt : Time} (hrows : (secretRows rows n).reverse = current :: rest)
    (hst : current.status = .primary) (h : Expiring settings rotatedAt rest) :
    fetchPrimaryRow rows n = .ok (some current) ∧ fetchPreviousRows rows n = rest.take 1 := by
  have hselect : ∀ status, rows.filter (hasStatus n status) =
      ((current :: rest).filter (·.status = status)).reverse := by
    intro status
    rw [filter_hasStatus, ← hrows, List.filter_reverse, List.reverse_reverse]
  constructor
  · apply fetchPrimaryRow_of_filter
    have hnone : rest.filter (·.status = .primary) = [] := by
      simpa using h.not_primary
    rw [hselect, List.filter_cons_of_pos (by simp [hst]), hnone]
    rfl
  · rw [fetchPreviousRows, hselect, List.filter_cons_of_neg (by simp [hst])]
    cases rest with
    | nil => rfl
    | cons replaced older =>
      obtain ⟨hprev, -, hrev⟩ := h
      have hnone : older.filter (·.status = .previous) = [] := by
        rw [List.filter_eq_nil_iff]
        intro row hrow
        simp [hrev row hrow]
      rw [List.filter_cons_of_pos (by simp [hprev]), hnone]
      rfl

/-- What the two look-ups return. -/
theorem loads_of_history (h : History settings decrypt (secretRows s.rows n).reverse issued)
    (now : Time) : ∃ latest older, issued = latest :: older ∧
      s.loadOutboundPrimarySecret decrypt n = .ok (some latest.secret) ∧
      s.loadInboundSigningSecrets decrypt n now =
        .ok (some latest.secret, previousSecret settings now issued) := by
  obtain ⟨current, rest, latest, older, hrows, rfl, hst, hexp⟩ := h.window
  obtain ⟨hprimary, hprevious⟩ := selects_of_window hrows hst hexp
  have hsecrets := h.secrets
  rw [hrows, List.map_cons, List.map_cons] at hsecrets
  obtain ⟨hlatest, holder⟩ := List.cons.inj hsecrets
  refine ⟨latest, older, rfl, ?_, ?_⟩
  · rw [SecretStore.loadOutboundPrimarySecret, hprimary]
    exact congrArg Except.ok hlatest
  · rw [SecretStore.loadInboundSigningSecrets, hprimary]
    simp only [bind, Except.bind, hlatest, hprevious, pure, Except.pure]
    congr 2
    cases rest with
    | nil =>
      cases older with
      | nil => rfl
      | cons i older => cases holder
    | cons replaced rest =>
      cases older with
      | nil => cases holder
      | cons i older =>
        obtain ⟨hprev, huntil, -⟩ := hexp
        have hdec : decrypt replaced.secretEncrypted = some i.secret := (List.cons.inj holder).1
        simp only [List.take_succ_cons, List.take_zero, previousSecret]
        by_cases hlt : now < latest.time + 3600 * settings.hubSecretRotationOverlapHours
        · simp [previousIsValid, hprev, huntil, hlt, hdec]
        · simp [previousIsValid, hprev, huntil, hlt]

end Rows

section Commit

variable {settings : Settings} {decrypt : Secret → Option Secret} {s : SecretStore} {x : Rotation}
  {secretId : Uuid} {current : PartnerSigningSecret} {previous : List Uuid} {issued : List Issued}

/-- A rotation puts the new secret in front of the partner's history. -/
theorem history_commit (hk : Kept s) (h : x.Fits s) (hc : ReadsCurrent s x current)
    (hprev : x.previous = some previous) {generated : Secret}
    (hgen : decrypt x.encrypted = some generated)
    (hh : History settings decrypt (secretRows s.rows x.partnerId).reverse issued) :
    History settings decrypt
      (secretRows (x.rotated settings secretId s.rows) x.partnerId).reverse
      (⟨generated, x.currentTime⟩ :: issued) := by
  obtain ⟨top, rest, latest, older, hrows, hissued, hst, hexp⟩ := hh.window
  have hmem : ∀ row ∈ top :: rest, row ∈ s.rows ∧ row.partnerId = x.partnerId := by
    intro row hrow
    rw [← hrows, List.mem_reverse] at hrow
    exact mem_secretRows.mp hrow
  obtain ⟨hcp, hnext⟩ := h.promoted hk hc.mem hc.read
  have htop : top = current := by
    obtain ⟨hr, hpid⟩ := hmem top List.mem_cons_self
    exact hk.one_primary top hr current hc.mem (hpid.trans hcp.symm) hst hc.status
  have hafter : (secretRows (x.rotated settings secretId s.rows) x.partnerId).reverse =
      x.newRow secretId :: (top :: rest).map (x.written settings) := by
    rw [secretRows_rotated_self, List.reverse_append, List.reverse_singleton, List.singleton_append,
      ← List.map_reverse, hrows]
  have hversions := hh.versions
  rw [hrows, List.length_cons, List.range'_1_concat, List.reverse_append, List.reverse_singleton,
    List.singleton_append, List.map_cons] at hversions
  have hversion : top.version = 1 + rest.length := (List.cons.inj hversions).1
  rw [hafter]
  constructor
  · have hold := hh.secrets
    rw [hrows] at hold
    simp only [List.map_cons, List.map_map] at hold ⊢
    rw [← hold]
    simp only [Function.comp_def, written_secret]
    exact congrArg (· :: _) hgen
  · rw [List.length_cons, List.length_map, List.length_cons, List.range'_1_concat,
      List.reverse_append, List.reverse_singleton, List.singleton_append, List.map_cons]
    have hnew : (x.newRow secretId).version = 1 + (rest.length + 1) := by
      show x.nextVersion = _
      rw [← hnext, ← htop, hversion]
      omega
    have hold := hh.versions
    rw [hrows] at hold
    rw [hnew, List.map_map]
    simp only [Function.comp_def, written_version]
    exact congrArg (_ :: ·) hold
  · refine ⟨_, _, _, _, rfl, rfl, rfl, ?_⟩
    obtain ⟨hpromoted, huntil⟩ := written_current settings hk h hc
    rw [List.map_cons, htop]
    refine ⟨hpromoted, huntil, ?_⟩
    intro row hrow
    obtain ⟨old, hold, rfl⟩ := List.mem_map.mp hrow
    obtain ⟨hr, hpid⟩ := hmem old (List.mem_cons_of_mem _ hold)
    exact written_revoked hk h hc hprev hr hpid (hexp.not_primary old hold)

end Commit

section Runs

variable {fernet : Fernet} {settings : Settings} {s s' : Vault}

/-- One rotation of a partner at a time; it has read the row that is primary and its token
decrypts; and every partner's rows are as its history says. -/
structure VaultInv (fernet : Fernet) (settings : Settings) (s : Vault) : Prop where
  kept : Kept s.store
  alone : ∀ v w x y, s.store.rotations v = some x → s.store.rotations w = some y →
    x.partnerId = y.partnerId → v = w
  current : ∀ w x, s.store.rotations w = some x → ∃ row, ReadsCurrent s.store x row
  token : ∀ w x, s.store.rotations w = some x → fernet.decrypt x.encrypted = some (s.generated w)
  history : ∀ n ∈ s.store.partners.map (·.id),
    History settings fernet.decrypt (secretRows s.store.rows n).reverse (s.issued n)

theorem vaultInv_init : VaultInv fernet settings Vault.init where
  kept := kept_init
  alone := fun _ _ _ _ hx => by cases hx
  current := fun _ _ hx => by cases hx
  token := fun _ _ hx => by cases hx
  history := fun _ hn => by cases hn

/-- A rotation that is alone commits while the row it read is primary. -/
theorem commitsFresh_of_vaultInv (h : VaultInv fernet settings s) (a : VaultAction) :
    CommitsFresh s.store (a.call fernet) := by
  cases a with
  | commit w secretId =>
    intro x hx
    obtain ⟨hw, -, -⟩ := committing_cases hx
    obtain ⟨row, hc⟩ := h.current w x hw
    have hpid := ((h.kept.rotations w x hw).promoted h.kept hc.mem hc.read).1
    have hfilter := hpid ▸ h.kept.filter_primary hc.mem hc.status
    exact ⟨some row, fetchPrimaryRow_of_filter hfilter, hc.read.symm⟩
  | createPartner | readPrimary | readPrevious | abort => trivial

/-- A step of the vault is one of the store, which keeps the rows in order. -/
theorem stored_of_step {a : VaultAction} (h : VaultInv fernet settings s)
    (hs : s.step fernet settings a = some s') :
    ∃ t, s.store.step settings (a.call fernet) = some t ∧ Kept t ∧
      s' = ⟨t, s.generatedAfter a, s.issuedAfter a⟩ := by
  obtain ⟨t, ht, rfl⟩ := Option.map_eq_some_iff.mp hs
  exact ⟨t, ht, kept_step h.kept (commitsFresh_of_vaultInv h a) ht, rfl⟩

/-- The history of a new partner. -/
theorem history_created (hfernet : fernet.Undoes) {rows : List PartnerSigningSecret} {n : Nat}
    (hfresh : ∀ row ∈ rows, row.partnerId ≠ n) (secretId : Uuid) (secret : Secret)
    (nonce : List UInt8) (now : Time) :
    History settings fernet.decrypt
      (secretRows
        (rows ++ [insertPrimarySigningSecret secretId n (fernet.encrypt secret nonce) 1 now])
        n).reverse [⟨secret, now⟩] := by
  have hold : secretRows rows n = [] := by
    rw [secretRows, List.filter_eq_nil_iff]
    intro row hrow
    simpa using hfresh row hrow
  have hrows : (secretRows
      (rows ++ [insertPrimarySigningSecret secretId n (fernet.encrypt secret nonce) 1 now])
      n).reverse = [insertPrimarySigningSecret secretId n (fernet.encrypt secret nonce) 1 now] := by
    rw [secretRows_append, hold]
    simp [secretRows, insertPrimarySigningSecret]
  rw [hrows]
  refine ⟨?_, rfl, _, _, _, _, rfl, rfl, rfl, trivial⟩
  simp [insertPrimarySigningSecret, hfernet secret nonce]

/-- A step that leaves rows and partners alone. -/
theorem vaultInv_of_same (h : VaultInv fernet settings s) (hk : Kept s'.store)
    (hrows : s'.store.rows = s.store.rows) (hpartners : s'.store.partners = s.store.partners)
    (hissued : s'.issued = s.issued)
    (halone : ∀ v w x y, s'.store.rotations v = some x → s'.store.rotations w = some y →
      x.partnerId = y.partnerId → v = w)
    (hrot : ∀ w x, s'.store.rotations w = some x → (∃ row, ReadsCurrent s.store x row) ∧
      fernet.decrypt x.encrypted = some (s'.generated w)) : VaultInv fernet settings s' where
  kept := hk
  alone := halone
  current := by
    intro w x hx
    obtain ⟨row, hc⟩ := (hrot w x hx).1
    exact ⟨row, hrows ▸ hc.mem, hc.status, hc.read⟩
  token := fun w x hx => (hrot w x hx).2
  history := by
    rw [hpartners, hrows, hissued]
    exact h.history

theorem vaultInv_created (hfernet : fernet.Undoes) (h : VaultInv fernet settings s)
    {publicId secretId : Uuid} {slug : String} {secret : Secret} {nonce : List UInt8} {now : Time}
    (hslug : slug ∉ s.store.partners.map (·.slug))
    (hs : s.step fernet settings (.createPartner publicId slug secret nonce secretId now) =
      some s') : VaultInv fernet settings s' := by
  obtain ⟨t, ht, hk, rfl⟩ := stored_of_step h hs
  simp only [VaultAction.call, SecretStore.step, if_neg hslug] at ht
  split at ht
  · cases ht
  · cases ht
    have hold : ∀ row ∈ s.store.rows, row.partnerId ≠ s.store.partnerSeq + 1 := by
      intro row hr he
      obtain ⟨p, hp, hpid⟩ := h.kept.owner row hr
      have hle := h.kept.partner_seq p hp
      omega
    refine ⟨hk, h.alone, ?_, h.token, ?_⟩
    · intro w x hx
      obtain ⟨row, hc⟩ := h.current w x hx
      exact ⟨row, List.mem_append_left _ hc.mem, hc.status, hc.read⟩
    · intro n hn
      simp only [Vault.issuedAfter, if_neg hslug]
      by_cases he : n = s.store.partnerSeq + 1
      · subst he
        rw [Function.update_self]
        exact history_created hfernet hold secretId secret nonce now
      · have hmem : n ∈ s.store.partners.map (·.id) := by
          simpa [he] using hn
        have hnew : secretRows [insertPrimarySigningSecret secretId (s.store.partnerSeq + 1)
            (fernet.encrypt secret nonce) 1 now] n = [] := by
          simp [secretRows, insertPrimarySigningSecret, Ne.symm he]
        rw [Function.update_of_ne he, secretRows_append, hnew, List.append_nil]
        exact h.history n hmem

theorem vaultInv_committed (h : VaultInv fernet settings s) {w : Nat} {secretId : Uuid}
    (hs : s.step fernet settings (.commit w secretId) = some s') :
    VaultInv fernet settings s' := by
  obtain ⟨t, ht, hk, rfl⟩ := stored_of_step h hs
  obtain ⟨x, hx, rfl⟩ := Option.map_eq_some_iff.mp ht
  obtain ⟨hw, ⟨previous, hprev⟩, hid⟩ := committing_cases hx
  have hfits := h.kept.rotations w x hw
  obtain ⟨row, hc⟩ := h.current w x hw
  refine ⟨hk, ?_, ?_, ?_, ?_⟩
  · intro v v' y y' hy hy' he
    exact h.alone v v' y y' (update_none_some hy).1 (update_none_some hy').1 he
  · intro v y hy
    obtain ⟨hvy, hne⟩ := update_none_some hy
    obtain ⟨row', hc'⟩ := h.current v y hvy
    have hother : y.partnerId ≠ x.partnerId := fun he => hne (h.alone v w y x hvy hw he)
    have hpid := ((h.kept.rotations v y hvy).promoted h.kept hc'.mem hc'.read).1
    have hsame : x.written settings row' = row' := written_other h.kept hfits hc'.mem
      (hpid ▸ hother)
    exact ⟨row', mem_rotated.mpr (.inl ⟨row', hc'.mem, hsame⟩), hc'.status, hc'.read⟩
  · exact fun v y hy => h.token v y (update_none_some hy).1
  · intro n hn
    have hids : (s.store.commitRotation settings w secretId x).partners.map (·.id) =
        s.store.partners.map (·.id) := Table.map_modify _ _ _ _ _ fun _ => rfl
    have hmem : n ∈ s.store.partners.map (·.id) := hids ▸ hn
    simp only [Vault.issuedAfter, hw]
    by_cases he : n = x.partnerId
    · subst he
      rw [Function.update_self]
      exact history_commit h.kept hfits hc hprev (h.token w x hw) (h.history _ hmem)
    · rw [Function.update_of_ne he]
      show History settings fernet.decrypt
        (secretRows (x.rotated settings secretId s.store.rows) n).reverse (s.issued n)
      rw [secretRows_rotated_other h.kept hfits he]
      exact h.history n hmem

theorem vaultInv_read (hfernet : fernet.Undoes) (h : VaultInv fernet settings s)
    {w partnerId : Nat} {actorId : String} {now : Time} {secret : Secret} {nonce : List UInt8}
    (hok : NonOverlapping s (.readPrimary w partnerId actorId now secret nonce))
    (hs : s.step fernet settings (.readPrimary w partnerId actorId now secret nonce) = some s') :
    VaultInv fernet settings s' := by
  obtain ⟨t, ht, hk, rfl⟩ := stored_of_step h hs
  simp only [VaultAction.call, SecretStore.step] at ht
  split at ht
  · rename_i hfree
    have hgen : ∀ v x, s.store.rotations v = some x →
        Function.update s.generated w secret v = s.generated v := by
      intro v x hx
      refine Function.update_of_ne ?_ _ _
      rintro rfl
      rw [hfree.1] at hx
      cases hx
    split at ht
    · cases ht
      refine vaultInv_of_same h h.kept rfl rfl rfl h.alone fun v x hx => ⟨h.current v x hx, ?_⟩
      exact (h.token v x hx).trans (congrArg some (hgen v x hx).symm)
    · rename_i read hread
      cases ht
      obtain ⟨p, hp, hpid⟩ := List.mem_map.mp hfree.2
      obtain ⟨row, hr, hrp, hst, -⟩ := h.kept.primary p hp
      have hone := fetchPrimaryRow_of_filter ((hrp.trans hpid) ▸ h.kept.filter_primary hr hst)
      obtain rfl := Except.ok.inj (hone.symm.trans hread)
      refine vaultInv_of_same h hk rfl rfl rfl ?_ ?_
      · intro v v' y y' hy hy' he
        rcases update_some_cases hy with ⟨rfl, hnew⟩ | ⟨-, hold⟩
        · obtain rfl := Option.some.inj hnew
          rcases update_some_cases hy' with ⟨rfl, -⟩ | ⟨-, hold'⟩
          · rfl
          · exact absurd he.symm (hok v' y' hold')
        · rcases update_some_cases hy' with ⟨rfl, hnew'⟩ | ⟨-, hold'⟩
          · obtain rfl := Option.some.inj hnew'
            exact absurd he (hok v y hold)
          · exact h.alone v v' y y' hold hold' he
      · intro v y hy
        rcases update_some_cases hy with ⟨rfl, hnew⟩ | ⟨-, hold⟩
        · obtain rfl := Option.some.inj hnew
          refine ⟨⟨row, hr, hst, rfl⟩, ?_⟩
          rw [hfernet secret nonce]
          simp [Vault.generatedAfter]
        · refine ⟨h.current v y hold, ?_⟩
          exact (h.token v y hold).trans (congrArg some (hgen v y hold).symm)
  · cases ht

theorem vaultInv_step (hfernet : fernet.Undoes) {a : VaultAction} (h : VaultInv fernet settings s)
    (hok : NonOverlapping s a) (hs : s.step fernet settings a = some s') :
    VaultInv fernet settings s' := by
  cases a with
  | createPartner publicId slug secret nonce secretId now =>
    by_cases hslug : slug ∈ s.store.partners.map (·.slug)
    · obtain ⟨t, ht, rfl⟩ := Option.map_eq_some_iff.mp hs
      have hk : Kept t := kept_step h.kept (commitsFresh_of_vaultInv h _) ht
      simp only [VaultAction.call, SecretStore.step, if_pos hslug] at ht
      split at ht
      · cases ht
      · cases ht
        exact vaultInv_of_same h hk rfl rfl (by simp only [Vault.issuedAfter, if_pos hslug])
          h.alone fun v x hx => ⟨h.current v x hx, h.token v x hx⟩
    · exact vaultInv_created hfernet h hslug hs
  | readPrimary w partnerId actorId now secret nonce => exact vaultInv_read hfernet h hok hs
  | readPrevious w =>
    obtain ⟨t, ht, hk, rfl⟩ := stored_of_step h hs
    simp only [VaultAction.call, SecretStore.step] at ht
    split at ht
    · cases ht
    · rename_i x hx
      split at ht
      · cases ht
        have hold : ∀ v y, Function.update s.store.rotations w
            (some { x with previous := some (x.otherPrevious settings s.store.rows) }) v = some y →
            ∃ y', s.store.rotations v = some y' ∧ y'.partnerId = y.partnerId ∧
              y'.currentPrimary = y.currentPrimary ∧ y'.encrypted = y.encrypted := by
          intro v y hy
          rcases update_some_cases hy with ⟨rfl, hnew⟩ | ⟨-, hsame⟩
          · obtain rfl := Option.some.inj hnew
            exact ⟨x, hx, rfl, rfl, rfl⟩
          · exact ⟨y, hsame, rfl, rfl, rfl⟩
        refine vaultInv_of_same h hk rfl rfl rfl ?_ ?_
        · intro v v' y y' hy hy' he
          obtain ⟨z, hz, hzp, -⟩ := hold v y hy
          obtain ⟨z', hz', hzp', -⟩ := hold v' y' hy'
          exact h.alone v v' z z' hz hz' (hzp.trans (he.trans hzp'.symm))
        · intro v y hy
          obtain ⟨z, hz, -, hzc, hze⟩ := hold v y hy
          obtain ⟨row, hc⟩ := h.current v z hz
          exact ⟨⟨row, hc.mem, hc.status, hzc ▸ hc.read⟩, hze ▸ h.token v z hz⟩
      · cases ht
  | commit w secretId => exact vaultInv_committed h hs
  | abort w =>
    obtain ⟨t, ht, hk, rfl⟩ := stored_of_step h hs
    obtain ⟨x, -, rfl⟩ := Option.map_eq_some_iff.mp ht
    refine vaultInv_of_same h hk rfl rfl rfl ?_ ?_
    · intro v v' y y' hy hy' he
      exact h.alone v v' y y' (update_none_some hy).1 (update_none_some hy').1 he
    · intro v y hy
      have hold := (update_none_some hy).1
      exact ⟨h.current v y hold, h.token v y hold⟩

/-- In every run in which the rotations of a partner do not overlap, the newest secret is
loaded as primary, the one before it as previous for the overlap and not after it, versions
count up from 1, and of all secrets the partner ever had exactly the loaded ones sign
requests that are accepted. -/
theorem rotation_window (parseInt : String → Option Int)
    (digest : Secret → List UInt8 → List UInt8) (fernet : Fernet) (settings : Settings)
    (as : List VaultAction) (hfernet : fernet.Undoes)
    (hok : Along (Vault.step fernet settings) NonOverlapping Vault.init as) {s : Vault}
    (hrun : exec (Vault.step fernet settings) Vault.init as = some s) {p : PartnerRow}
    (hp : p ∈ s.store.partners) (now : Time) :
    SeesWindow parseInt digest fernet settings s p.id now := by
  have hinv : VaultInv fernet settings s := exec_invariant (VaultInv fernet settings)
    (fun _ _ _ h hok hs => vaultInv_step hfernet h hok hs) vaultInv_init hok hrun
  have hh := hinv.history p.id (List.mem_map_of_mem hp)
  obtain ⟨latest, older, hissued, hout, hin⟩ := loads_of_history hh now
  have hlen : (secretRows s.store.rows p.id).length = (s.issued p.id).length := by
    simpa using congrArg List.length hh.secrets
  refine ⟨⟨latest, older, hissued, hout, hin⟩, ?_, ?_, ?_⟩
  · have hsecrets := congrArg List.reverse hh.secrets
    rwa [← List.map_reverse, ← List.map_reverse, List.reverse_reverse] at hsecrets
  · have hversions := congrArg List.reverse hh.versions
    rwa [← List.map_reverse, List.reverse_reverse, List.reverse_reverse, List.length_reverse,
      hlen] at hversions
  · intro timestamp body ts clock tolerance hts htol hno i hi
    refine ⟨_, _, hin, verify_signed_iff hts htol hno (List.mem_map_of_mem hi) ?_ ?_⟩
    · rw [hissued]
      exact List.mem_map_of_mem List.mem_cons_self
    · intro q hq
      rw [hissued] at hq ⊢
      cases older with
      | nil => cases hq
      | cons replaced older =>
        simp only [previousSecret] at hq
        split at hq
        · obtain rfl := Option.some.inj hq
          exact List.mem_map_of_mem (List.mem_cons_of_mem _ List.mem_cons_self)
        · cases hq

end Runs

/-- Tokens that are the version byte of Fernet and the text. -/
def plainFernet : Fernet where
  encrypt := fun secret _ => 128 :: secret
  decrypt := fun
    | 128 :: secret => some secret
    | _ => none

/-- The partner is created and its secret rotated twice, an hour apart. -/
def twoRotations : List VaultAction :=
  [.createPartner 1 "acme" [1] [] 10 0,
    .readPrimary 0 1 "admin" 3600 [2] [], .readPrevious 0, .commit 0 11,
    .readPrimary 0 1 "admin" 7200 [3] [], .readPrevious 0, .commit 0 12]

theorem twoRotations_apart :
    Along (Vault.step plainFernet {}) NonOverlapping Vault.init twoRotations := by
  refine .cons trivial rfl (.cons ?_ rfl (.cons trivial rfl (.cons trivial rfl
    (.cons ?_ rfl (.cons trivial rfl (.cons trivial rfl trivial))))))
  · intro v x hx
    cases hx
  · intro v x hx
    obtain ⟨hx, hv⟩ := update_none_some hx
    rcases update_some_cases hx with ⟨he, -⟩ | ⟨-, hx⟩
    · exact absurd he hv
    · rcases update_some_cases hx with ⟨he, -⟩ | ⟨-, hx⟩
      · exact absurd he hv
      · cases hx

theorem rotation_window_acme :
    ∃ s, exec (Vault.step plainFernet {}) Vault.init twoRotations = some s ∧
      ∃ p ∈ s.store.partners, SeesWindow String.toInt? (fun key message => key ++ message)
        plainFernet {} s p.id 7300 := by
  have hfernet : plainFernet.Undoes := fun _ _ => rfl
  refine ⟨_, rfl, _, List.mem_cons_self, ?_⟩
  exact rotation_window _ _ plainFernet {} twoRotations hfernet twoRotations_apart rfl
    List.mem_cons_self 7300

end PartnerHub.Secrets
