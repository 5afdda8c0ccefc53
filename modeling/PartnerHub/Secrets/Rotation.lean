import PartnerHub.Lib.Slots
import PartnerHub.Secrets.SigningSecrets

/-!
# One primary signing secret

Rotations of one partner may overlap. The rows stay in order exactly as long as every
rotation commits while the primary row is still the one it read.
-/
namespace PartnerHub.Secrets

open PartnerHub.Domain PartnerHub.Lib PartnerHub.Lib.Slots PartnerHub.Lib.System

/-- What the readers of a partner's secrets rely on. -/
structure OneSecret (rows : List PartnerSigningSecret) (p : PartnerRow) : Prop where
  primary : ∃ row, rows.filter (hasStatus p.id .primary) = [row] ∧
    fetchPrimaryRow rows p.id = .ok (some row) ∧
    p.signingSecretEncrypted = some row.secretEncrypted
  previous : (fetchPreviousRows rows p.id).length ≤ 1
  versions : ((rows.filter (·.partnerId = p.id)).map (·.version)).Nodup

def SecretsInOrder (s : SecretStore) : Prop := ∀ p ∈ s.partners, OneSecret s.rows p

/-- A rotation that commits would read the same primary row again. -/
def CommitsFresh (s : SecretStore) : SecretAction → Prop
  | .commit w secretId => ∀ x, s.committing w secretId = some x →
      ∃ row, fetchPrimaryRow s.rows x.partnerId = .ok row ∧
        row.map (·.id) = x.currentPrimary.map (·.id)
  | _ => True

/-- A rotation under way: the row it read exists, and what it is going to revoke are
rows of its partner that are not primary. While the row it read is primary, it is
going to revoke every previous row. -/
structure Rotation.Fits (s : SecretStore) (x : Rotation) : Prop where
  partner : ∃ p ∈ s.partners, p.id = x.partnerId
  read : ∃ primary, x.currentPrimary = some primary ∧ ∃ row ∈ s.rows, row.id = primary.id ∧
    row.partnerId = x.partnerId ∧ row.version = primary.version
  revokes : ∀ previous, x.previous = some previous → ∀ i ∈ previous,
    x.currentPrimary.map (·.id) ≠ some i ∧
      ∃ row ∈ s.rows, row.id = i ∧ row.partnerId = x.partnerId ∧ row.status ≠ .primary
  complete : ∀ previous, x.previous = some previous → ∀ current ∈ s.rows,
    x.currentPrimary.map (·.id) = some current.id → current.status = .primary →
    ∀ row ∈ s.rows, row.partnerId = x.partnerId → row.status = .previous → row.id ∈ previous

structure Kept (s : SecretStore) : Prop where
  row_ids : (s.rows.map (·.id)).Nodup
  partner_ids : (s.partners.map (·.id)).Nodup
  partner_seq : ∀ p ∈ s.partners, p.id ≤ s.partnerSeq
  owner : ∀ row ∈ s.rows, ∃ p ∈ s.partners, p.id = row.partnerId
  primary : ∀ p ∈ s.partners, ∃ row ∈ s.rows, row.partnerId = p.id ∧ row.status = .primary ∧
    p.signingSecretEncrypted = some row.secretEncrypted
  one_primary : ∀ a ∈ s.rows, ∀ b ∈ s.rows, a.partnerId = b.partnerId → a.status = .primary →
    b.status = .primary → a = b
  one_previous : ∀ a ∈ s.rows, ∀ b ∈ s.rows, a.partnerId = b.partnerId → a.status = .previous →
    b.status = .previous → a = b
  newest : ∀ a ∈ s.rows, ∀ b ∈ s.rows, a.partnerId = b.partnerId → b.status = .primary →
    a.version ≤ b.version
  versions : ∀ a ∈ s.rows, ∀ b ∈ s.rows, a.partnerId = b.partnerId → a.version = b.version → a = b
  rotations : ∀ w x, s.rotations w = some x → x.Fits s

theorem hasStatus_iff {partnerId : Nat} {status : SigningSecretStatus}
    {row : PartnerSigningSecret} :
    hasStatus partnerId status row = true ↔ row.partnerId = partnerId ∧ row.status = status := by
  simp [hasStatus]

theorem fetchPrimaryRow_of_filter {rows : List PartnerSigningSecret} {partnerId : Nat}
    {row : PartnerSigningSecret} (h : rows.filter (hasStatus partnerId .primary) = [row]) :
    fetchPrimaryRow rows partnerId = .ok (some row) := by
  rw [fetchPrimaryRow, h]

theorem Kept.filter_primary {s : SecretStore} (h : Kept s) {row : PartnerSigningSecret}
    (hr : row ∈ s.rows) (hp : row.status = .primary) :
    s.rows.filter (hasStatus row.partnerId .primary) = [row] := by
  refine Table.filter_eq_singleton (List.Nodup.of_map _ h.row_ids) hr
    (hasStatus_iff.mpr ⟨rfl, hp⟩) ?_
  intro x hx hxp
  obtain ⟨hpid, hst⟩ := hasStatus_iff.mp hxp
  exact h.one_primary x hx row hr hpid hst hp

theorem Kept.inOrder {s : SecretStore} (h : Kept s) : SecretsInOrder s := by
  have hnd : s.rows.Nodup := List.Nodup.of_map _ h.row_ids
  intro p hp
  obtain ⟨row, hr, hpid, hst, hsec⟩ := h.primary p hp
  have hf := hpid ▸ h.filter_primary hr hst
  refine ⟨⟨row, hf, fetchPrimaryRow_of_filter hf, hsec⟩, ?_, ?_⟩
  · refine Table.length_filter_le_one hnd ?_
    intro a ha b hb hpa hpb
    obtain ⟨haid, hast⟩ := hasStatus_iff.mp hpa
    obtain ⟨hbid, hbst⟩ := hasStatus_iff.mp hpb
    exact h.one_previous a ha b hb (haid.trans hbid.symm) hast hbst
  · refine List.Nodup.map_on ?_ (hnd.filter _)
    intro a ha b hb hv
    obtain ⟨ha, haid⟩ := List.mem_filter.mp ha
    obtain ⟨hb, hbid⟩ := List.mem_filter.mp hb
    exact h.versions a ha b hb ((of_decide_eq_true haid).trans (of_decide_eq_true hbid).symm) hv

theorem kept_init : Kept SecretStore.init where
  row_ids := List.nodup_nil
  partner_ids := List.nodup_nil
  partner_seq := fun _ hp => absurd hp List.not_mem_nil
  owner := fun _ hr => absurd hr List.not_mem_nil
  primary := fun _ hp => absurd hp List.not_mem_nil
  one_primary := fun _ ha => absurd ha List.not_mem_nil
  one_previous := fun _ ha => absurd ha List.not_mem_nil
  newest := fun _ ha => absurd ha List.not_mem_nil
  versions := fun _ ha => absurd ha List.not_mem_nil
  rotations := by
    intro w x hx
    cases hx

section Written

variable (settings : Settings) (x : Rotation) (row : PartnerSigningSecret)

@[simp] theorem written_id : (x.written settings row).id = row.id := by
  unfold Rotation.written revoke Rotation.promote
  split_ifs <;> rfl

@[simp] theorem written_partnerId : (x.written settings row).partnerId = row.partnerId := by
  unfold Rotation.written revoke Rotation.promote
  split_ifs <;> rfl

@[simp] theorem written_version : (x.written settings row).version = row.version := by
  unfold Rotation.written revoke Rotation.promote
  split_ifs <;> rfl

/-- A row is promoted, revoked, or left alone. -/
theorem written_cases :
    (x.currentPrimary.map (·.id) = some row.id ∧ row.id ∉ x.previous.getD [] ∧
      (x.written settings row).status = .previous) ∨
    (row.id ∈ x.previous.getD [] ∧ (x.written settings row).status = .revoked) ∨
    (x.currentPrimary.map (·.id) ≠ some row.id ∧ row.id ∉ x.previous.getD [] ∧
      x.written settings row = row) := by
  have hid : (x.promote settings row).id = row.id := by
    unfold Rotation.promote
    split_ifs <;> rfl
  unfold Rotation.written revoke
  rw [hid]
  by_cases hrev : row.id ∈ x.previous.getD []
  · rw [if_pos hrev]
    exact .inr (.inl ⟨hrev, rfl⟩)
  · rw [if_neg hrev]
    unfold Rotation.promote
    by_cases hprim : x.currentPrimary.map (·.id) = some row.id
    · rw [if_pos hprim]
      exact .inl ⟨hprim, hrev, rfl⟩
    · rw [if_neg hprim]
      exact .inr (.inr ⟨hprim, hrev, rfl⟩)

variable {settings x row}

/-- No row becomes primary by an UPDATE. -/
theorem primary_of_written (h : (x.written settings row).status = .primary) :
    row.status = .primary ∧ x.written settings row = row := by
  rcases written_cases settings x row with ⟨-, -, hst⟩ | ⟨-, hst⟩ | ⟨-, -, heq⟩
  · rw [hst] at h
    cases h
  · rw [hst] at h
    cases h
  · exact ⟨heq ▸ h, heq⟩

end Written

section Commit

variable {settings : Settings} {s : SecretStore} {x : Rotation} {secretId : Uuid}

/-- The inserted row. -/
def Rotation.newRow (x : Rotation) (secretId : Uuid) : PartnerSigningSecret :=
  insertPrimarySigningSecret secretId x.partnerId x.encrypted x.nextVersion x.currentTime

theorem mem_rotated {rows : List PartnerSigningSecret} {row : PartnerSigningSecret} :
    row ∈ x.rotated settings secretId rows ↔
      (∃ old ∈ rows, x.written settings old = row) ∨ row = x.newRow secretId := by
  rw [Rotation.rotated, List.mem_append, List.mem_map, List.mem_singleton]
  rfl

theorem Rotation.Fits.revoked {row : PartnerSigningSecret} (hk : Kept s) (h : x.Fits s)
    (hr : row ∈ s.rows) (hrev : row.id ∈ x.previous.getD []) :
    row.partnerId = x.partnerId ∧ row.status ≠ .primary := by
  cases hprev : x.previous with
  | none =>
    rw [hprev] at hrev
    cases hrev
  | some previous =>
    rw [hprev] at hrev
    obtain ⟨-, row', hr', hid, hrest⟩ := h.revokes previous hprev row.id hrev
    obtain rfl := Table.eq_of_unique hk.row_ids hr' hr hid
    exact hrest

theorem Rotation.Fits.promoted {row : PartnerSigningSecret} (hk : Kept s) (h : x.Fits s)
    (hr : row ∈ s.rows) (hprim : x.currentPrimary.map (·.id) = some row.id) :
    row.partnerId = x.partnerId ∧ row.version + 1 = x.nextVersion := by
  obtain ⟨primary, hp, row', hr', hid, hpid, hv⟩ := h.read
  rw [hp] at hprim
  have he : row'.id = row.id := hid.trans (Option.some.inj hprim)
  obtain rfl := Table.eq_of_unique hk.row_ids hr' hr he
  refine ⟨hpid, ?_⟩
  rw [Rotation.nextVersion, hp, hv]

/-- A rotation writes only rows of its partner. -/
theorem written_other {row : PartnerSigningSecret} (hk : Kept s) (h : x.Fits s)
    (hr : row ∈ s.rows) (hne : row.partnerId ≠ x.partnerId) : x.written settings row = row := by
  rcases written_cases settings x row with ⟨hprim, -, -⟩ | ⟨hrev, -⟩ | ⟨-, -, heq⟩
  · exact absurd (h.promoted hk hr hprim).1 hne
  · exact absurd (h.revoked hk hr hrev).1 hne
  · exact heq

/-- A primary row survives a rotation that did not read it. -/
theorem written_primary {row : PartnerSigningSecret} (hk : Kept s) (h : x.Fits s)
    (hr : row ∈ s.rows) (hst : row.status = .primary)
    (hne : x.currentPrimary.map (·.id) ≠ some row.id) : x.written settings row = row := by
  rcases written_cases settings x row with ⟨hprim, -, -⟩ | ⟨hrev, -⟩ | ⟨-, -, heq⟩
  · exact absurd hprim hne
  · exact absurd hst (h.revoked hk hr hrev).2
  · exact heq

/-- The rotation read the row that is primary now. -/
structure ReadsCurrent (s : SecretStore) (x : Rotation) (current : PartnerSigningSecret) : Prop where
  mem : current ∈ s.rows
  status : current.status = .primary
  read : x.currentPrimary.map (·.id) = some current.id

variable {current : PartnerSigningSecret}

/-- After a fresh rotation only the inserted row of the partner is primary. -/
theorem written_not_primary {row : PartnerSigningSecret} (hk : Kept s) (h : x.Fits s)
    (hc : ReadsCurrent s x current) (hr : row ∈ s.rows) (hpid : row.partnerId = x.partnerId) :
    (x.written settings row).status ≠ .primary := by
  intro hst
  obtain ⟨hprim, heq⟩ := primary_of_written hst
  have hcp := (h.promoted hk hc.mem hc.read).1
  obtain rfl := hk.one_primary row hr current hc.mem (hpid.trans hcp.symm) hprim hc.status
  rcases written_cases settings x row with ⟨-, -, hp⟩ | ⟨-, hp⟩ | ⟨hne, -, -⟩
  · rw [hp] at hst
    cases hst
  · rw [hp] at hst
    cases hst
  · exact hne hc.read

/-- After a fresh rotation only the promoted row of the partner is previous. -/
theorem eq_current_of_written {row : PartnerSigningSecret} (hk : Kept s) (h : x.Fits s)
    (hc : ReadsCurrent s x current) {previous : List Uuid} (hprev : x.previous = some previous)
    (hr : row ∈ s.rows) (hpid : row.partnerId = x.partnerId)
    (hst : (x.written settings row).status = .previous) : row = current := by
  rcases written_cases settings x row with ⟨hprim, -, -⟩ | ⟨-, hp⟩ | ⟨-, hno, heq⟩
  · exact Table.eq_of_unique hk.row_ids hr hc.mem (Option.some.inj (hprim.symm.trans hc.read))
  · rw [hp] at hst
    cases hst
  · rw [heq] at hst
    rw [hprev] at hno
    exact absurd (h.complete previous hprev current hc.mem hc.read hc.status row hr hpid hst) hno

theorem version_lt_next {row : PartnerSigningSecret} (hk : Kept s) (h : x.Fits s)
    (hc : ReadsCurrent s x current) (hr : row ∈ s.rows) (hpid : row.partnerId = x.partnerId) :
    row.version < x.nextVersion := by
  obtain ⟨hcp, hv⟩ := h.promoted hk hc.mem hc.read
  have hle := hk.newest row hr current hc.mem (hpid.trans hcp.symm) hc.status
  omega

/-- Another rotation under way after a fresh one committed. -/
theorem fits_committed {w : Nat} {y : Rotation} (hk : Kept s) (h : x.Fits s)
    (hc : ReadsCurrent s x current) (hid : secretId ∉ s.rows.map (·.id)) (hy : y.Fits s) :
    y.Fits (s.commitRotation settings w secretId x) := by
  have hsame : ∀ {old : PartnerSigningSecret}, old ∈ s.rows →
      x.written settings old ∈ x.rotated settings secretId s.rows :=
    fun hold => mem_rotated.mpr (.inl ⟨_, hold, rfl⟩)
  refine ⟨?_, ?_, ?_, ?_⟩
  · obtain ⟨p, hp, hpid⟩ := hy.partner
    by_cases he : p.id = x.partnerId
    · exact ⟨_, Table.mem_modify_of_eq hp he, hpid⟩
    · exact ⟨p, Table.mem_modify_of_ne hp he, hpid⟩
  · obtain ⟨primary, hp, row, hr, hrid, hpid, hv⟩ := hy.read
    exact ⟨primary, hp, _, hsame hr, (written_id settings x row).trans hrid,
      (written_partnerId settings x row).trans hpid, (written_version settings x row).trans hv⟩
  · intro previous hprev i hi
    obtain ⟨hne, row, hr, hrid, hpid, hst⟩ := hy.revokes previous hprev i hi
    exact ⟨hne, _, hsame hr, (written_id settings x row).trans hrid,
      (written_partnerId settings x row).trans hpid, fun hp => hst (primary_of_written hp).1⟩
  · intro previous hprev cur hcur hread hst row hrow hpid hstatus
    rcases mem_rotated.mp hcur with ⟨old, hold, rfl⟩ | rfl
    · obtain ⟨hprim, heq⟩ := primary_of_written hst
      rw [heq] at hread
      have hother : old.partnerId ≠ x.partnerId :=
        fun he => written_not_primary hk h hc hold he hst
      have hyp := (hy.promoted hk hold hread).1
      rcases mem_rotated.mp hrow with ⟨old', hold', rfl⟩ | rfl
      · rw [written_partnerId] at hpid
        have hne : old'.partnerId ≠ x.partnerId := fun he => hother (hyp.trans (hpid.symm.trans he))
        have halone : x.written settings old' = old' := written_other hk h hold' hne
        rw [halone] at hstatus ⊢
        exact hy.complete previous hprev old hold hread hprim old' hold' hpid hstatus
      · exact absurd (hyp.trans hpid.symm) hother
    · obtain ⟨primary, hp, row', hr', hrid, -⟩ := hy.read
      rw [hp] at hread
      exact absurd (List.mem_map.mpr ⟨row', hr', hrid.trans (Option.some.inj hread)⟩) hid

theorem rotated_ids (rows : List PartnerSigningSecret) :
    (x.rotated settings secretId rows).map (·.id) = rows.map (·.id) ++ [secretId] := by
  rw [Rotation.rotated, List.map_append, List.map_map]
  congr 1
  exact List.map_congr_left fun row _ => written_id settings x row

theorem rotated_one_primary (hk : Kept s) (h : x.Fits s) (hc : ReadsCurrent s x current)
    {a b : PartnerSigningSecret} (hma : a ∈ x.rotated settings secretId s.rows)
    (hmb : b ∈ x.rotated settings secretId s.rows) (hpid : a.partnerId = b.partnerId)
    (hsa : a.status = .primary) (hsb : b.status = .primary) : a = b := by
  rcases mem_rotated.mp hma with ⟨a, ha, rfl⟩ | rfl
  · rw [written_partnerId] at hpid
    rcases mem_rotated.mp hmb with ⟨b, hb, rfl⟩ | rfl
    · rw [written_partnerId] at hpid
      rw [hk.one_primary a ha b hb hpid (primary_of_written hsa).1 (primary_of_written hsb).1]
    · exact absurd hsa (written_not_primary hk h hc ha hpid)
  · rcases mem_rotated.mp hmb with ⟨b, hb, rfl⟩ | rfl
    · rw [written_partnerId] at hpid
      exact absurd hsb (written_not_primary hk h hc hb hpid.symm)
    · rfl

theorem rotated_one_previous {previous : List Uuid} (hk : Kept s) (h : x.Fits s)
    (hc : ReadsCurrent s x current) (hprev : x.previous = some previous)
    {a b : PartnerSigningSecret} (hma : a ∈ x.rotated settings secretId s.rows)
    (hmb : b ∈ x.rotated settings secretId s.rows) (hpid : a.partnerId = b.partnerId)
    (hsa : a.status = .previous) (hsb : b.status = .previous) : a = b := by
  rcases mem_rotated.mp hma with ⟨a, ha, rfl⟩ | rfl
  · rcases mem_rotated.mp hmb with ⟨b, hb, rfl⟩ | rfl
    · rw [written_partnerId, written_partnerId] at hpid
      by_cases he : a.partnerId = x.partnerId
      · rw [eq_current_of_written hk h hc hprev ha he hsa,
          eq_current_of_written hk h hc hprev hb (hpid ▸ he) hsb]
      · rw [written_other hk h ha he] at hsa
        rw [written_other hk h hb (hpid ▸ he)] at hsb
        rw [hk.one_previous a ha b hb hpid hsa hsb]
    · cases hsb
  · cases hsa

theorem rotated_newest (hk : Kept s) (h : x.Fits s) (hc : ReadsCurrent s x current)
    {a b : PartnerSigningSecret} (hma : a ∈ x.rotated settings secretId s.rows)
    (hmb : b ∈ x.rotated settings secretId s.rows) (hpid : a.partnerId = b.partnerId)
    (hsb : b.status = .primary) : a.version ≤ b.version := by
  rcases mem_rotated.mp hmb with ⟨b, hb, rfl⟩ | rfl
  · rw [written_partnerId] at hpid
    rcases mem_rotated.mp hma with ⟨a, ha, rfl⟩ | rfl
    · rw [written_partnerId] at hpid
      rw [written_version, written_version]
      exact hk.newest a ha b hb hpid (primary_of_written hsb).1
    · exact absurd hsb (written_not_primary hk h hc hb hpid.symm)
  · rcases mem_rotated.mp hma with ⟨a, ha, rfl⟩ | rfl
    · rw [written_partnerId] at hpid
      rw [written_version]
      exact (version_lt_next hk h hc ha hpid).le
    · exact le_rfl

theorem rotated_versions (hk : Kept s) (h : x.Fits s) (hc : ReadsCurrent s x current)
    {a b : PartnerSigningSecret} (hma : a ∈ x.rotated settings secretId s.rows)
    (hmb : b ∈ x.rotated settings secretId s.rows) (hpid : a.partnerId = b.partnerId)
    (hv : a.version = b.version) : a = b := by
  rcases mem_rotated.mp hma with ⟨a, ha, rfl⟩ | rfl
  · rw [written_partnerId] at hpid
    rw [written_version] at hv
    rcases mem_rotated.mp hmb with ⟨b, hb, rfl⟩ | rfl
    · rw [written_partnerId] at hpid
      rw [written_version] at hv
      rw [hk.versions a ha b hb hpid hv]
    · exact absurd hv (version_lt_next hk h hc ha hpid).ne
  · rcases mem_rotated.mp hmb with ⟨b, hb, rfl⟩ | rfl
    · rw [written_partnerId] at hpid
      rw [written_version] at hv
      exact absurd hv.symm (version_lt_next hk h hc hb hpid.symm).ne
    · rfl

theorem kept_commit {w : Nat} {previous : List Uuid} (hk : Kept s) (h : x.Fits s)
    (hc : ReadsCurrent s x current) (hprev : x.previous = some previous)
    (hid : secretId ∉ s.rows.map (·.id)) :
    Kept (s.commitRotation settings w secretId x) := by
  have hids : (s.commitRotation settings w secretId x).partners.map (·.id) =
      s.partners.map (·.id) := Table.map_modify _ _ _ _ _ fun _ => rfl
  have hstored : ∀ {n : Nat}, n ∈ s.partners.map (·.id) →
      ∃ p ∈ (s.commitRotation settings w secretId x).partners, p.id = n := by
    intro n hn
    rw [← hids] at hn
    exact List.mem_map.mp hn
  refine
    { row_ids := ?_
      partner_ids := hids ▸ hk.partner_ids
      partner_seq := ?_
      owner := ?_
      primary := ?_
      one_primary := fun a ha b hb => rotated_one_primary hk h hc ha hb
      one_previous := fun a ha b hb => rotated_one_previous hk h hc hprev ha hb
      newest := fun a ha b hb => rotated_newest hk h hc ha hb
      versions := fun a ha b hb => rotated_versions hk h hc ha hb
      rotations := ?_ }
  · change ((x.rotated settings secretId s.rows).map (·.id)).Nodup
    rw [rotated_ids, ← List.concat_eq_append]
    exact hk.row_ids.concat hid
  · intro p' hp'
    have hmem : p'.id ∈ s.partners.map (·.id) := hids ▸ List.mem_map_of_mem hp'
    obtain ⟨p, hp, he⟩ := List.mem_map.mp hmem
    exact he ▸ hk.partner_seq p hp
  · intro row hr
    rcases mem_rotated.mp hr with ⟨old, hold, rfl⟩ | rfl
    · obtain ⟨p, hp, he⟩ := hk.owner old hold
      exact hstored (List.mem_map.mpr ⟨p, hp, he.trans (written_partnerId settings x old).symm⟩)
    · obtain ⟨p, hp, he⟩ := h.partner
      exact hstored (List.mem_map.mpr ⟨p, hp, he⟩)
  · intro p' hp'
    obtain ⟨p, hp, rfl⟩ := Table.mem_modify.mp hp'
    by_cases he : p.id = x.partnerId
    · rw [if_pos he]
      exact ⟨_, mem_rotated.mpr (.inr rfl), he.symm, rfl, rfl⟩
    · rw [if_neg he]
      obtain ⟨row, hr, hpid, hrest⟩ := hk.primary p hp
      exact ⟨row, mem_rotated.mpr (.inl ⟨row, hr, written_other hk h hr (hpid ▸ he)⟩), hpid, hrest⟩
  · intro v y hy
    exact fits_committed hk h hc hid (hk.rotations v y (update_none_some hy).1)

end Commit

/-- Slots and locks are the only things that change. -/
theorem Kept.withRotations {s : SecretStore} (h : Kept s) {locked : List (Nat × Uuid)}
    {rotations : Nat → Option Rotation} (hr : ∀ w x, rotations w = some x → x.Fits s) :
    Kept { s with locked := locked, rotations := rotations } :=
  { h with
    rotations := by
      intro w x hx
      have hf := hr w x hx
      exact ⟨hf.partner, hf.read, hf.revokes, hf.complete⟩ }

theorem Kept.endRotation {s : SecretStore} (h : Kept s) (w : Nat) : Kept (s.endRotation w) :=
  h.withRotations fun v x hx => h.rotations v x (update_none_some hx).1

theorem fits_read {s : SecretStore} (h : Kept s) {partnerId : Nat} {actorId : String} {now : Time}
    {encrypted : Secret} (hmem : partnerId ∈ s.partners.map (·.id))
    {row : Option PartnerSigningSecret} (hf : fetchPrimaryRow s.rows partnerId = .ok row) :
    Rotation.Fits s ⟨partnerId, actorId, now, encrypted, row, none⟩ := by
  obtain ⟨p, hp, rfl⟩ := List.mem_map.mp hmem
  obtain ⟨primary, hr, hpid, hst, -⟩ := h.primary p hp
  have hone := fetchPrimaryRow_of_filter (hpid ▸ h.filter_primary hr hst)
  obtain rfl := Except.ok.inj (hone.symm.trans hf)
  refine ⟨⟨p, hp, rfl⟩, ⟨primary, rfl, primary, hr, rfl, hpid, rfl⟩, ?_, ?_⟩
  · intro previous hprev
    cases hprev
  · intro previous hprev
    cases hprev

theorem mem_otherPrevious {settings : Settings} {x : Rotation}
    {rows : List PartnerSigningSecret} {i : Uuid} :
    i ∈ x.otherPrevious settings rows ↔
      ∃ primary, x.currentPrimary = some primary ∧ i ≠ primary.id ∧
        ∃ row ∈ rows, row.id = i ∧ row.partnerId = x.partnerId ∧ row.status = .previous := by
  unfold Rotation.otherPrevious
  cases hp : x.currentPrimary with
  | none => simp
  | some primary =>
    have hkeep : ∀ row : PartnerSigningSecret, row.id ≠ primary.id →
        x.promote settings row = row := by
      intro row hne
      unfold Rotation.promote
      rw [hp, Option.map_some, if_neg fun he => hne (Option.some.inj he).symm]
    have hid : ∀ row : PartnerSigningSecret, (x.promote settings row).id = row.id := by
      intro row
      unfold Rotation.promote
      split_ifs <;> rfl
    simp only [fetchPreviousRows, List.mem_map, List.mem_filter, hasStatus_iff, decide_eq_true_eq]
    constructor
    · rintro ⟨_, ⟨⟨⟨row, hr, rfl⟩, hpid, hst⟩, hne⟩, rfl⟩
      rw [hid] at hne ⊢
      rw [hkeep row hne] at hpid hst
      exact ⟨primary, rfl, hne, row, hr, rfl, hpid, hst⟩
    · rintro ⟨_, hsome, hne, row, hr, rfl, hpid, hst⟩
      obtain rfl := Option.some.inj hsome
      exact ⟨row, ⟨⟨⟨row, hr, hkeep row hne⟩, hpid, hst⟩, hne⟩, rfl⟩

theorem fits_readPrevious {settings : Settings} {s : SecretStore} {x : Rotation} (hk : Kept s)
    (h : x.Fits s) :
    Rotation.Fits s { x with previous := some (x.otherPrevious settings s.rows) } := by
  refine ⟨h.partner, h.read, ?_, ?_⟩
  · rintro _ ⟨⟩ i hi
    obtain ⟨primary, hp, hne, row, hr, hid, hpid, hst⟩ := mem_otherPrevious.mp hi
    refine ⟨?_, row, hr, hid, hpid, ?_⟩
    · change x.currentPrimary.map (·.id) ≠ some i
      rw [hp]
      exact fun he => hne (Option.some.inj he).symm
    · rw [hst]
      decide
  · rintro _ ⟨⟩ current hc hread hcst row hr hpid hst
    obtain ⟨primary, hp, -⟩ := h.read
    change x.currentPrimary.map (·.id) = some current.id at hread
    rw [hp] at hread
    refine mem_otherPrevious.mpr ⟨primary, hp, ?_, row, hr, rfl, hpid, hst⟩
    intro he
    obtain rfl := Table.eq_of_unique hk.row_ids hr hc (he.trans (Option.some.inj hread))
    rw [hst] at hcst
    cases hcst

theorem committing_cases {s : SecretStore} {w : Nat} {secretId : Uuid} {x : Rotation}
    (h : s.committing w secretId = some x) :
    s.rotations w = some x ∧ (∃ previous, x.previous = some previous) ∧
      secretId ∉ s.rows.map (·.id) := by
  unfold SecretStore.committing at h
  split at h
  · cases h
  · rename_i y hy
    split at h
    · cases h
    · rename_i previous hprev
      split at h
      · rename_i hok
        obtain rfl := Option.some.inj h
        exact ⟨hy, ⟨previous, hprev⟩, hok.2⟩
      · cases h

/-- A fresh rotation is about to promote the row that is primary now. -/
theorem readsCurrent_of_fresh {s : SecretStore} {x : Rotation} (hk : Kept s) (h : x.Fits s)
    (hf : ∃ row, fetchPrimaryRow s.rows x.partnerId = .ok row ∧
      row.map (·.id) = x.currentPrimary.map (·.id)) : ∃ current, ReadsCurrent s x current := by
  obtain ⟨row, hrow, hid⟩ := hf
  obtain ⟨p, hp, hpid⟩ := h.partner
  obtain ⟨current, hr, hcp, hst, -⟩ := hk.primary p hp
  have hone := fetchPrimaryRow_of_filter ((hcp.trans hpid) ▸ hk.filter_primary hr hst)
  obtain rfl := Except.ok.inj (hone.symm.trans hrow)
  exact ⟨current, hr, hst, hid.symm⟩

/-- A rotation that read another row leaves two primary rows. -/
theorem fresh_of_inOrder {settings : Settings} {s : SecretStore} {w : Nat} {secretId : Uuid}
    {x : Rotation} (hk : Kept s) (h : x.Fits s) (hid : secretId ∉ s.rows.map (·.id))
    (ho : SecretsInOrder (s.commitRotation settings w secretId x)) :
    ∃ row, fetchPrimaryRow s.rows x.partnerId = .ok row ∧
      row.map (·.id) = x.currentPrimary.map (·.id) := by
  obtain ⟨p, hp, hpid⟩ := h.partner
  obtain ⟨current, hr, hcp, hst, -⟩ := hk.primary p hp
  have hone := fetchPrimaryRow_of_filter ((hcp.trans hpid) ▸ hk.filter_primary hr hst)
  refine ⟨some current, hone, ?_⟩
  by_contra hne
  have hkeep : x.written settings current = current := written_primary hk h hr hst fun he => hne he.symm
  obtain ⟨row, hrow, -⟩ := (ho _ (Table.mem_modify_of_eq hp hpid)).primary
  have hboth : ∀ r ∈ x.rotated settings secretId s.rows, r.partnerId = p.id →
      r.status = .primary → r = row := by
    intro r hmem hrp hrs
    have hin : r ∈ (x.rotated settings secretId s.rows).filter (hasStatus p.id .primary) :=
      List.mem_filter.mpr ⟨hmem, hasStatus_iff.mpr ⟨hrp, hrs⟩⟩
    exact List.mem_singleton.mp (hrow ▸ hin)
  have hold := hboth current (mem_rotated.mpr (.inl ⟨current, hr, hkeep⟩)) hcp hst
  have hnew := hboth (x.newRow secretId) (mem_rotated.mpr (.inr rfl)) hpid.symm rfl
  have hsame : current.id = secretId := congrArg (·.id) (hold.trans hnew.symm)
  exact hid (List.mem_map.mpr ⟨current, hr, hsame⟩)

/-- A rotation under way is not concerned by a new partner and its first row. -/
theorem fits_created {s : SecretStore} {x : Rotation} (hf : x.Fits s) {partner : PartnerRow}
    {new : PartnerSigningSecret} {seq : Nat} (hid : new.id ∉ s.rows.map (·.id))
    (hst : new.status ≠ .previous) :
    x.Fits { s with
      partnerSeq := seq
      partners := s.partners ++ [partner]
      rows := s.rows ++ [new] } := by
  obtain ⟨q, hq, hqid⟩ := hf.partner
  obtain ⟨primary, hp, row, hr, hrid, hrest⟩ := hf.read
  refine ⟨⟨q, List.mem_append_left _ hq, hqid⟩,
    ⟨primary, hp, row, List.mem_append_left _ hr, hrid, hrest⟩, ?_, ?_⟩
  · intro previous hprev i hi
    obtain ⟨hne, r, hmem, hr'⟩ := hf.revokes previous hprev i hi
    exact ⟨hne, r, List.mem_append_left _ hmem, hr'⟩
  · intro previous hprev current hc hread hcst r hmem hpid hrst
    rcases List.mem_append.mp hc with hc | hc
    · rcases List.mem_append.mp hmem with hmem | hmem
      · exact hf.complete previous hprev current hc hread hcst r hmem hpid hrst
      · rw [List.mem_singleton.mp hmem] at hrst
        exact absurd hrst hst
    · rw [List.mem_singleton.mp hc, hp] at hread
      exact absurd (List.mem_map.mpr ⟨row, hr, hrid.trans (Option.some.inj hread)⟩) hid

theorem kept_createPartner {s : SecretStore} {publicId secretId : Uuid} {slug : String}
    {encrypted : Secret} {now : Time} (h : Kept s) (hid : secretId ∉ s.rows.map (·.id)) :
    Kept { s with
      partnerSeq := s.partnerSeq + 1
      partners := s.partners ++ [⟨s.partnerSeq + 1, publicId, slug, some encrypted⟩]
      rows := s.rows ++
        [insertPrimarySigningSecret secretId (s.partnerSeq + 1) encrypted 1 now] } := by
  have hold : ∀ row ∈ s.rows, row.partnerId ≠ s.partnerSeq + 1 := by
    intro row hr he
    obtain ⟨p, hp, hpid⟩ := h.owner row hr
    have hle := h.partner_seq p hp
    omega
  refine
    { row_ids := ?_
      partner_ids := ?_
      partner_seq := ?_
      owner := ?_
      primary := ?_
      one_primary := Table.forall_pairs_concat hold (fun a ha b hb => h.one_primary a ha b hb)
        fun _ _ => rfl
      one_previous := Table.forall_pairs_concat hold (fun a ha b hb => h.one_previous a ha b hb)
        fun _ _ => rfl
      newest := Table.forall_pairs_concat hold (fun a ha b hb => h.newest a ha b hb)
        fun _ => le_rfl
      versions := Table.forall_pairs_concat hold (fun a ha b hb => h.versions a ha b hb)
        fun _ => rfl
      rotations := ?_ }
  · rw [List.map_append, List.map_singleton, ← List.concat_eq_append]
    exact h.row_ids.concat hid
  · rw [List.map_append, List.map_singleton, ← List.concat_eq_append]
    refine h.partner_ids.concat ?_
    intro hmem
    obtain ⟨p, hp, he⟩ := List.mem_map.mp hmem
    have hle := h.partner_seq p hp
    have hid' : p.id = s.partnerSeq + 1 := he
    omega
  · intro p hp
    rcases List.mem_append.mp hp with hp | hp
    · exact (h.partner_seq p hp).trans (Nat.le_succ _)
    · rw [List.mem_singleton.mp hp]
  · intro row hr
    rcases List.mem_append.mp hr with hr | hr
    · obtain ⟨p, hp, he⟩ := h.owner row hr
      exact ⟨p, List.mem_append_left _ hp, he⟩
    · rw [List.mem_singleton.mp hr]
      exact ⟨_, List.mem_append_right _ (List.mem_singleton.mpr rfl), rfl⟩
  · intro p hp
    rcases List.mem_append.mp hp with hp | hp
    · obtain ⟨row, hr, hrest⟩ := h.primary p hp
      exact ⟨row, List.mem_append_left _ hr, hrest⟩
    · rw [List.mem_singleton.mp hp]
      exact ⟨_, List.mem_append_right _ (List.mem_singleton.mpr rfl), rfl, rfl, rfl⟩
  · intro w x hx
    have hst : SigningSecretStatus.primary ≠ .previous := by decide
    exact fits_created (h.rotations w x hx) hid hst

theorem kept_step {settings : Settings} {s s' : SecretStore} {a : SecretAction} (h : Kept s)
    (hf : CommitsFresh s a) (hs : s.step settings a = some s') : Kept s' := by
  cases a with
  | createPartner publicId slug encrypted secretId now =>
    simp only [SecretStore.step] at hs
    split at hs
    · cases hs
    · rename_i hnew
      split at hs
      · cases hs
        exact { h with
          partner_seq := fun p hp => (h.partner_seq p hp).trans (Nat.le_succ _)
          rotations := fun w x hx =>
            ⟨(h.rotations w x hx).partner, (h.rotations w x hx).read, (h.rotations w x hx).revokes,
              (h.rotations w x hx).complete⟩ }
      · cases hs
        exact kept_createPartner h fun hmem => hnew (.inl hmem)
  | readPrimary w partnerId actorId now encrypted =>
    simp only [SecretStore.step] at hs
    split at hs
    · rename_i hok
      split at hs
      · cases hs
        exact h
      · rename_i row hrow
        cases hs
        refine h.withRotations ?_
        intro v x hx
        rcases update_some_cases hx with ⟨-, hnew⟩ | ⟨-, hold⟩
        · obtain rfl := Option.some.inj hnew
          exact fits_read h hok.2 hrow
        · exact h.rotations v x hold
    · cases hs
  | readPrevious w =>
    simp only [SecretStore.step] at hs
    split at hs
    · cases hs
    · rename_i x hx
      split at hs
      · cases hs
        refine h.withRotations ?_
        intro v y hy
        rcases update_some_cases hy with ⟨-, hnew⟩ | ⟨-, hold⟩
        · obtain rfl := Option.some.inj hnew
          exact fits_readPrevious h (h.rotations w x hx)
        · exact h.rotations v y hold
      · cases hs
  | commit w secretId =>
    obtain ⟨x, hx, rfl⟩ := Option.map_eq_some_iff.mp hs
    obtain ⟨hw, ⟨previous, hprev⟩, hid⟩ := committing_cases hx
    have hfits := h.rotations w x hw
    obtain ⟨current, hc⟩ := readsCurrent_of_fresh h hfits (hf x hx)
    exact kept_commit h hfits hc hprev hid
  | abort w =>
    obtain ⟨x, -, rfl⟩ := Option.map_eq_some_iff.mp hs
    exact h.endRotation w

theorem inOrder_step_iff {settings : Settings} {s s' : SecretStore} {a : SecretAction} (h : Kept s)
    (hs : s.step settings a = some s') : SecretsInOrder s' ↔ CommitsFresh s a := by
  constructor
  · intro ho
    cases a with
    | commit w secretId =>
      intro x hx
      obtain ⟨y, hy, rfl⟩ := Option.map_eq_some_iff.mp hs
      obtain rfl := Option.some.inj (hx.symm.trans hy)
      obtain ⟨hw, -, hid⟩ := committing_cases hx
      exact fresh_of_inOrder h (h.rotations w x hw) hid ho
    | createPartner publicId slug encrypted secretId now => trivial
    | readPrimary w partnerId actorId now encrypted => trivial
    | readPrevious w => trivial
    | abort w => trivial
  · exact fun hf => (kept_step h hf hs).inOrder

/-- Over every interleaving of partner creations and rotations, each partner keeps one
primary secret, at most one previous one and distinct versions exactly when every
rotation commits while the primary row is still the one it read. -/
theorem secrets_in_order_iff (settings : Settings) (as : List SecretAction) :
    Throughout (SecretStore.step settings) SecretsInOrder SecretStore.init as ↔
      Along (SecretStore.step settings) CommitsFresh SecretStore.init as := by
  apply throughout_iff_along (I := Kept)
  · exact fun s a s' h hf hs => kept_step h hf hs
  · exact fun s a s' h _ hs => inOrder_step_iff h hs
  · intro s a _ _ hs
    cases a with
    | commit w secretId =>
      intro x hx
      have hnone := Option.map_eq_none_iff.mp hs
      rw [hnone] at hx
      cases hx
    | createPartner publicId slug encrypted secretId now => trivial
    | readPrimary w partnerId actorId now encrypted => trivial
    | readPrevious w => trivial
    | abort w => trivial
  · exact kept_init
  · exact kept_init.inOrder

/-- Both rotations read the first secret; the second one waits for the commit of the
first with its promotion, and goes on. -/
def overlappingRotations : List SecretAction :=
  [.createPartner 1 "acme" [0] 10 0, .readPrimary 0 1 "admin" 60 [1],
    .readPrimary 1 1 "admin" 61 [2], .readPrevious 0, .commit 0 11, .readPrevious 1, .commit 1 12]

theorem overlapping_rotations_two_primaries :
    ((exec (SecretStore.step {}) SecretStore.init overlappingRotations).map fun s =>
        fetchPrimaryRow s.rows 1) = some (.error .multipleResultsFound) ∧
      ¬ Throughout (SecretStore.step {}) SecretsInOrder SecretStore.init overlappingRotations := by
  refine ⟨by decide +kernel, ?_⟩
  intro h
  obtain ⟨s, hrun, p, hp, herr⟩ :
      ∃ s, exec (SecretStore.step {}) SecretStore.init overlappingRotations = some s ∧
        ∃ p ∈ s.partners, fetchPrimaryRow s.rows p.id = .error .multipleResultsFound :=
    ⟨_, rfl, _, List.mem_cons_self, by decide +kernel⟩
  obtain ⟨row, -, hrow, -⟩ := (h.last hrun p hp).primary
  rw [herr] at hrow
  cases hrow

end PartnerHub.Secrets
