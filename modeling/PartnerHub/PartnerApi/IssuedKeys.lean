import PartnerHub.Inbound.Request
import PartnerHub.Lib.System

/-!
# Issued API keys

`create_api_key` against the two places that ask for a key, the status API and the inbound
endpoint. The table holds a prefix and an argon2 hash of each key; what was handed out is
remembered beside it. No route writes `revoked_at`, and none changes or deletes a row.
-/
namespace PartnerHub.PartnerApi

open PartnerHub.Domain PartnerHub.Lib.System
open PartnerHub.Inbound (Libraries InboundTables inboundWriteScope verifyApiKey refuse)

/-- A character of the URL-safe base64 alphabet. -/
def isUrlsafe (c : Char) : Bool := c.isAlphanum || c = '-' || c = '_'

/-- `secrets.token_urlsafe(24)`. -/
structure UrlsafeToken where
  text : String
  length : text.length = 32
  urlsafe : ∀ c ∈ text.toList, isUrlsafe c = true

/-- argon2: a hash of a salt and a key, and its verification, which answers False where the
library raises. -/
structure PasswordHasher where
  hash : String → String → String
  verify : String → String → Bool

/-- A hash verifies the key it was made of and no other. -/
def PasswordHasher.Exact (hasher : PasswordHasher) : Prop :=
  ∀ salt key key', hasher.verify (hasher.hash salt key) key' = true ↔ key' = key

def apiKeyPrefix : String := "pk_live_"

def fullKey (suffix : UrlsafeToken) : String := apiKeyPrefix ++ suffix.text

structure GeneratedApiKey where
  fullKey : String
  lookup : String
  keyHash : String

def generateApiKey (hasher : PasswordHasher) (suffix : UrlsafeToken) (salt : String) :
    GeneratedApiKey where
  fullKey := fullKey suffix
  lookup := extractPrefix (fullKey suffix)
  keyHash := hasher.hash salt (fullKey suffix)

structure ApiKeyCreate where
  scopes : List String := [inboundWriteScope]
  expiresAt : Option Time := none

structure ApiKeyCreatedResponse where
  id : Uuid
  key : String
  keyPrefix : String
  scopes : List String
  expiresAt : Option Time
  createdAt : Time
  deriving DecidableEq

/-- What a creation draws: the row's id, the random parts of key and hash, the time. -/
structure KeyDraw where
  id : Uuid
  suffix : UrlsafeToken
  salt : String
  createdAt : Time

def partnerNotFound : HttpException := ⟨404, "Partner not found."⟩

def createApiKey (hasher : PasswordHasher) (partners : List Partner) (partnerId : Uuid)
    (body : ApiKeyCreate) (draw : KeyDraw) :
    Except HttpException (PartnerApiKey × ApiKeyCreatedResponse) :=
  match partners.find? fun p => p.publicId = partnerId with
  | none => .error partnerNotFound
  | some partner =>
    let generated := generateApiKey hasher draw.suffix draw.salt
    .ok ({ id := draw.id, partnerId := partner.id, keyPrefix := generated.lookup,
           keyHash := generated.keyHash, scopes := body.scopes, expiresAt := body.expiresAt,
           revokedAt := none },
         { id := draw.id, key := generated.fullKey, keyPrefix := generated.lookup,
           scopes := body.scopes, expiresAt := body.expiresAt, createdAt := draw.createdAt })

/-- A response of `create_api_key`, and the partner it was for. -/
structure IssuedKey where
  partnerId : Nat
  response : ApiKeyCreatedResponse

structure KeyDesk where
  partners : List Partner
  apiKeys : List PartnerApiKey
  issued : List IssuedKey

def KeyDesk.init : KeyDesk := ⟨[], [], []⟩

inductive KeyAction where
  | writePartners (partners : List Partner)
  | createApiKey (partnerId : Uuid) (body : ApiKeyCreate) (draw : KeyDraw)

/-- A refused creation leaves the table as it was; an id is drawn once. -/
def KeyDesk.step (hasher : PasswordHasher) (s : KeyDesk) : KeyAction → Option KeyDesk
  | .writePartners partners => some { s with partners := partners }
  | .createApiKey partnerId body draw =>
    if ∃ row ∈ s.apiKeys, row.id = draw.id then none
    else
      match PartnerApi.createApiKey hasher s.partners partnerId body draw with
      | .error _ => some s
      | .ok (row, response) =>
        some { s with
          apiKeys := s.apiKeys ++ [row]
          issued := s.issued ++ [⟨row.partnerId, response⟩] }

/-- The random part of a key was not drawn before. -/
def FreshSuffix (s : KeyDesk) : KeyAction → Prop
  | .createApiKey _ _ draw => ∀ x ∈ s.issued, x.response.key ≠ fullKey draw.suffix
  | _ => True

/-- The header brings this key, which has not expired. -/
def IssuedKey.Presented (x : IssuedKey) (authorization : Option String) (now : Time) : Prop :=
  parseBearerToken authorization = some x.response.key ∧
    ∀ expiresAt, x.response.expiresAt = some expiresAt → now < expiresAt

/-- A header means to both endpoints what was issued, in whatever order the rows come. -/
structure KeysExact (hasher : PasswordHasher) (s : KeyDesk) : Prop where
  status : ∀ rows now authorization p, rows.Perm s.apiKeys →
    (authenticatePartnerApiKey hasher.verify rows now authorization = .ok ⟨p⟩ ↔
      ∃ x ∈ s.issued, x.Presented authorization now ∧ x.partnerId = p ∧
        statusReadScope ∈ x.response.scopes)
  wrongScope : ∀ rows now authorization, rows.Perm s.apiKeys →
    (authenticatePartnerApiKey hasher.verify rows now authorization = .error forbidden ↔
      ∃ x ∈ s.issued, x.Presented authorization now ∧ statusReadScope ∉ x.response.scopes)
  unknown : ∀ rows now authorization, rows.Perm s.apiKeys →
    (authenticatePartnerApiKey hasher.verify rows now authorization = .error unauthorized ↔
      ∀ x ∈ s.issued, ¬ x.Presented authorization now)
  inbound : ∀ (lib : Libraries) (t : InboundTables) partner now authorization,
    lib.verifyHash = hasher.verify → t.apiKeys.Perm s.apiKeys →
    (verifyApiKey lib t partner (parseBearerToken authorization) now = .ok () ↔
      ∃ x ∈ s.issued, x.Presented authorization now ∧ x.partnerId = partner.id ∧
        inboundWriteScope ∈ x.response.scopes)
  presentable : ∀ x ∈ s.issued,
    parseBearerToken (some ("Bearer " ++ x.response.key)) = some x.response.key

/-- The row of an issued key. -/
structure IssuedAs (hasher : PasswordHasher) (x : IssuedKey) (row : PartnerApiKey) : Prop where
  partner : row.partnerId = x.partnerId
  lookup : row.keyPrefix = extractPrefix x.response.key
  hashed : ∃ salt, row.keyHash = hasher.hash salt x.response.key
  scopes : row.scopes = x.response.scopes
  expires : row.expiresAt = x.response.expiresAt
  standing : row.revokedAt = none

/-- The table is what was issued, and no key was issued twice. -/
structure Issuance (hasher : PasswordHasher) (s : KeyDesk) : Prop where
  issued : List.Forall₂ (IssuedAs hasher) s.issued s.apiKeys
  distinct : (s.issued.map fun x => x.response.key).Nodup
  drawn : ∀ x ∈ s.issued, ∃ suffix, x.response.key = fullKey suffix

section Header

theorem toNat_of_urlsafe {c : Char} (h : isUrlsafe c = true) : 45 ≤ c.toNat ∧ c.toNat ≤ 122 := by
  simp only [isUrlsafe, Bool.or_eq_true, decide_eq_true_eq] at h
  rcases h with (h | rfl) | rfl
  · simp only [Char.isAlphanum, Char.isAlpha, Char.isUpper, Char.isLower, Char.isDigit,
      Bool.or_eq_true, Bool.and_eq_true, decide_eq_true_eq, UInt32.le_iff_toNat_le, ge_iff_le] at h
    simp only [Char.reduceVal, UInt32.reduceToNat] at h
    have hn : c.toNat = c.val.toNat := rfl
    omega
  · decide
  · decide

theorem not_space_of_urlsafe {c : Char} (h : isUrlsafe c = true) : isSpace c = false := by
  obtain ⟨hlow, hhigh⟩ := toNat_of_urlsafe h
  simp only [isSpace, Bool.or_eq_false_iff, Bool.and_eq_false_iff, decide_eq_false_iff_not]
  omega

theorem apiKeyPrefix_urlsafe : ∀ c ∈ apiKeyPrefix.toList, isUrlsafe c = true := by
  intro c hc
  simp only [apiKeyPrefix, String.reduceToList, List.mem_cons, List.not_mem_nil, or_false] at hc
  rcases hc with rfl | rfl | rfl | rfl | rfl | rfl | rfl | rfl <;> decide

/-- A key has no space in it, so that the header brings it back. -/
theorem parseBearerToken_fullKey (suffix : UrlsafeToken) :
    parseBearerToken (some ("Bearer " ++ fullKey suffix)) = some (fullKey suffix) := by
  have hheader : ("Bearer " ++ fullKey suffix).toList =
      ['B', 'e', 'a', 'r', 'e', 'r', ' '] ++ (fullKey suffix).toList := by
    rw [String.toList_append]
    rfl
  have hkey : (fullKey suffix).toList = apiKeyPrefix.toList ++ suffix.text.toList :=
    String.toList_append
  have hstrip : stripChars (fullKey suffix).toList = (fullKey suffix).toList := by
    refine stripChars_eq_self ?_
    intro c hc
    rw [hkey] at hc
    rcases List.mem_append.mp hc with hc | hc
    · exact not_space_of_urlsafe (apiKeyPrefix_urlsafe c hc)
    · exact not_space_of_urlsafe (suffix.urlsafe c hc)
  have hne : (fullKey suffix).toList ≠ [] := by
    rw [hkey]
    exact List.cons_ne_nil _ _
  simp [parseBearerToken, hheader, hstrip, hne]

end Header

section Issuance

variable {hasher : PasswordHasher} {s s' : KeyDesk}

theorem createApiKey_ok {partners : List Partner} {partnerId : Uuid} {body : ApiKeyCreate}
    {draw : KeyDraw} {row : PartnerApiKey} {response : ApiKeyCreatedResponse}
    (h : createApiKey hasher partners partnerId body draw = .ok (row, response)) :
    IssuedAs hasher ⟨row.partnerId, response⟩ row ∧ response.key = fullKey draw.suffix := by
  unfold createApiKey at h
  split at h
  · cases h
  · cases h
    exact ⟨⟨rfl, rfl, ⟨draw.salt, rfl⟩, rfl, rfl, rfl⟩, rfl⟩

theorem issuance_step {a : KeyAction} (h : Issuance hasher s) (hfresh : FreshSuffix s a)
    (hs : s.step hasher a = some s') : Issuance hasher s' := by
  cases a with
  | writePartners partners =>
    cases hs
    exact ⟨h.issued, h.distinct, h.drawn⟩
  | createApiKey partnerId body draw =>
    simp only [KeyDesk.step] at hs
    split at hs
    · cases hs
    · split at hs
      · cases hs
        exact h
      · rename_i row response hok
        obtain ⟨hrow, hkey⟩ := createApiKey_ok hok
        cases hs
        refine ⟨List.rel_append h.issued (.cons hrow .nil), ?_, ?_⟩
        · rw [List.map_append, List.nodup_append]
          refine ⟨h.distinct, List.nodup_singleton _, ?_⟩
          intro key hold key' hnew he
          obtain ⟨x, hx, rfl⟩ := List.mem_map.mp hold
          rw [List.map_singleton, List.mem_singleton, hkey] at hnew
          exact hfresh x hx (he.trans hnew)
        · intro x hx
          rcases List.mem_append.mp hx with hold | hnew
          · exact h.drawn x hold
          · rw [List.mem_singleton.mp hnew]
            exact ⟨draw.suffix, hkey⟩

theorem Issuance.row (h : Issuance hasher s) {x : IssuedKey} (hx : x ∈ s.issued) :
    ∃ row ∈ s.apiKeys, IssuedAs hasher x row := by
  obtain ⟨i, hi, rfl⟩ := List.getElem_of_mem hx
  have hi' : i < s.apiKeys.length := h.issued.length_eq ▸ hi
  exact ⟨s.apiKeys[i], List.getElem_mem hi', h.issued.get hi hi'⟩

theorem Issuance.source (h : Issuance hasher s) {row : PartnerApiKey} (hrow : row ∈ s.apiKeys) :
    ∃ x ∈ s.issued, IssuedAs hasher x row := by
  obtain ⟨i, hi, rfl⟩ := List.getElem_of_mem hrow
  have hi' : i < s.issued.length := h.issued.length_eq.symm ▸ hi
  exact ⟨s.issued[i], List.getElem_mem hi', h.issued.get hi' hi⟩

theorem IssuedAs.usable_iff {x : IssuedKey} {row : PartnerApiKey} (h : IssuedAs hasher x row)
    (now : Time) : row.Usable now ↔
      ∀ expiresAt, x.response.expiresAt = some expiresAt → now < expiresAt := by
  rw [PartnerApiKey.Usable, h.expires]
  exact and_iff_right h.standing

theorem IssuedAs.verify_iff {x : IssuedKey} {row : PartnerApiKey} (h : IssuedAs hasher x row)
    (he : hasher.Exact) (key : String) :
    hasher.verify row.keyHash key = true ↔ key = x.response.key := by
  obtain ⟨salt, hsalt⟩ := h.hashed
  rw [hsalt]
  exact he salt _ _

/-- A row verifies what a header brings exactly when the header presents its key. -/
theorem verifiedBy_iff {rows : List PartnerApiKey} {row : PartnerApiKey} {x : IssuedKey}
    (he : hasher.Exact) (h : IssuedAs hasher x row) (hrow : row ∈ rows)
    (authorization : Option String) (now : Time) :
    VerifiedBy hasher.verify rows now authorization row ↔ x.Presented authorization now := by
  constructor
  · rintro ⟨key, hkey, -, -, hv⟩
    obtain rfl := (h.verify_iff he key).mp hv.verified
    exact ⟨hkey, (h.usable_iff now).mp hv.usable⟩
  · rintro ⟨hkey, hexp⟩
    exact ⟨_, hkey, hrow, h.lookup, (h.usable_iff now).mpr hexp, (h.verify_iff he _).mpr rfl⟩

theorem grantedBy_iff {rows : List PartnerApiKey} {row : PartnerApiKey} {x : IssuedKey}
    (he : hasher.Exact) (h : IssuedAs hasher x row) (hrow : row ∈ rows)
    (authorization : Option String) (now : Time) :
    GrantedBy hasher.verify rows now authorization row ↔
      x.Presented authorization now ∧ statusReadScope ∈ x.response.scopes := by
  rw [← verifiedBy_iff he h hrow, ← h.scopes]
  constructor
  · rintro ⟨key, hkey, hin, hpre, hv, hscope⟩
    exact ⟨⟨key, hkey, hin, hpre, hv⟩, hscope⟩
  · rintro ⟨⟨key, hkey, hin, hpre, hv⟩, hscope⟩
    exact ⟨key, hkey, hin, hpre, hv, hscope⟩

/-- A header presents at most one issued key. -/
theorem Issuance.same (h : Issuance hasher s) {x y : IssuedKey} (hx : x ∈ s.issued)
    (hy : y ∈ s.issued) {authorization : Option String} {now : Time}
    (hpx : x.Presented authorization now) (hpy : y.Presented authorization now) : x = y :=
  List.inj_on_of_nodup_map h.distinct hx hy (Option.some.inj (hpx.1.symm.trans hpy.1))

/-- The three answers of the status API, by what was issued. -/
theorem Issuance.outcome (h : Issuance hasher s) (he : hasher.Exact) {rows : List PartnerApiKey}
    (hp : rows.Perm s.apiKeys) (now : Time) (authorization : Option String) :
    (∃ x ∈ s.issued, x.Presented authorization now ∧ statusReadScope ∈ x.response.scopes ∧
      authenticatePartnerApiKey hasher.verify rows now authorization = .ok ⟨x.partnerId⟩) ∨
    (∃ x ∈ s.issued, x.Presented authorization now ∧ statusReadScope ∉ x.response.scopes ∧
      authenticatePartnerApiKey hasher.verify rows now authorization = .error forbidden) ∨
    ((∀ x ∈ s.issued, ¬ x.Presented authorization now) ∧
      authenticatePartnerApiKey hasher.verify rows now authorization = .error unauthorized) := by
  have hout := authenticate_outcome hasher.verify rows now authorization
  revert hout
  generalize authenticatePartnerApiKey hasher.verify rows now authorization = result
  intro hout
  cases hout with
  | @success row hrow =>
    obtain ⟨key, hkey, hin, hrest⟩ := hrow
    obtain ⟨x, hx, hissued⟩ := h.source (hp.mem_iff.mp hin)
    obtain ⟨hpres, hscope⟩ :=
      (grantedBy_iff he hissued hin authorization now).mp ⟨key, hkey, hin, hrest⟩
    exact .inl ⟨x, hx, hpres, hscope, by rw [hissued.partner]⟩
  | wrongScope hnone hsome =>
    obtain ⟨row, key, hkey, hin, hrest⟩ := hsome
    obtain ⟨x, hx, hissued⟩ := h.source (hp.mem_iff.mp hin)
    have hpres := (verifiedBy_iff he hissued hin authorization now).mp ⟨key, hkey, hin, hrest⟩
    refine .inr (.inl ⟨x, hx, hpres, ?_, rfl⟩)
    intro hscope
    exact hnone row ((grantedBy_iff he hissued hin authorization now).mpr ⟨hpres, hscope⟩)
  | invalid hnone hnot =>
    refine .inr (.inr ⟨?_, rfl⟩)
    intro x hx hpres
    obtain ⟨row, hrow, hissued⟩ := h.row hx
    exact hnot row ((verifiedBy_iff he hissued (hp.mem_iff.mpr hrow) authorization now).mpr hpres)

theorem Issuance.inbound_iff (h : Issuance hasher s) (he : hasher.Exact) {lib : Libraries}
    {t : InboundTables} (hlib : lib.verifyHash = hasher.verify) (hp : t.apiKeys.Perm s.apiKeys)
    (partner : Partner) (now : Time) (authorization : Option String) :
    verifyApiKey lib t partner (parseBearerToken authorization) now = .ok () ↔
      ∃ x ∈ s.issued, x.Presented authorization now ∧ x.partnerId = partner.id ∧
        inboundWriteScope ∈ x.response.scopes := by
  cases hkey : parseBearerToken authorization with
  | none =>
    refine iff_of_false (by intro hok; cases hok) ?_
    rintro ⟨x, -, hpres, -⟩
    rw [IssuedKey.Presented, hkey] at hpres
    cases hpres.1
  | some key =>
    simp only [verifyApiKey, hlib]
    constructor
    · intro hok
      split at hok
      · rename_i hrow
        obtain ⟨row, hmem, hexp, hscope, hv⟩ := hrow
        obtain ⟨hin, -, hpartner, -⟩ : row ∈ t.apiKeys ∧ row.keyPrefix = extractPrefix key ∧
            row.partnerId = partner.id ∧ row.revokedAt = none := by
          simpa using hmem
        obtain ⟨x, hx, hissued⟩ := h.source (hp.mem_iff.mp hin)
        obtain rfl := (hissued.verify_iff he key).mp hv
        refine ⟨x, hx, ⟨hkey, ?_⟩, hissued.partner.symm.trans hpartner, hissued.scopes ▸ hscope⟩
        intro expiresAt hx
        exact hexp expiresAt (hissued.expires.trans hx)
      · cases hok
    · rintro ⟨x, hx, ⟨hbrought, hexp⟩, hpartner, hscope⟩
      obtain rfl := Option.some.inj (hkey.symm.trans hbrought)
      obtain ⟨row, hrow, hissued⟩ := h.row hx
      rw [if_pos]
      refine ⟨row, ?_, ?_, hissued.scopes ▸ hscope, (hissued.verify_iff he _).mpr rfl⟩
      · simp [hp.mem_iff.mpr hrow, hissued.lookup, hissued.partner, hpartner, hissued.standing]
      · intro expiresAt hx
        exact hexp expiresAt (hissued.expires.symm.trans hx)

theorem Issuance.keysExact (h : Issuance hasher s) (he : hasher.Exact) : KeysExact hasher s where
  status := by
    intro rows now authorization p hp
    rcases h.outcome he hp now authorization with
      ⟨x, hx, hpres, hscope, hres⟩ | ⟨x, hx, hpres, hscope, hres⟩ | ⟨hnone, hres⟩
    · rw [hres]
      constructor
      · intro hok
        cases hok
        exact ⟨x, hx, hpres, rfl, hscope⟩
      · rintro ⟨y, hy, hpy, rfl, -⟩
        rw [h.same hx hy hpres hpy]
    · rw [hres]
      refine iff_of_false (by intro hok; cases hok) ?_
      rintro ⟨y, hy, hpy, -, hys⟩
      exact hscope (h.same hx hy hpres hpy ▸ hys)
    · rw [hres]
      refine iff_of_false (by intro hok; cases hok) ?_
      rintro ⟨y, hy, hpy, -⟩
      exact hnone y hy hpy
  wrongScope := by
    intro rows now authorization hp
    rcases h.outcome he hp now authorization with
      ⟨x, hx, hpres, hscope, hres⟩ | ⟨x, hx, hpres, hscope, hres⟩ | ⟨hnone, hres⟩
    · rw [hres]
      refine iff_of_false (by intro hok; cases hok) ?_
      rintro ⟨y, hy, hpy, hys⟩
      exact hys (h.same hx hy hpres hpy ▸ hscope)
    · rw [hres]
      exact iff_of_true rfl ⟨x, hx, hpres, hscope⟩
    · rw [hres]
      refine iff_of_false (by decide) ?_
      rintro ⟨y, hy, hpy, -⟩
      exact hnone y hy hpy
  unknown := by
    intro rows now authorization hp
    rcases h.outcome he hp now authorization with
      ⟨x, hx, hpres, hscope, hres⟩ | ⟨x, hx, hpres, hscope, hres⟩ | ⟨hnone, hres⟩
    · rw [hres]
      exact iff_of_false (by intro hok; cases hok) fun hnone => hnone x hx hpres
    · rw [hres]
      exact iff_of_false (by decide) fun hnone => hnone x hx hpres
    · rw [hres]
      exact iff_of_true rfl hnone
  inbound := fun _ _ partner now authorization hlib hp =>
    h.inbound_iff he hlib hp partner now authorization
  presentable := by
    intro x hx
    obtain ⟨suffix, hkey⟩ := h.drawn x hx
    rw [hkey]
    exact parseBearerToken_fullKey suffix

end Issuance

/-- Along every run of creations, whatever is done to the partners: a header opens the status
API or the inbound endpoint for a partner exactly when it presents a key that was issued to
this partner with the scope, before it expires. -/
theorem keys_work_as_issued (hasher : PasswordHasher) (he : hasher.Exact) (as : List KeyAction)
    (hfresh : Along (KeyDesk.step hasher) FreshSuffix KeyDesk.init as) :
    Throughout (KeyDesk.step hasher) (KeysExact hasher) KeyDesk.init as := by
  have hinit : Issuance hasher KeyDesk.init := by
    refine ⟨.nil, List.nodup_nil, ?_⟩
    intro x hx
    cases hx
  exact throughout_of_invariant (Issuance hasher)
    (fun _ _ _ h hok hs => issuance_step h hok hs) (fun _ h => h.keysExact he) hinit hfresh

/-- Keys are their own hashes. -/
def plainHasher : PasswordHasher where
  hash := fun _ key => key
  verify := fun hash key => key = hash

theorem plainHasher_exact : plainHasher.Exact := fun _ _ _ => decide_eq_true_iff

/-- Eight times `a`, then one other character: all these keys have one lookup prefix. -/
def likeToken (c : Char) (h : isUrlsafe c = true) : UrlsafeToken where
  text := String.ofList (List.replicate 8 'a' ++ List.replicate 24 c)
  length := by rw [String.length_ofList, List.length_append, List.length_replicate,
    List.length_replicate]
  urlsafe := by
    intro x hx
    rw [String.toList_ofList, List.mem_append] at hx
    rcases hx with ha | hc
    · rw [List.eq_of_mem_replicate ha]
      decide
    · rw [List.eq_of_mem_replicate hc]
      exact h

def globex : Partner := { Outbound.acme with id := 2, publicId := 2, slug := "globex" }

/-- Two partners' keys with one prefix: one may read statuses, the other may not. -/
def twoKeyRun : List KeyAction :=
  [.writePartners [Outbound.acme, globex],
    .createApiKey 1 { scopes := [statusReadScope] } ⟨3, likeToken 'a' (by decide), "", 0⟩,
    .createApiKey 2 {} ⟨4, likeToken 'b' (by decide), "", 0⟩]

theorem twoKeyRun_fresh :
    Along (KeyDesk.step plainHasher) FreshSuffix KeyDesk.init twoKeyRun := by
  have hne : fullKey (likeToken 'a' (by decide)) ≠ fullKey (likeToken 'b' (by decide)) := by
    decide
  refine .cons trivial rfl (.cons ?_ rfl (.cons ?_ rfl trivial))
  · intro x hx
    cases hx
  · intro x hx
    rw [List.mem_singleton.mp hx]
    exact hne

/-- Each of the two keys means what it was issued for, whichever row comes first. -/
theorem keys_work_as_issued_acme : ∃ s x y,
    exec (KeyDesk.step plainHasher) KeyDesk.init twoKeyRun = some s ∧ s.issued = [x, y] ∧
    extractPrefix x.response.key = extractPrefix y.response.key ∧
    ∀ rows, rows.Perm s.apiKeys →
      authenticatePartnerApiKey plainHasher.verify rows 5
        (some ("Bearer " ++ x.response.key)) = .ok ⟨1⟩ ∧
      authenticatePartnerApiKey plainHasher.verify rows 5
        (some ("Bearer " ++ y.response.key)) = .error forbidden := by
  obtain ⟨s, x, y, hrun, hissued, hprefix, hpartner, hx, hy, hexp⟩ : ∃ s x y,
      exec (KeyDesk.step plainHasher) KeyDesk.init twoKeyRun = some s ∧ s.issued = [x, y] ∧
        extractPrefix x.response.key = extractPrefix y.response.key ∧ x.partnerId = 1 ∧
        statusReadScope ∈ x.response.scopes ∧ statusReadScope ∉ y.response.scopes ∧
        x.response.expiresAt = none ∧ y.response.expiresAt = none :=
    ⟨_, _, _, rfl, rfl, by decide, rfl, by decide, by decide, rfl, rfl⟩
  have hexact :=
    (keys_work_as_issued plainHasher plainHasher_exact twoKeyRun twoKeyRun_fresh).last hrun
  have hxs : x ∈ s.issued := hissued ▸ List.mem_cons_self
  have hys : y ∈ s.issued := hissued ▸ List.mem_cons_of_mem x List.mem_cons_self
  refine ⟨s, x, y, hrun, hissued, hprefix, fun rows hp => ⟨?_, ?_⟩⟩
  · have hpresented : x.Presented (some ("Bearer " ++ x.response.key)) 5 :=
      ⟨hexact.presentable x hxs, by simp [hexp.1]⟩
    exact (hexact.status rows 5 _ 1 hp).mpr ⟨x, hxs, hpresented, hpartner, hx⟩
  · have hpresented : y.Presented (some ("Bearer " ++ y.response.key)) 5 :=
      ⟨hexact.presentable y hys, by simp [hexp.2]⟩
    exact (hexact.wrongScope rows 5 _ hp).mpr ⟨y, hys, hpresented, hy⟩

end PartnerHub.PartnerApi
