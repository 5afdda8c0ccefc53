import PartnerHub.Domain.Text
import PartnerHub.Outbound.Operations

/-!
# The status API of a partner

`get_delivery_status` behind `authenticate_partner_api_key`: the bearer key is looked up by
its prefix, every row with that prefix is tried, and the delivery is looked up by its public
id alone before its partner is compared. `verify` is the argon2 verification of a hash and a
key, which answers False where the library raises.
-/
namespace PartnerHub.PartnerApi

open PartnerHub.Domain PartnerHub.Lib PartnerHub.Outbound

structure PartnerApiKey where
  id : Uuid
  partnerId : Nat
  keyPrefix : String
  keyHash : String
  scopes : List String
  expiresAt : Option Time
  revokedAt : Option Time
  deriving DecidableEq, Repr

structure HttpException where
  statusCode : Nat
  detail : String
  deriving DecidableEq, Repr

structure AuthenticatedPartner where
  partnerId : Nat
  deriving DecidableEq, Repr

def statusReadScope : String := "status:read"

def unauthorized : HttpException := ⟨401, "Missing or invalid API key."⟩

def forbidden : HttpException := ⟨403, "API key lacks status:read scope."⟩

def notFound : HttpException := ⟨404, "Delivery not found."⟩

/-- `parse_bearer_token`: the header is split at its first space. -/
def parseBearerToken (authorization : Option String) : Option String :=
  match authorization with
  | none => none
  | some header =>
    let scheme := header.toList.takeWhile (· ≠ ' ')
    match header.toList.dropWhile (· ≠ ' ') with
    | [] => none
    | _ :: rest =>
      if scheme.map Char.toLower ≠ "bearer".toList then none
      else if stripChars rest = [] then none
      else some (String.ofList (stripChars rest))

/-- `extract_prefix`: the first 16 characters. -/
def extractPrefix (fullKey : String) : String := String.ofList (fullKey.toList.take 16)

/-- Neither revoked nor expired. -/
def PartnerApiKey.Usable (row : PartnerApiKey) (now : Time) : Prop :=
  row.revokedAt = none ∧ ∀ expiresAt, row.expiresAt = some expiresAt → now < expiresAt

/-- The loop of `authenticate_partner_api_key` over the rows the query returned. -/
def tryRows (verify : String → String → Bool) (apiKey : String) (now : Time) :
    Bool → List PartnerApiKey → Except HttpException AuthenticatedPartner
  | matchedWrongScope, [] =>
    if matchedWrongScope then .error forbidden else .error unauthorized
  | matchedWrongScope, row :: rows =>
    if row.revokedAt ≠ none then tryRows verify apiKey now matchedWrongScope rows
    else if (row.expiresAt.any fun expiresAt => expiresAt ≤ now) = true then
      tryRows verify apiKey now matchedWrongScope rows
    else if !verify row.keyHash apiKey then tryRows verify apiKey now matchedWrongScope rows
    else if statusReadScope ∉ row.scopes then tryRows verify apiKey now true rows
    else .ok ⟨row.partnerId⟩

def authenticatePartnerApiKey (verify : String → String → Bool) (apiKeys : List PartnerApiKey)
    (now : Time) (authorization : Option String) :
    Except HttpException AuthenticatedPartner :=
  match parseBearerToken authorization with
  | none => .error unauthorized
  | some apiKey =>
    tryRows verify apiKey now false
      (apiKeys.filter fun row => row.keyPrefix = extractPrefix apiKey)

structure PartnerDeliveryStatusResponse where
  id : Uuid
  status : DeliveryStatus
  eventType : String
  attemptCount : Nat
  lastErrorCode : Option String
  slaBreached : Bool
  firstSuccessAt : Option Time
  deriving DecidableEq, Repr

def toStatusResponse (delivery : Delivery) : PartnerDeliveryStatusResponse where
  id := delivery.publicId
  status := delivery.status
  eventType := delivery.eventType
  attemptCount := delivery.attemptCount
  lastErrorCode := delivery.lastErrorCode
  slaBreached := delivery.slaBreached
  firstSuccessAt := delivery.firstSuccessAt

/-- The handler behind the authentication. -/
def getDeliveryStatus (db : Db) (auth : AuthenticatedPartner) (deliveryId : Uuid) :
    Except HttpException PartnerDeliveryStatusResponse :=
  match db.tables.deliveries.find? fun d => d.publicId = deliveryId with
  | none => .error notFound
  | some delivery =>
    if delivery.partnerId ≠ auth.partnerId then .error notFound
    else .ok (toStatusResponse delivery)

/-- The whole request: `PartnerAuth` is resolved first. -/
def requestDeliveryStatus (verify : String → String → Bool) (apiKeys : List PartnerApiKey)
    (db : Db) (now : Time) (authorization : Option String) (deliveryId : Uuid) :
    Except HttpException PartnerDeliveryStatusResponse :=
  match authenticatePartnerApiKey verify apiKeys now authorization with
  | .error e => .error e
  | .ok auth => getDeliveryStatus db auth deliveryId

/-! ## Authentication -/

/-- The row is usable and the key verifies against it. -/
structure Verifies (verify : String → String → Bool) (apiKey : String) (now : Time)
    (row : PartnerApiKey) : Prop where
  usable : row.Usable now
  verified : verify row.keyHash apiKey = true

/-- The row lets the key read statuses. -/
def Grants (verify : String → String → Bool) (apiKey : String) (now : Time)
    (row : PartnerApiKey) : Prop :=
  Verifies verify apiKey now row ∧ statusReadScope ∈ row.scopes

theorem expired_iff (row : PartnerApiKey) (now : Time) :
    (row.expiresAt.any fun expiresAt => decide (expiresAt ≤ now)) = true ↔
      ¬ ∀ expiresAt, row.expiresAt = some expiresAt → now < expiresAt := by
  cases row.expiresAt with
  | none => simp
  | some e => simp

/-- One turn of the loop: an unusable or foreign row is passed over, a row without the scope
is remembered, and a row that grants ends the loop. -/
theorem tryRows_cons (verify : String → String → Bool) (apiKey : String) (now : Time)
    (matched : Bool) (row : PartnerApiKey) (rows : List PartnerApiKey) :
    (Grants verify apiKey now row ∧
      tryRows verify apiKey now matched (row :: rows) = .ok ⟨row.partnerId⟩) ∨
    (Verifies verify apiKey now row ∧ ¬ Grants verify apiKey now row ∧
      tryRows verify apiKey now matched (row :: rows) = tryRows verify apiKey now true rows) ∨
    (¬ Verifies verify apiKey now row ∧
      tryRows verify apiKey now matched (row :: rows) =
        tryRows verify apiKey now matched rows) := by
  by_cases hv : Verifies verify apiKey now row
  · have hexp : ¬ (row.expiresAt.any fun expiresAt => decide (expiresAt ≤ now)) = true := by
      rw [expired_iff, not_not]
      exact hv.usable.2
    by_cases hscope : statusReadScope ∈ row.scopes
    · refine .inl ⟨⟨hv, hscope⟩, ?_⟩
      simp [tryRows, hv.usable.1, hexp, hv.verified, hscope]
    · refine .inr (.inl ⟨hv, fun h => hscope h.2, ?_⟩)
      simp [tryRows, hv.usable.1, hexp, hv.verified, hscope]
  · refine .inr (.inr ⟨hv, ?_⟩)
    by_cases hrev : row.revokedAt = none
    · by_cases hexp : (row.expiresAt.any fun expiresAt => decide (expiresAt ≤ now)) = true
      · simp [tryRows, hrev, hexp]
      · have hnot : verify row.keyHash apiKey = false := by
          rw [expired_iff, not_not] at hexp
          by_contra hne
          exact hv ⟨⟨hrev, hexp⟩, by simpa using hne⟩
        simp [tryRows, hrev, hexp, hnot]
    · simp [tryRows, hrev]

/-- What the loop answers: the partner of the first row that grants; without one, 403 if
some row verified the key and 401 otherwise. -/
theorem tryRows_spec (verify : String → String → Bool) (apiKey : String) (now : Time)
    (matched : Bool) (rows : List PartnerApiKey) :
    (∃ row ∈ rows, Grants verify apiKey now row ∧
      tryRows verify apiKey now matched rows = .ok ⟨row.partnerId⟩) ∨
    ((∀ row ∈ rows, ¬ Grants verify apiKey now row) ∧
      ((tryRows verify apiKey now matched rows = .error forbidden ∧
          (matched = true ∨ ∃ row ∈ rows, Verifies verify apiKey now row)) ∨
        (tryRows verify apiKey now matched rows = .error unauthorized ∧
          matched = false ∧ ∀ row ∈ rows, ¬ Verifies verify apiKey now row))) := by
  induction rows generalizing matched with
  | nil =>
    right
    refine ⟨nofun, ?_⟩
    cases matched with
    | true => exact .inl ⟨rfl, .inl rfl⟩
    | false => exact .inr ⟨rfl, rfl, nofun⟩
  | cons row rows ih =>
    rcases tryRows_cons verify apiKey now matched row rows with
      ⟨hg, he⟩ | ⟨hv, hng, he⟩ | ⟨hnv, he⟩
    · exact .inl ⟨row, List.mem_cons_self, hg, he⟩
    · rw [he]
      rcases ih true with ⟨r, hr, hg, he'⟩ | ⟨hnone, hrest⟩
      · exact .inl ⟨r, List.mem_cons_of_mem _ hr, hg, he'⟩
      · right
        refine ⟨List.forall_mem_cons.mpr ⟨hng, hnone⟩, .inl ?_⟩
        rcases hrest with ⟨he', -⟩ | ⟨-, hfalse, -⟩
        · exact ⟨he', .inr ⟨row, List.mem_cons_self, hv⟩⟩
        · cases hfalse
    · rw [he]
      have hng : ¬ Grants verify apiKey now row := fun h => hnv h.1
      rcases ih matched with ⟨r, hr, hg, he'⟩ | ⟨hnone, hrest⟩
      · exact .inl ⟨r, List.mem_cons_of_mem _ hr, hg, he'⟩
      · right
        refine ⟨List.forall_mem_cons.mpr ⟨hng, hnone⟩, ?_⟩
        rcases hrest with ⟨he', hm⟩ | ⟨he', hm, hall⟩
        · refine .inl ⟨he', hm.imp_right ?_⟩
          intro ⟨r, hr, hv⟩
          exact ⟨r, List.mem_cons_of_mem _ hr, hv⟩
        · exact .inr ⟨he', hm, List.forall_mem_cons.mpr ⟨hnv, hall⟩⟩

/-- A row of the table that lets the request read statuses. -/
def GrantedBy (verify : String → String → Bool) (apiKeys : List PartnerApiKey) (now : Time)
    (authorization : Option String) (row : PartnerApiKey) : Prop :=
  ∃ apiKey, parseBearerToken authorization = some apiKey ∧ row ∈ apiKeys ∧
    row.keyPrefix = extractPrefix apiKey ∧ Grants verify apiKey now row

/-- A row of the table that the bearer key verifies against, with or without the scope. -/
def VerifiedBy (verify : String → String → Bool) (apiKeys : List PartnerApiKey) (now : Time)
    (authorization : Option String) (row : PartnerApiKey) : Prop :=
  ∃ apiKey, parseBearerToken authorization = some apiKey ∧ row ∈ apiKeys ∧
    row.keyPrefix = extractPrefix apiKey ∧ Verifies verify apiKey now row

/-- The three outcomes of an authentication, by the rows of the table. -/
inductive Outcome (verify : String → String → Bool) (apiKeys : List PartnerApiKey) (now : Time)
    (authorization : Option String) : Except HttpException AuthenticatedPartner → Prop
  | success {row : PartnerApiKey} (hrow : GrantedBy verify apiKeys now authorization row) :
      Outcome verify apiKeys now authorization (.ok ⟨row.partnerId⟩)
  | wrongScope (hnone : ∀ row, ¬ GrantedBy verify apiKeys now authorization row)
      (hsome : ∃ row, VerifiedBy verify apiKeys now authorization row) :
      Outcome verify apiKeys now authorization (.error forbidden)
  | invalid (hnone : ∀ row, ¬ GrantedBy verify apiKeys now authorization row)
      (hnot : ∀ row, ¬ VerifiedBy verify apiKeys now authorization row) :
      Outcome verify apiKeys now authorization (.error unauthorized)

theorem authenticate_outcome (verify : String → String → Bool) (apiKeys : List PartnerApiKey)
    (now : Time) (authorization : Option String) :
    Outcome verify apiKeys now authorization
      (authenticatePartnerApiKey verify apiKeys now authorization) := by
  cases hparse : parseBearerToken authorization with
  | none =>
    have hauth : authenticatePartnerApiKey verify apiKeys now authorization =
        .error unauthorized := by
      rw [authenticatePartnerApiKey, hparse]
    rw [hauth]
    refine .invalid ?_ ?_
    · intro row ⟨apiKey, hkey, _⟩
      rw [hparse] at hkey
      cases hkey
    · intro row ⟨apiKey, hkey, _⟩
      rw [hparse] at hkey
      cases hkey
  | some apiKey =>
    have hauth : authenticatePartnerApiKey verify apiKeys now authorization =
        tryRows verify apiKey now false
          (apiKeys.filter fun row => row.keyPrefix = extractPrefix apiKey) := by
      rw [authenticatePartnerApiKey, hparse]
    have hmem (row : PartnerApiKey) :
        row ∈ (apiKeys.filter fun row => decide (row.keyPrefix = extractPrefix apiKey)) ↔
          row ∈ apiKeys ∧ row.keyPrefix = extractPrefix apiKey := by
      rw [List.mem_filter, decide_eq_true_eq]
    have hnotGranted (hnone : ∀ row ∈ apiKeys.filter fun row =>
        decide (row.keyPrefix = extractPrefix apiKey), ¬ Grants verify apiKey now row)
        (row : PartnerApiKey) : ¬ GrantedBy verify apiKeys now authorization row := by
      intro ⟨key, hkey, hrow, hpre, hg⟩
      obtain rfl := Option.some.inj (hparse.symm.trans hkey)
      exact hnone row ((hmem row).mpr ⟨hrow, hpre⟩) hg
    rw [hauth]
    rcases tryRows_spec verify apiKey now false
        (apiKeys.filter fun row => row.keyPrefix = extractPrefix apiKey) with
      ⟨row, hrow, hg, he⟩ | ⟨hnone, ⟨he, hsome⟩ | ⟨he, -, hall⟩⟩
    · obtain ⟨hin, hpre⟩ := (hmem row).mp hrow
      rw [he]
      exact .success ⟨apiKey, hparse, hin, hpre, hg⟩
    · rw [he]
      obtain ⟨row, hrow, hv⟩ := hsome.resolve_left nofun
      obtain ⟨hin, hpre⟩ := (hmem row).mp hrow
      exact .wrongScope (hnotGranted hnone) ⟨row, apiKey, hparse, hin, hpre, hv⟩
    · rw [he]
      refine .invalid (hnotGranted hnone) ?_
      intro row ⟨key, hkey, hrow, hpre, hv⟩
      obtain rfl := Option.some.inj (hparse.symm.trans hkey)
      exact hall row ((hmem row).mpr ⟨hrow, hpre⟩) hv

/-- argon2 accepts a key only against its own hash: of the stored rows at most one. -/
def OwnHashOnly (verify : String → String → Bool) (apiKeys : List PartnerApiKey) : Prop :=
  ∀ apiKey, ∀ row ∈ apiKeys, ∀ row' ∈ apiKeys,
    verify row.keyHash apiKey = true → verify row'.keyHash apiKey = true → row = row'

/-- The outcome depends on the set of rows only. -/
theorem authenticate_perm {verify : String → String → Bool} {apiKeys apiKeys' : List PartnerApiKey}
    (hown : OwnHashOnly verify apiKeys) (hperm : apiKeys'.Perm apiKeys) (now : Time)
    (authorization : Option String) :
    authenticatePartnerApiKey verify apiKeys' now authorization =
      authenticatePartnerApiKey verify apiKeys now authorization := by
  have hgranted (row : PartnerApiKey) : GrantedBy verify apiKeys' now authorization row ↔
      GrantedBy verify apiKeys now authorization row := by
    simp only [GrantedBy, hperm.mem_iff]
  have hverified (row : PartnerApiKey) : VerifiedBy verify apiKeys' now authorization row ↔
      VerifiedBy verify apiKeys now authorization row := by
    simp only [VerifiedBy, hperm.mem_iff]
  have h := authenticate_outcome verify apiKeys now authorization
  have h' := authenticate_outcome verify apiKeys' now authorization
  revert h h'
  generalize authenticatePartnerApiKey verify apiKeys' now authorization = result'
  generalize authenticatePartnerApiKey verify apiKeys now authorization = result
  intro h h'
  cases h with
  | @success row hrow =>
    cases h' with
    | @success row' hrow' =>
      obtain ⟨apiKey, hkey, hin, -, hg⟩ := hrow
      obtain ⟨key', hkey', hin', -, hg'⟩ := (hgranted row').mp hrow'
      obtain rfl := Option.some.inj (hkey.symm.trans hkey')
      rw [hown apiKey row hin row' hin' hg.1.verified hg'.1.verified]
    | wrongScope hnone | invalid hnone => exact absurd ((hgranted row).mpr hrow) (hnone row)
  | wrongScope hnone hsome =>
    obtain ⟨row, hrow⟩ := hsome
    cases h' with
    | @success row' hrow' => exact absurd ((hgranted row').mp hrow') (hnone row')
    | wrongScope => rfl
    | invalid _ hnot => exact absurd ((hverified row).mpr hrow) (hnot row)
  | invalid hnone hnot =>
    cases h' with
    | @success row' hrow' => exact absurd ((hgranted row').mp hrow') (hnone row')
    | wrongScope _ hsome =>
      obtain ⟨row, hrow⟩ := hsome
      exact absurd ((hverified row).mp hrow) (hnot row)
    | invalid => rfl

theorem authenticate_ok_iff (verify : String → String → Bool) (apiKeys : List PartnerApiKey)
    (now : Time) (authorization : Option String) :
    (∃ partner, authenticatePartnerApiKey verify apiKeys now authorization = .ok partner) ↔
      ∃ row, GrantedBy verify apiKeys now authorization row := by
  have h := authenticate_outcome verify apiKeys now authorization
  revert h
  generalize authenticatePartnerApiKey verify apiKeys now authorization = result
  intro h
  cases h with
  | @success row hrow => exact iff_of_true ⟨_, rfl⟩ ⟨row, hrow⟩
  | wrongScope hnone | invalid hnone =>
    exact iff_of_false (fun ⟨_, he⟩ => nomatch he) fun ⟨row, hrow⟩ => hnone row hrow

/-! ## Isolation -/

/-- The two states hold the same deliveries of the partner. -/
def SameDeliveries (partnerId : Nat) (db db' : Db) : Prop :=
  ∀ d, d.partnerId = partnerId → (d ∈ db.tables.deliveries ↔ d ∈ db'.tables.deliveries)

/-- The handler answers from the partner's deliveries. -/
theorem getDeliveryStatus_spec (db : Db) (auth : AuthenticatedPartner) (deliveryId : Uuid) :
    (∃ d ∈ db.tables.deliveries, d.partnerId = auth.partnerId ∧ d.publicId = deliveryId ∧
      getDeliveryStatus db auth deliveryId = .ok (toStatusResponse d)) ∨
    ((∀ d ∈ db.tables.deliveries, d.partnerId = auth.partnerId → d.publicId ≠ deliveryId) ∧
      getDeliveryStatus db auth deliveryId = .error notFound) := by
  cases hfind : db.tables.deliveries.find? fun d => d.publicId = deliveryId with
  | none =>
    right
    constructor
    · intro d hd _ hid
      have hnot := List.find?_eq_none.mp hfind d hd
      simp [hid] at hnot
    · rw [getDeliveryStatus, hfind]
  | some delivery =>
    obtain ⟨hmem, hid⟩ := Table.mem_of_find hfind
    have hid : delivery.publicId = deliveryId := by simpa using hid
    by_cases hown : delivery.partnerId = auth.partnerId
    · refine .inl ⟨delivery, hmem, hown, hid, ?_⟩
      rw [getDeliveryStatus, hfind]
      exact if_neg (not_not.mpr hown)
    · right
      constructor
      · intro d hd hpart hd'
        have he : d = delivery :=
          Table.eq_of_unique db.consistent.delivery_publicId hd hmem (hd'.trans hid.symm)
        exact hown (he ▸ hpart)
      · rw [getDeliveryStatus, hfind]
        exact if_pos hown

theorem getDeliveryStatus_same {partnerId : Nat} {db db' : Db}
    (hsame : SameDeliveries partnerId db db') (deliveryId : Uuid) :
    getDeliveryStatus db ⟨partnerId⟩ deliveryId = getDeliveryStatus db' ⟨partnerId⟩ deliveryId := by
  rcases getDeliveryStatus_spec db ⟨partnerId⟩ deliveryId with ⟨d, hd, hp, hid, he⟩ | ⟨hnone, he⟩
  · rcases getDeliveryStatus_spec db' ⟨partnerId⟩ deliveryId with
      ⟨d', hd', -, hid', he'⟩ | ⟨hnone', -⟩
    · have hsd : d = d' := Table.eq_of_unique db'.consistent.delivery_publicId
        ((hsame d hp).mp hd) hd' (hid.trans hid'.symm)
      rw [he, he', hsd]
    · exact absurd hid (hnone' d ((hsame d hp).mp hd) hp)
  · rcases getDeliveryStatus_spec db' ⟨partnerId⟩ deliveryId with
      ⟨d', hd', hp', hid', -⟩ | ⟨-, he'⟩
    · exact absurd hid' (hnone d' ((hsame d' hp').mpr hd') hp')
    · rw [he, he']

/-- The bearer key of the request verifies only against rows of the partner. -/
def KeyOf (verify : String → String → Bool) (apiKeys : List PartnerApiKey) (partnerId : Nat)
    (authorization : Option String) : Prop :=
  ∀ apiKey, parseBearerToken authorization = some apiKey →
    ∀ row ∈ apiKeys, verify row.keyHash apiKey = true → row.partnerId = partnerId

/-- Isolation: a request with a key of one partner gets the same response whatever the other
partners' deliveries are, and an id that is not of one of its deliveries is answered like an
unknown one. The outcome of the authentication does not depend on the order of the rows, and
it succeeds exactly when some row grants it. -/
theorem status_api_isolated (verify : String → String → Bool) (apiKeys : List PartnerApiKey)
    (now : Time) (authorization : Option String) :
    (∀ (partnerId : Nat) (db db' : Db) (deliveryId : Uuid),
      KeyOf verify apiKeys partnerId authorization → SameDeliveries partnerId db db' →
      requestDeliveryStatus verify apiKeys db now authorization deliveryId =
        requestDeliveryStatus verify apiKeys db' now authorization deliveryId) ∧
    (∀ (partnerId : Nat) (db : Db) (deliveryId unknownId : Uuid),
      KeyOf verify apiKeys partnerId authorization →
      (∀ d ∈ db.tables.deliveries, d.publicId = deliveryId → d.partnerId ≠ partnerId) →
      (∀ d ∈ db.tables.deliveries, d.publicId ≠ unknownId) →
      requestDeliveryStatus verify apiKeys db now authorization deliveryId =
        requestDeliveryStatus verify apiKeys db now authorization unknownId) ∧
    (OwnHashOnly verify apiKeys → ∀ apiKeys', apiKeys'.Perm apiKeys →
      authenticatePartnerApiKey verify apiKeys' now authorization =
        authenticatePartnerApiKey verify apiKeys now authorization) ∧
    ((∃ partner, authenticatePartnerApiKey verify apiKeys now authorization = .ok partner) ↔
      ∃ row, GrantedBy verify apiKeys now authorization row) := by
  -- whoever is authenticated by the key is the partner
  have hpartner {partnerId : Nat} (hkey : KeyOf verify apiKeys partnerId authorization)
      {auth : AuthenticatedPartner}
      (hauth : authenticatePartnerApiKey verify apiKeys now authorization = .ok auth) :
      auth = ⟨partnerId⟩ := by
    have h := authenticate_outcome verify apiKeys now authorization
    rw [hauth] at h
    cases h with
    | success hrow =>
      obtain ⟨apiKey, hparse, hin, -, hg⟩ := hrow
      rw [hkey apiKey hparse _ hin hg.1.verified]
  refine ⟨?_, ?_, ?_, authenticate_ok_iff verify apiKeys now authorization⟩
  · intro partnerId db db' deliveryId hkey hsame
    unfold requestDeliveryStatus
    cases hauth : authenticatePartnerApiKey verify apiKeys now authorization with
    | error e => rfl
    | ok auth =>
      obtain rfl := hpartner hkey hauth
      exact getDeliveryStatus_same hsame deliveryId
  · intro partnerId db deliveryId unknownId hkey hother hunknown
    unfold requestDeliveryStatus
    cases hauth : authenticatePartnerApiKey verify apiKeys now authorization with
    | error e => rfl
    | ok auth =>
      obtain rfl := hpartner hkey hauth
      simp only
      rcases getDeliveryStatus_spec db ⟨partnerId⟩ deliveryId with
        ⟨d, hd, hp, hid, -⟩ | ⟨-, he⟩
      · exact absurd hp (hother d hd hid)
      · rcases getDeliveryStatus_spec db ⟨partnerId⟩ unknownId with
          ⟨d, hd, -, hid, -⟩ | ⟨-, he'⟩
        · exact absurd hid (hunknown d hd)
        · rw [he, he']
  · intro hown apiKeys' hperm
    exact authenticate_perm hown hperm now authorization

/-- Two keys of partner 7 with one prefix; only the second may read statuses. -/
def sevenKeys : List PartnerApiKey :=
  [⟨1, 7, "pk_live_01234567", "pk_live_0123456789", ["inbound:write"], none, none⟩,
    ⟨2, 7, "pk_live_01234567", "pk_live_01234567ab", ["status:read"], some 100, none⟩]

/-- Partner 7 asks for the delivery of another partner, in a state that has it and in one
that has not. -/
theorem status_api_isolated_seven :
    ∃ db, Lib.System.exec (Db.step {}) Db.empty acceptedRun = some db ∧
      (∃ d ∈ db.tables.deliveries, d.publicId = 10 ∧ d.partnerId ≠ 7) ∧
      authenticatePartnerApiKey (fun hash key => hash = key) sevenKeys 5
        (some "Bearer pk_live_01234567ab") = .ok ⟨7⟩ ∧
      requestDeliveryStatus (fun hash key => hash = key) sevenKeys db 5
          (some "Bearer pk_live_01234567ab") 10 =
        requestDeliveryStatus (fun hash key => hash = key) sevenKeys Db.empty 5
          (some "Bearer pk_live_01234567ab") 10 := by
  refine ⟨_, rfl, ⟨_, List.mem_singleton.mpr rfl, rfl, by decide⟩, by decide +kernel, ?_⟩
  refine (status_api_isolated (fun hash key => hash = key) sevenKeys 5
    (some "Bearer pk_live_01234567ab")).1 7 _ _ 10 ?_ ?_
  · intro apiKey _ row hrow _
    fin_cases hrow <;> rfl
  · intro d hd
    refine iff_of_false ?_ List.not_mem_nil
    intro hmem
    obtain rfl := List.mem_singleton.mp hmem
    cases hd

end PartnerHub.PartnerApi
