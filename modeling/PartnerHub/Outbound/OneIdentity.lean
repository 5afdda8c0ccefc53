import PartnerHub.Outbound.StrictDuplicate
import PartnerHub.Outbound.WireIdentity

/-!
# One delivery, one identity on the wire

All POSTs and all later envelopes of a delivery agree. Its first envelope carries the
caller's key, so the agreement is whole only while nothing follows it.
-/
namespace PartnerHub.Outbound

open PartnerHub.Domain PartnerHub.Lib PartnerHub.Lib.Slots PartnerHub.Lib.System

/-- Two envelopes say the same about everything but the key, the attempt and the times. -/
structure SameContents (e f : OutboundEnvelope) : Prop where
  payload : e.payload = f.payload
  eventType : e.eventType = f.eventType
  endpointId : e.endpointId = f.endpointId
  slaDeadlineAt : e.slaDeadlineAt = f.slaDeadlineAt

/-- All POSTs for one delivery look the same to the partner, and no two deliveries of one
partner share a key. -/
structure PostsAgree (posts : List Post) : Prop where
  same : ∀ p ∈ posts, ∀ q ∈ posts, p.delivery = q.delivery → p.body = q.body ∧
    p.header "X-Hub-Delivery-Id" = q.header "X-Hub-Delivery-Id" ∧
    p.header "X-Hub-Event-Type" = q.header "X-Hub-Event-Type" ∧
    p.header "Idempotency-Key" = q.header "Idempotency-Key"
  distinct : ∀ p ∈ posts, ∀ q ∈ posts, p.partnerId = q.partnerId → p.delivery ≠ q.delivery →
    p.header "Idempotency-Key" ≠ q.header "Idempotency-Key"

/-- One delivery, one identity on the wire. -/
structure OneIdentity (s : Wire) : Prop where
  posts : PostsAgree s.posts
  contents : ∀ x ∈ s.envelopes, ∀ y ∈ s.envelopes, x.2.deliveryId = y.2.deliveryId →
    SameContents x.2 y.2
  keys : ∀ x ∈ s.envelopes, ∀ y ∈ s.envelopes, x.2.deliveryId = y.2.deliveryId →
    x.2.idempotencyKey = y.2.idempotencyKey
  posted : ∀ x ∈ s.envelopes, ∀ p ∈ s.posts, x.2.deliveryId = p.delivery →
    p.header "Idempotency-Key" = some x.2.idempotencyKey

/-- What the code keeps: the same, but for the key of the first envelope, which is the
caller's and not the one derived from it that the row and all later messages have. -/
structure OneIdentityAfterFirst (s : Wire) : Prop where
  posts : PostsAgree s.posts
  contents : ∀ x ∈ s.envelopes, ∀ y ∈ s.envelopes, x.2.deliveryId = y.2.deliveryId →
    SameContents x.2 y.2
  keys : ∀ x ∈ s.envelopes, x.1 ≠ .accepted → ∀ y ∈ s.envelopes, y.1 ≠ .accepted →
    x.2.deliveryId = y.2.deliveryId → x.2.idempotencyKey = y.2.idempotencyKey
  posted : ∀ x ∈ s.envelopes, x.1 ≠ .accepted → ∀ p ∈ s.posts, x.2.deliveryId = p.delivery →
    p.header "Idempotency-Key" = some x.2.idempotencyKey
  first : ∀ x ∈ s.envelopes, x.1 = .accepted → ∀ p ∈ s.posts, x.2.deliveryId = p.delivery →
    p.header "Idempotency-Key" =
      some (derivedIdempotencyKey x.2.idempotencyKey x.2.endpointId)

/-- Nothing but the first envelope is sent: no worker POSTs or meets an open circuit, and
no replay has read FAILED. -/
def Silent (digest : Secret → List UInt8 → List UInt8) (s : Wire) : WireAction → Prop
  | .post w input => ∀ ctx, s.txns.workers w = some ctx → postOf digest ctx input = none
  | .txn (.commit w input) => ∀ ctx, s.txns.workers w = some ctx → ¬ MeetsOpenCircuit ctx input
  | .txn (.commitReplay r _) => ∀ row, s.txns.replays r = some row → row.1.status ≠ .failed
  | .txn _ => True

section Runs

variable {digest : Secret → List UInt8 → List UInt8} {settings : Settings} {s s' : Wire}

def Wire.rows (s : Wire) : List DeliveryIdentity := s.txns.db.tables.identities

/-- Everything on the wire is about a stored row, and every row has its first envelope. -/
structure WireInv (s : Wire) : Prop where
  copies : CopiesRows s.txns
  sent : ∀ w input, s.sent w = some input → s.posts ≠ []
  envelopes : ∀ x ∈ s.envelopes, ∃ i ∈ s.rows, Speaks x i
  posts : ∀ p ∈ s.posts, ∃ i ∈ s.rows, p.Shows i
  announced : ∀ i ∈ s.rows, ∃ x ∈ s.envelopes, x.1 = .accepted ∧ x.2.deliveryId = i.publicId

theorem wireInv_init : WireInv Wire.init where
  copies := ⟨by simp [Wire.init, Txns.init], by simp [Wire.init, Txns.init]⟩
  sent := by simp [Wire.init]
  envelopes := by simp [Wire.init]
  posts := by simp [Wire.init]
  announced := by simp [Wire.init, Wire.rows, Txns.init, Db.empty, Tables.identities]

/-- What a step of the transactions changes on the wire. -/
structure Advanced (settings : Settings) (s : Wire) (a : TxnAction) (s' : Wire) : Prop where
  step : s.txns.step settings a = some s'.txns
  sent : ∀ w input, s'.sent w = some input → s.sent w = some input
  posts : s'.posts = s.posts
  envelopes : s'.envelopes = s.envelopes ++ s.txns.produced settings a

theorem advanced_of_advance {a : TxnAction} {sent : Nat → Option ProcessInput}
    (hsent : ∀ w input, sent w = some input → s.sent w = some input)
    (h : s.advance settings a sent = some s') : Advanced settings s a s' := by
  obtain ⟨t, ht, rfl⟩ := Option.map_eq_some_iff.mp h
  exact ⟨ht, hsent, rfl, rfl⟩

/-- What the transaction of a step is given: a commit what the worker learned. -/
def Wire.given (digest : Secret → List UInt8 → List UInt8) (s : Wire) : TxnAction → TxnAction
  | .commit w input =>
    match s.txns.workers w with
    | none => .commit w input
    | some ctx => .commit w (ctx.learned digest input.signingSecret input)
  | a => a

theorem advanced_of_step {a : TxnAction} (h : s.step digest settings (.txn a) = some s') :
    Advanced settings s (s.given digest a) s' := by
  cases a with
  | commit w input =>
    simp only [Wire.step] at h
    split at h
    · cases h
    · rename_i ctx hctx
      split at h
      · simp only [Wire.given, hctx]
        exact advanced_of_advance (fun w' input' hw => (update_none_some hw).1) h
      · cases h
  | abort w => exact advanced_of_advance (fun w' input' hw => (update_none_some hw).1) h
  | operation op | read w i | readReplay r i | commitReplay r req | abortReplay r =>
    exact advanced_of_advance (fun _ _ hw => hw) h

theorem wireInv_advanced {a : TxnAction} (h : WireInv s) (ha : Advanced settings s a s') :
    WireInv s' := by
  have hev := evolves_of_step h.copies ha.step
  refine ⟨hev.copies, ?_, ?_, ?_, ?_⟩
  · exact fun w input hw => ha.posts ▸ h.sent w input (ha.sent w input hw)
  · intro x hx
    rw [ha.envelopes] at hx
    rcases List.mem_append.mp hx with hold | hnew
    · obtain ⟨i, hi, hsp⟩ := h.envelopes x hold
      exact ⟨i, hev.kept i hi, hsp⟩
    · exact hev.produced x hnew
  · intro p hp
    obtain ⟨i, hi, hsh⟩ := h.posts p (ha.posts ▸ hp)
    exact ⟨i, hev.kept i hi, hsh⟩
  · intro i hi
    rw [ha.envelopes]
    rcases hev.announced i hi with hold | ⟨x, hx, hrest⟩
    · obtain ⟨x, hx, hrest⟩ := h.announced i hold
      exact ⟨x, List.mem_append_left _ hx, hrest⟩
    · exact ⟨x, List.mem_append_right _ hx, hrest⟩

theorem post_of_step {w : Nat} {input : ProcessInput}
    (h : s.step digest settings (.post w input) = some s') :
    ∃ ctx p, s.txns.workers w = some ctx ∧ postOf digest ctx input = some p ∧
      s' = { s with sent := Function.update s.sent w (some input), posts := s.posts ++ [p] } := by
  simp only [Wire.step] at h
  split at h
  · rename_i ctx hctx hfree
    obtain ⟨p, hp, rfl⟩ := Option.map_eq_some_iff.mp h
    exact ⟨ctx, p, hctx, hp, rfl⟩
  · cases h

theorem wireInv_step {a : WireAction} (h : WireInv s) (hs : s.step digest settings a = some s') :
    WireInv s' := by
  cases a with
  | txn a => exact wireInv_advanced h (advanced_of_step hs)
  | post w input =>
    obtain ⟨ctx, p, hctx, hp, rfl⟩ := post_of_step hs
    refine ⟨h.copies, fun _ _ _ => by simp, h.envelopes, ?_, h.announced⟩
    intro q hq
    rcases List.mem_append.mp hq with hold | hnew
    · exact h.posts q hold
    · rw [List.mem_singleton.mp hnew]
      exact ⟨_, h.copies.workers w ctx hctx, post_shows hp⟩

section Agreement

variable {x y : Origin × OutboundEnvelope} {p q : Post}

theorem Speaks.rowKey_of_later {i : DeliveryIdentity} (h : Speaks x i) (hx : x.1 ≠ .accepted) :
    i.idempotencyKey = x.2.idempotencyKey := by
  rw [h.key, Origin.rowKey, if_neg hx]

theorem Speaks.rowKey_of_first {i : DeliveryIdentity} (h : Speaks x i) (hx : x.1 = .accepted) :
    i.idempotencyKey = derivedIdempotencyKey x.2.idempotencyKey x.2.endpointId := by
  rw [h.key, Origin.rowKey, if_pos hx]

/-- Two envelopes of one delivery speak of one row. -/
theorem WireInv.one_row (h : WireInv s) (hx : x ∈ s.envelopes) (hy : y ∈ s.envelopes)
    (he : x.2.deliveryId = y.2.deliveryId) : ∃ i, Speaks x i ∧ Speaks y i := by
  obtain ⟨i, hi, hxi⟩ := h.envelopes x hx
  obtain ⟨j, hj, hyj⟩ := h.envelopes y hy
  have hij : i = j := identity_of_publicId hi hj
    (hxi.names.deliveryId.symm.trans (he.trans hyj.names.deliveryId))
  exact ⟨i, hxi, hij ▸ hyj⟩

/-- So do an envelope and a POST. -/
theorem WireInv.posted_row (h : WireInv s) (hx : x ∈ s.envelopes) (hp : p ∈ s.posts)
    (he : x.2.deliveryId = p.delivery) : ∃ i, Speaks x i ∧ p.Shows i := by
  obtain ⟨i, hi, hxi⟩ := h.envelopes x hx
  obtain ⟨j, hj, hpj⟩ := h.posts p hp
  have hij : i = j := identity_of_publicId hi hj
    (hxi.names.deliveryId.symm.trans (he.trans hpj.delivery))
  exact ⟨i, hxi, hij ▸ hpj⟩

theorem postsAgree_of_wireInv (h : WireInv s) : PostsAgree s.posts := by
  constructor
  · intro p hp q hq he
    obtain ⟨i, hi, hpi⟩ := h.posts p hp
    obtain ⟨j, hj, hqj⟩ := h.posts q hq
    obtain rfl : i = j := identity_of_publicId hi hj
      (hpi.delivery.symm.trans (he.trans hqj.delivery))
    exact ⟨hpi.body.trans hqj.body.symm, hpi.deliveryId.trans hqj.deliveryId.symm,
      hpi.eventType.trans hqj.eventType.symm, hpi.idempotencyKey.trans hqj.idempotencyKey.symm⟩
  · intro p hp q hq hpartner hne hkey
    obtain ⟨i, hi, hpi⟩ := h.posts p hp
    obtain ⟨j, hj, hqj⟩ := h.posts q hq
    have hk : i.idempotencyKey = j.idempotencyKey :=
      Option.some.inj (hpi.idempotencyKey.symm.trans (hkey.trans hqj.idempotencyKey))
    have hij : i = j := identity_of_key hi hj
      (hpi.partnerId.symm.trans (hpartner.trans hqj.partnerId)) hk
    exact hne (hpi.delivery.trans (hij ▸ hqj.delivery.symm))

theorem contents_of_wireInv (h : WireInv s) (hx : x ∈ s.envelopes) (hy : y ∈ s.envelopes)
    (he : x.2.deliveryId = y.2.deliveryId) : SameContents x.2 y.2 := by
  obtain ⟨i, hxi, hyi⟩ := h.one_row hx hy he
  exact ⟨hxi.names.payload.trans hyi.names.payload.symm,
    hxi.names.eventType.trans hyi.names.eventType.symm,
    hxi.names.endpointId.trans hyi.names.endpointId.symm,
    hxi.names.slaDeadlineAt.trans hyi.names.slaDeadlineAt.symm⟩

theorem oneIdentityAfterFirst_of_wireInv (h : WireInv s) : OneIdentityAfterFirst s where
  posts := postsAgree_of_wireInv h
  contents := fun x hx y hy he => contents_of_wireInv h hx hy he
  keys := by
    intro x hx hlx y hy hly he
    obtain ⟨i, hxi, hyi⟩ := h.one_row hx hy he
    exact (hxi.rowKey_of_later hlx).symm.trans (hyi.rowKey_of_later hly)
  posted := by
    intro x hx hlx p hp he
    obtain ⟨i, hxi, hpi⟩ := h.posted_row hx hp he
    rw [hpi.idempotencyKey, hxi.rowKey_of_later hlx]
  first := by
    intro x hx hfx p hp he
    obtain ⟨i, hxi, hpi⟩ := h.posted_row hx hp he
    rw [hpi.idempotencyKey, hxi.rowKey_of_first hfx]

/-- Only first envelopes are on the wire. -/
structure Quiet (s : Wire) : Prop where
  posts : s.posts = []
  envelopes : ∀ x ∈ s.envelopes, x.1 = .accepted

/-- Whatever follows a first envelope has another key. -/
theorem oneIdentity_iff_quiet (h : WireInv s) : OneIdentity s ↔ Quiet s := by
  constructor
  · intro hone
    constructor
    · refine List.eq_nil_iff_forall_not_mem.mpr fun p hp => ?_
      obtain ⟨i, hi, hpi⟩ := h.posts p hp
      obtain ⟨x, hx, hfx, hid⟩ := h.announced i hi
      have he : x.2.deliveryId = p.delivery := hid.trans hpi.delivery.symm
      have hclaimed := hone.posted x hx p hp he
      have hactual := (oneIdentityAfterFirst_of_wireInv h).first x hx hfx p hp he
      exact derivedIdempotencyKey_ne _ _ (Option.some.inj (hactual.symm.trans hclaimed))
    · intro y hy
      by_contra hly
      obtain ⟨i, hi, hyi⟩ := h.envelopes y hy
      obtain ⟨x, hx, hfx, hid⟩ := h.announced i hi
      have he : x.2.deliveryId = y.2.deliveryId := hid.trans hyi.names.deliveryId.symm
      obtain ⟨j, hxj, hyj⟩ := h.one_row hx hy he
      have hkey := (hxj.rowKey_of_first hfx).symm.trans (hyj.rowKey_of_later hly)
      rw [← hone.keys x hx y hy he] at hkey
      exact derivedIdempotencyKey_ne _ _ hkey
  · intro hq
    refine ⟨postsAgree_of_wireInv h, fun x hx y hy he => contents_of_wireInv h hx hy he, ?_, ?_⟩
    · intro x hx y hy he
      obtain ⟨i, hxi, hyi⟩ := h.one_row hx hy he
      have hkey := (hxi.rowKey_of_first (hq.envelopes x hx)).symm.trans
        (hyi.rowKey_of_first (hq.envelopes y hy))
      exact (derivedIdempotencyKey_injective hkey).1
    · intro x hx p hp
      rw [hq.posts] at hp
      cases hp

end Agreement

theorem quiet_advanced {a : TxnAction} (hq : Quiet s) (ha : Advanced settings s a s') :
    Quiet s' ↔ ∀ x ∈ s.txns.produced settings a, x.1 = .accepted := by
  constructor
  · intro h x hx
    exact h.envelopes x (ha.envelopes ▸ List.mem_append_right _ hx)
  · intro h
    refine ⟨ha.posts.trans hq.posts, ?_⟩
    intro x hx
    rw [ha.envelopes] at hx
    rcases List.mem_append.mp hx with hold | hnew
    · exact hq.envelopes x hold
    · exact h x hnew

/-- No POST is out where none was sent. -/
theorem WireInv.unsent (h : WireInv s) (hq : Quiet s) (w : Nat) : s.sent w = none := by
  cases hs : s.sent w with
  | none => rfl
  | some input => exact absurd hq.posts (h.sent w input hs)

/-- A replay's commit adds an envelope exactly when it read FAILED. -/
theorem replay_silent_iff {db : Db} {row : Delivery × Partner} {req : ReplayRequest} :
    newEnvelopes db.tables (db.afterReplay row req).tables = [] ↔ row.1.status ≠ .failed := by
  unfold Db.afterReplay
  cases h : replayDelivery (some row) req with
  | error m =>
    have hno : newEnvelopes db.tables db.tables = [] := by simp [newEnvelopes]
    refine iff_of_true hno fun hf => ?_
    simp [replayDelivery, hf, transition, canTransition, validTransitions] at h
  | ok sess =>
    obtain ⟨loaded, partner, hrow, hr⟩ := replay_cases h
    cases hrow
    obtain ⟨e, hpay, -⟩ := replay_envelope h
    have hmem : e ∈ newEnvelopes db.tables (db.commitReplay sess).tables :=
      (mem_newEnvelopes rfl).mpr ⟨_, List.mem_singleton_self _, hpay⟩
    exact iff_of_false (List.ne_nil_of_mem hmem) fun hne => hne hr.failed

theorem retry_silent_iff (digest : Secret → List UInt8 → List UInt8) (settings : Settings)
    {db : Db} {ctx : Context} {input : ProcessInput} (hpost : postOf digest ctx input = none) :
    retryEnvelope settings db ctx (ctx.learned digest input.signingSecret input) = none ↔
      ¬ MeetsOpenCircuit ctx input := by
  constructor
  · intro hnone hopen
    obtain ⟨e, he⟩ := open_circuit_retries digest settings db hopen
    rw [hnone] at he
    cases he
  · intro hclosed
    cases he : retryEnvelope settings db ctx (ctx.learned digest input.signingSecret input) with
    | none => rfl
    | some e => exact absurd (retry_unposted hpost he) hclosed

theorem map_origin_accepted {o : Origin} (ho : o ≠ .accepted) (es : List OutboundEnvelope) :
    (∀ x ∈ es.map (o, ·), x.1 = .accepted) ↔ es = [] := by
  cases es with
  | nil => simp
  | cons e es => simp [ho]

/-- While nothing but first envelopes is on the wire, a step leaves it so exactly when it
is silent. -/
theorem quiet_step_iff {a : WireAction} (h : WireInv s) (hq : Quiet s)
    (hs : s.step digest settings a = some s') : Quiet s' ↔ Silent digest s a := by
  cases a with
  | post w input =>
    obtain ⟨ctx, p, hctx, hp, rfl⟩ := post_of_step hs
    refine iff_of_false (fun hq' => by simpa using hq'.posts) fun hsilent => ?_
    rw [hsilent ctx hctx] at hp
    cases hp
  | txn a =>
    rw [quiet_advanced hq (advanced_of_step hs)]
    cases a with
    | operation op =>
      refine iff_of_true ?_ trivial
      intro x hx
      obtain ⟨e, -, rfl⟩ := List.mem_map.mp hx
      rfl
    | commit w input =>
      simp only [Wire.step] at hs
      split at hs
      · cases hs
      · rename_i ctx hctx
        split at hs
        · rename_i hsent
          have hpost : postOf digest ctx input = none := by
            rw [h.unsent hq w] at hsent
            exact Option.map_eq_none_iff.mp hsent.symm
          simp only [Wire.given, hctx, Txns.produced, Silent, Option.some.injEq,
            forall_eq']
          rw [map_origin_accepted (by decide), Option.toList_eq_nil_iff,
            retry_silent_iff digest settings hpost]
        · cases hs
    | commitReplay r req =>
      simp only [Wire.given, Txns.produced, Silent]
      cases hrow : s.txns.replays r with
      | none => simp
      | some row =>
        simp only [Option.some.injEq, forall_eq']
        rw [map_origin_accepted (by decide), replay_silent_iff]
    | read | abort | readReplay | abortReplay =>
      exact iff_of_true (by simp [Wire.given, Txns.produced]) trivial

/-- A step that is not enabled sends nothing. -/
theorem silent_of_idle {a : WireAction} (h : WireInv s) (hq : Quiet s)
    (hs : s.step digest settings a = none) : Silent digest s a := by
  cases a with
  | post w input =>
    intro ctx hctx
    simpa [Wire.step, hctx, h.unsent hq w] using hs
  | txn a =>
    cases a with
    | commit w input =>
      intro ctx hctx hopen
      cases hp : postOf digest ctx input with
      | some p =>
        have hgranted := post_granted hp
        rw [hopen.denied] at hgranted
        cases hgranted
      | none => simp [Wire.step, hctx, h.unsent hq w, hp, Wire.advance, Txns.step] at hs
    | commitReplay r req =>
      intro row hrow
      simp [Wire.step, Wire.advance, Txns.step, hrow] at hs
    | operation | read | abort | readReplay | abortReplay => trivial

/-- In every run everything that is said of a delivery agrees, but for the key of its
first envelope, from which the row's key is derived. All of it agrees in exactly the runs
in which nothing but first envelopes is ever sent. -/
theorem one_identity_iff (digest : Secret → List UInt8 → List UInt8) (settings : Settings)
    (as : List WireAction) :
    Throughout (Wire.step digest settings) OneIdentityAfterFirst Wire.init as ∧
    (Throughout (Wire.step digest settings) OneIdentity Wire.init as ↔
      Along (Wire.step digest settings) (Silent digest) Wire.init as) := by
  constructor
  · have hall : Along (Wire.step digest settings) (fun _ _ => True) Wire.init as :=
      along_of_forall fun _ _ _ => trivial
    exact throughout_of_invariant WireInv (fun _ _ _ h _ hs => wireInv_step h hs)
      (fun _ h => oneIdentityAfterFirst_of_wireInv h) wireInv_init hall
  · have hinit : OneIdentity Wire.init :=
      (oneIdentity_iff_quiet wireInv_init).mpr ⟨rfl, by simp [Wire.init]⟩
    refine throughout_iff_along (I := WireInv) (fun _ _ _ h _ hs => wireInv_step h hs) ?_ ?_
      wireInv_init hinit
    · intro s a s' h hone hs
      have hq := (oneIdentity_iff_quiet h).mp hone
      exact (oneIdentity_iff_quiet (wireInv_step h hs)).trans (quiet_step_iff h hq hs)
    · intro s a h hone hs
      exact silent_of_idle h ((oneIdentity_iff_quiet h).mp hone) hs

end Runs

/-- The first delivery of a partner is accepted and read by a worker. -/
def acceptedAndRead : List WireAction :=
  (acceptedWith "k").map (fun op => .txn (.operation op)) ++ [.txn (.read 0 10)]

/-- The row the worker has, whether its POST is out, and the keys on the wire. -/
def Wire.seen (s : Wire) : Option Delivery × Option ProcessInput × List (Uuid × String) :=
  ((s.txns.workers 0).map (·.delivery), s.sent 0,
    s.envelopes.map fun x => (x.2.deliveryId, x.2.idempotencyKey))

/-- The first POST does not have the key its envelope carried. -/
theorem first_envelope_has_callers_key :
    ¬ Throughout (Wire.step (fun _ _ => []) {}) OneIdentity Wire.init
      (acceptedAndRead ++ [.post 0 (answer 1 200)]) := by
  have hrun : (exec (Wire.step (fun _ _ => []) {}) Wire.init acceptedAndRead).map Wire.seen =
      some (some (acceptedDelivery "k"), none, [(10, "k")]) := by
    decide +kernel
  obtain ⟨s, hs, hseen⟩ := Option.map_eq_some_iff.mp hrun
  obtain ⟨hrow, hrest⟩ := Prod.mk.inj hseen
  obtain ⟨hfree, henv⟩ := Prod.mk.inj hrest
  obtain ⟨ctx, hctx, hd⟩ := Option.map_eq_some_iff.mp hrow
  obtain ⟨x, hx, hxk⟩ := List.mem_map.mp (henv ▸ List.mem_cons_self)
  have hsecret : (answer 1 200).signingSecret = some [1] := rfl
  have hidem : Ascii ctx.delivery.idempotencyKey := hd ▸ ascii_accepted (by simp [Ascii])
  obtain ⟨p, hp⟩ := postOf_of_ascii (fun _ _ => []) (by rw [hd]; decide) hsecret rfl
    (by simp [hd, Ascii, acceptedDelivery, buildPendingDelivery, acmeRequest]) hidem
    (by simp [hd, Ascii, acceptedDelivery, buildPendingDelivery, acmeRequest])
  have hstep : s.step (fun _ _ => []) {} (.post 0 (answer 1 200)) = some
      { s with
        sent := Function.update s.sent 0 (some (answer 1 200))
        posts := s.posts ++ [p] } := by
    simp [Wire.step, hctx, hfree, hp]
  intro h
  have hlast := h.last (by rw [exec_append, hs, Option.bind_some, exec_cons, hstep]; rfl)
  have hshown := post_shows hp
  have hkey := hlast.posted x hx p (List.mem_append_right _ List.mem_cons_self)
    ((Prod.mk.inj hxk).1.trans (by rw [hshown.delivery, hd]; rfl))
  rw [hshown.idempotencyKey, (Prod.mk.inj hxk).2, hd] at hkey
  exact derivedIdempotencyKey_ne "k" 2 (Option.some.inj hkey)

end PartnerHub.Outbound
