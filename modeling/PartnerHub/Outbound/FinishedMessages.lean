import PartnerHub.Outbound.Consumer
import PartnerHub.Outbound.DeadLetterRounds
import PartnerHub.Secrets.SigningSecrets

/-!
# Messages a worker can finish

`process_outbound_message` with everything that can raise in it while the database, Redis
and Kafka work: the read of the signing secret, the header encoding and the httpx call,
the texts and the constraints of the commit. A call that raises ends the worker before the
offset is committed, so the message comes back ahead of all later ones.
-/
namespace PartnerHub.Outbound

open PartnerHub.Domain PartnerHub.Lib PartnerHub.Lib.System PartnerHub.Secrets

inductive RunError where
  | secret (e : SecretError)
  | worker (e : WorkerError)
  deriving DecidableEq

/-- The call of `build_outbound_headers`. -/
def Context.headers (digest : Secret → List UInt8 → List UInt8) (ctx : Context) (now : Time)
    (signingSecret : Secret) : List (String × String) :=
  buildOutboundHeaders digest (Uuid.text ctx.delivery.publicId) ctx.delivery.eventType
    (timestampText now) (serializePayload ctx.delivery.payload) signingSecret
    ctx.delivery.idempotencyKey ctx.delivery.correlationId

/-- The input with the secret that was loaded and the reply the headers get. -/
def Context.learned (digest : Secret → List UInt8 → List UInt8) (ctx : Context)
    (secret : Option Secret) (input : ProcessInput) : ProcessInput :=
  { input with
    signingSecret := secret
    reply := match secret with
      | none => input.reply
      | some key => httpxPost (ctx.headers digest input.now key) input.reply }

/-- `process_outbound_message` from the read to the commit, with every exception it lets
through. `input.reply` is what httpx does with encoded headers. -/
def Db.runOutboundMessage (digest : Secret → List UInt8 → List UInt8)
    (decrypt : Secret → Option Secret) (settings : Settings) (db : Db) (secrets : SecretStore)
    (deliveryId : Uuid) (input : ProcessInput) :
    Except RunError (Db × ProcessOutcome × Option Message) :=
  match db.tables.fetchDeliveryContext deliveryId with
  | none => .ok (db, .skipped, none)
  | some ctx =>
    if ctx.delivery.status ∉ deliveringSources then .ok (db, .skipped, none)
    else
      match secrets.loadOutboundPrimarySecret decrypt ctx.partner.id with
      | .error e => .error (.secret e)
      | .ok secret =>
        (db.processOutboundMessage settings deliveryId
          (ctx.learned digest secret input)).mapError .worker

/-- How `_handle_message` goes on after the call: it commits the offset, or the exception
ends the worker. -/
def handlerActions {α : Type} (w : Nat) : Except RunError α → List ConsumerAction
  | .ok _ => [.worker w .returned, .worker w (.commit .returned)]
  | .error _ => [.worker w .raised]

/-- A message of a batch: where it lies, and what the worker's batch holds behind it. -/
structure BatchPosition where
  tp : TopicPartition
  offset : Nat
  offsets : List Nat
  rest : List (TopicPartition × List Nat)

/-- Worker `w` awaits `process_outbound_message` for a message of the delivery. -/
structure Group.Handles (g : Group) (w : Nat) (deliveryId : Uuid) (p : BatchPosition) : Prop where
  message : ∃ m, (g.log p.tp)[p.offset]? = some m ∧ m.value.deliveryId = some deliveryId
  worker : ∃ x, g.workers w = some x ∧ x.control = .handling .processing ∧
    x.batch = (p.tp, p.offset :: p.offsets) :: p.rest

/-- The offset is committed and the worker is about to take the next message. -/
structure Group.MovedOn (g : Group) (w : Nat) (p : BatchPosition) : Prop where
  committed : g.committed p.tp = some (p.offset + 1)
  worker : ∃ x, g.workers w = some x ∧ x.control = .iterating ∧
    x.batch = (p.tp, p.offsets) :: p.rest

/-- The call returns one of the four outcomes and the worker gets past the message. -/
structure Finished (digest : Secret → List UInt8 → List UInt8) (decrypt : Secret → Option Secret)
    (settings : Settings) (db : Db) (secrets : SecretStore) (deliveryId : Uuid)
    (input : ProcessInput) (g : Group) (w : Nat) (p : BatchPosition) : Prop where
  returned : ∃ db' outcome publish,
    db.runOutboundMessage digest decrypt settings secrets deliveryId input =
      .ok (db', outcome, publish)
  movedOn : ∃ g', exec Group.step g (handlerActions w
    (db.runOutboundMessage digest decrypt settings secrets deliveryId input)) = some g' ∧
      g'.MovedOn w p

/-- What a POST of the delivery needs. -/
structure Postable (d : Delivery) (reply : HttpxReply) : Prop where
  eventType : Ascii d.eventType
  idempotencyKey : Ascii d.idempotencyKey
  correlationId : Ascii d.correlationId
  reply : Recordable reply

/-- The condition: the partner of an open delivery has at most one PRIMARY secret, and
where there is a secret and the circuit lets the POST through, the three texts of the
headers are ASCII and the reply can be recorded. -/
def Finishable (decrypt : Secret → Option Secret) (secrets : SecretStore) (d : Delivery)
    (input : ProcessInput) : Prop :=
  d.status.Open →
    (secrets.rows.filter (hasStatus d.partnerId .primary)).length ≤ 1 ∧
    ((∃ key, secrets.loadOutboundPrimarySecret decrypt d.partnerId = .ok (some key)) →
      input.allowOutbound = true → Postable d input.reply)

/-- The reply to the headers can be recorded exactly when they are ASCII and the reply of
the partner can be recorded. -/
theorem learned_recordable (digest : Secret → List UInt8 → List UInt8) (ctx : Context)
    (key : Secret) (input : ProcessInput) :
    Recordable (ctx.learned digest (some key) input).reply ↔
      Postable ctx.delivery input.reply := by
  have hascii := headers_ascii_iff digest ctx.delivery.publicId input.now
    (serializePayload ctx.delivery.payload) key ctx.delivery.eventType
    ctx.delivery.idempotencyKey ctx.delivery.correlationId
  simp only [Context.learned, httpxPost]
  by_cases hall : ∀ h ∈ ctx.headers digest input.now key, Ascii h.2
  · obtain ⟨htype, hkey, hcorr⟩ := hascii.mp hall
    rw [if_pos hall]
    exact ⟨fun hr => ⟨htype, hkey, hcorr, hr⟩, fun hp => hp.reply⟩
  · rw [if_neg hall]
    refine iff_of_false id fun hp => hall ?_
    exact hascii.mpr ⟨hp.eventType, hp.idempotencyKey, hp.correlationId⟩

section Runs

variable {digest : Secret → List UInt8 → List UInt8} {decrypt : Secret → Option Secret}
  {settings : Settings} {db : Db} {secrets : SecretStore} {i : Uuid} {ctx : Context}
  {input : ProcessInput} {secret : Option Secret}

/-- A call that returns did what the complete operation does with the loaded secret and the
reply to the headers. -/
theorem run_refines {r : Db × ProcessOutcome × Option Message}
    (hctx : db.tables.fetchDeliveryContext i = some ctx)
    (hload : secrets.loadOutboundPrimarySecret decrypt ctx.partner.id = .ok secret)
    (h : db.runOutboundMessage digest decrypt settings secrets i input = .ok r) :
    db.processOutboundMessage settings i (ctx.learned digest secret input) = .ok r := by
  simp only [Db.runOutboundMessage, hctx, hload] at h
  split at h
  · rename_i hclosed
    rw [Db.processOutboundMessage, hctx]
    simp only [processDelivery, if_pos hclosed, ite_self]
    exact Except.ok.inj h ▸ rfl
  · cases hp : db.processOutboundMessage settings i (ctx.learned digest secret input) with
    | error e => simp [hp, Except.mapError] at h
    | ok r' =>
      rw [hp] at h
      exact congrArg Except.ok (Except.ok.inj h)

/-- An open delivery that was never replayed: the call returns exactly when the reply can be
recorded. -/
theorem run_open_iff (hrounds : Rounds db.tables) (hnr : ¬ Replayed db.tables i)
    (hctx : db.tables.fetchDeliveryContext i = some ctx) (ho : ctx.delivery.status.Open)
    (hload : secrets.loadOutboundPrimarySecret decrypt ctx.partner.id = .ok secret) :
    (∃ db' out pub, db.runOutboundMessage digest decrypt settings secrets i input =
        .ok (db', out, pub)) ↔ (ctx.learned digest secret input).Recordable := by
  rw [← stores_iff_recordable settings ho]
  simp only [Db.runOutboundMessage, hctx, hload, if_neg (open_checks ho).2,
    Db.processOutboundMessage]
  cases hv : processDelivery settings ctx (ctx.learned digest secret input) with
  | error e => simp [Except.mapError]
  | ok v =>
    cases v with
    | skip => exact absurd ho (process_skip hv)
    | commit s pub out =>
      dsimp only
      cases hc : db.commit s with
      | error e =>
        refine iff_of_false (by simp [Except.mapError]) ?_
        rintro ⟨s', pub', out', he, hs⟩
        obtain ⟨rfl, rfl, rfl⟩ := Verdict.commit.inj (Except.ok.inj he)
        obtain ⟨db', hok⟩ := Processes.commits hrounds ⟨hctx, _, hv⟩ hnr hs
        rw [hc] at hok
        cases hok
      | ok db' =>
        exact iff_of_true ⟨db', out, pub, rfl⟩ ⟨s, pub, out, rfl, Db.commit_storable hc⟩

/-- The call returns exactly under the condition. -/
theorem run_returns_iff (digest : Secret → List UInt8 → List UInt8)
    (decrypt : Secret → Option Secret) (settings : Settings) (hrounds : Rounds db.tables)
    {d : Delivery} (hd : d ∈ db.tables.deliveries) (hnr : ¬ Replayed db.tables d.publicId)
    (secrets : SecretStore) (input : ProcessInput) :
    (∃ db' out pub, db.runOutboundMessage digest decrypt settings secrets d.publicId input =
        .ok (db', out, pub)) ↔ Finishable decrypt secrets d input := by
  obtain ⟨ctx, hctx, rfl⟩ := fetchContext_of_mem hd
  have hpartner := fetchContext_partner hctx
  by_cases ho : ctx.delivery.status.Open
  · have hone := load_returns_iff decrypt secrets ctx.delivery.partnerId
    cases hload : secrets.loadOutboundPrimarySecret decrypt ctx.delivery.partnerId with
    | error e =>
      refine iff_of_false ?_ ?_
      · rintro ⟨db', out, pub, h⟩
        simp [Db.runOutboundMessage, hctx, hpartner, hload, (open_checks ho).2] at h
      · intro hf
        obtain ⟨secret, hs⟩ := hone.mpr (hf ho).1
        rw [hload] at hs
        cases hs
    | ok secret =>
      rw [run_open_iff hrounds hnr hctx ho (hpartner ▸ hload)]
      have hle := hone.mp ⟨secret, hload⟩
      cases secret with
      | none =>
        refine iff_of_true (fun hsec => absurd rfl hsec) fun _ => ⟨hle, ?_⟩
        rintro ⟨key, hk⟩
        rw [hload] at hk
        cases hk
      | some key =>
        rw [recordable_of_secret rfl, learned_recordable]
        constructor
        · intro hp _
          exact ⟨hle, fun _ => hp⟩
        · intro hf
          exact (hf ho).2 ⟨key, hload⟩
  · refine iff_of_true ?_ fun h => absurd h ho
    refine ⟨db, .skipped, none, ?_⟩
    rw [Db.runOutboundMessage, hctx]
    exact if_pos ho

end Runs

/-- A call that returns takes the worker past its message. -/
theorem Group.Handles.movedOn {α : Type} {g : Group} {w : Nat} {i : Uuid} {p : BatchPosition}
    (h : g.Handles w i p) (r : α) :
    ∃ g', exec Group.step g (handlerActions w (.ok r)) = some g' ∧ g'.MovedOn w p := by
  obtain ⟨x, hx, hc, hb⟩ := h.worker
  have hreturned : g.step (.worker w .returned) = some
      { g.setWorker w (some { x with control := .handling .committing }) with
        processed := Function.update g.processed p.tp (p.offset :: g.processed p.tp) } := by
    simp [Group.step, Group.workerStep, hx, hc, hb]
  simp only [handlerActions, exec_cons, exec_nil, hreturned, Option.bind_some]
  simp only [Group.step, Group.setWorker, Function.update_self, Option.bind_some,
    Group.workerStep, hb, if_true]
  refine ⟨_, rfl, ?_, ?_⟩
  · simp [CommitOutcome.stored]
  · exact ⟨_, Function.update_self .., rfl, rfl⟩

/-- After any sequence of complete operations, the message of a delivery that was never
replayed is finished exactly under the condition. -/
theorem message_finished_iff (digest : Secret → List UInt8 → List UInt8)
    (decrypt : Secret → Option Secret) {settings : Settings} {db : Db}
    (hreach : Reachable (Db.step settings) Db.empty db) {d : Delivery}
    (hd : d ∈ db.tables.deliveries) (hnr : ¬ Replayed db.tables d.publicId)
    (secrets : SecretStore) (input : ProcessInput) {g : Group} {w : Nat} {p : BatchPosition}
    (hg : g.Handles w d.publicId p) :
    Finished digest decrypt settings db secrets d.publicId input g w p ↔
      Finishable decrypt secrets d input := by
  rw [← run_returns_iff digest decrypt settings (rounds_reachable hreach) hd hnr secrets input]
  constructor
  · intro hf
    exact hf.returned
  · rintro ⟨db', out, pub, hrun⟩
    refine ⟨⟨db', out, pub, hrun⟩, ?_⟩
    rw [hrun]
    exact hg.movedOn (db', out, pub)

/-- The partner and its endpoint, and one event accepted under this key. -/
def acceptedWith (key : String) : List Op :=
  [.putPartner acme, .putEndpoint acmeEndpoint, .enqueue acme [acmeEndpoint] (acmeRequest key)]

def acceptedDelivery (key : String) : Delivery :=
  { buildPendingDelivery acme acmeEndpoint (acmeRequest key) 10 with id := 1 }

theorem accepted_delivery (key : String) :
    ∃ db, exec (Db.step {}) Db.empty (acceptedWith key) = some db ∧
      acceptedDelivery key ∈ db.tables.deliveries ∧ ¬ Replayed db.tables 10 :=
  ⟨_, rfl, List.mem_singleton.mpr rfl, fun ⟨_, ha, _⟩ => List.not_mem_nil ha⟩

/-- The partner's one signing secret. -/
def acmeSecrets : SecretStore :=
  { SecretStore.init with
    partners := [⟨1, 1, "acme", some [1]⟩]
    partnerSeq := 1
    rows := [insertPrimarySigningSecret 5 1 [1] 1 0] }

/-- Worker 0 processes the only message of the pending topic. -/
def pendingPosition : BatchPosition where
  tp := ⟨.outboundPending, 0⟩
  offset := 0
  offsets := []
  rest := []

def pendingGroup : Group where
  log := fun _ =>
    [{ topic := .outboundPending, key := 1
       value := .outbound (pendingEnvelope acme (acmeRequest "k") (acceptedDelivery "k")
         acmeEndpoint) }]
  committed := fun _ => some 0
  processed := fun _ => []
  workers := Function.update (fun _ => none) 0 (some
    { Worker.started with
      batch := [(pendingPosition.tp, [0])]
      control := .handling .processing })

theorem pendingGroup_handles : pendingGroup.Handles 0 10 pendingPosition where
  message := ⟨_, rfl, rfl⟩
  worker := ⟨_, rfl, rfl, rfl⟩

theorem ascii_accepted {key : String} (h : Ascii key) :
    Ascii (acceptedDelivery key).idempotencyKey :=
  ascii_append.mpr ⟨ascii_append.mpr ⟨h, by simp [Ascii]⟩, ascii_uuid _⟩

theorem accepted_message_finished :
    ∃ db, exec (Db.step {}) Db.empty (acceptedWith "k") = some db ∧
      ∀ digest decrypt, Finished digest decrypt {} db acmeSecrets 10 (answer 1 200) pendingGroup 0
        pendingPosition := by
  obtain ⟨db, hrun, hd, hnr⟩ := accepted_delivery "k"
  refine ⟨db, hrun, fun digest decrypt => ?_⟩
  refine (message_finished_iff digest decrypt ⟨_, hrun⟩ hd hnr acmeSecrets (answer 1 200)
    pendingGroup_handles).mpr fun _ => ⟨by decide, fun _ _ => ?_⟩
  refine ⟨?_, ascii_accepted (by simp [Ascii]), ?_, ?_⟩
  · simp [Ascii, acceptedDelivery, buildPendingDelivery, acmeRequest]
  · simp [Ascii, acceptedDelivery, buildPendingDelivery, acmeRequest]
  · show Storable (truncateResponseBody "")
    exact storable_truncate (by simp)

/-- An accepted delivery that cannot be posted is not finished, whatever worker holds it. -/
theorem accepted_not_finished {key : String} {db : Db} {input : ProcessInput}
    (hrun : exec (Db.step {}) Db.empty (acceptedWith key) = some db)
    (hd : acceptedDelivery key ∈ db.tables.deliveries) (hnr : ¬ Replayed db.tables 10)
    (hallow : input.allowOutbound = true) (hnot : ¬ Postable (acceptedDelivery key) input.reply)
    (digest : Secret → List UInt8 → List UInt8) (g : Group) (w : Nat) (p : BatchPosition) :
    ¬ Finished digest some {} db acmeSecrets 10 input g w p := by
  intro hf
  have hreturns := (run_returns_iff digest some {} (rounds_reachable ⟨_, hrun⟩) hd hnr
    acmeSecrets input).mp hf.returned
  have hpending : (acceptedDelivery key).status.Open := by
    change DeliveryStatus.pending.Open
    decide
  exact hnot ((hreturns hpending).2 ⟨[1], rfl⟩ hallow)

/-- A key that is not ASCII, an exception of httpx outside the three families, and a body
with U+0000 or a lone surrogate: each of these messages is never finished. -/
theorem message_never_finished :
    (∃ db, exec (Db.step {}) Db.empty (acceptedWith "clé") = some db ∧
      (∃ d ∈ db.tables.deliveries, d.publicId = 10) ∧ ¬ Replayed db.tables 10 ∧
      ∀ digest g w p, ¬ Finished digest some {} db acmeSecrets 10 (answer 1 200) g w p) ∧
    ∃ db, exec (Db.step {}) Db.empty (acceptedWith "k") = some db ∧
      (∃ d ∈ db.tables.deliveries, d.publicId = 10) ∧ ¬ Replayed db.tables 10 ∧
      ∀ reply ∈ [.otherException "UnsupportedProtocol", .otherException "RemoteProtocolError",
          .response 200 ⟨[0]⟩, .response 200 ⟨[0xD800]⟩],
        ∀ digest g w p, ¬ Finished digest some {} db acmeSecrets 10
          { answer 1 200 with reply := reply } g w p := by
  constructor
  · obtain ⟨db, hrun, hd, hnr⟩ := accepted_delivery "clé"
    refine ⟨db, hrun, ⟨_, hd, rfl⟩, hnr, accepted_not_finished hrun hd hnr rfl ?_⟩
    intro hp
    have hkey := (ascii_append.mp (ascii_append.mp hp.idempotencyKey).1).1
    simp [Ascii, acmeRequest] at hkey
  · obtain ⟨db, hrun, hd, hnr⟩ := accepted_delivery "k"
    refine ⟨db, hrun, ⟨_, hd, rfl⟩, hnr, ?_⟩
    intro reply hreply
    refine accepted_not_finished hrun hd hnr rfl fun hp => ?_
    have hrec := hp.reply
    simp only [List.mem_cons, List.not_mem_nil, or_false] at hreply
    rcases hreply with rfl | rfl | rfl | rfl
    · exact hrec
    · exact hrec
    · exact absurd hrec (show ¬ Storable (truncateResponseBody ⟨[0]⟩) by decide)
    · exact absurd hrec (show ¬ Storable (truncateResponseBody ⟨[0xD800]⟩) by decide)

end PartnerHub.Outbound
