import PartnerHub.Outbound.Transactions

/-!
# The replay desk

Everyone who can put a FAILED delivery back: the single-replay endpoint,
`bulk_replay_deliveries`, the scheduled `replay_stale_failed_deliveries` and
`approve_replay_approval`, together with `reject_replay_approval`, the dead-letter
endpoints and the workers. A call reads its rows once and works on what it read, however
much later it commits: sessions keep loaded rows (`expire_on_commit=False`), and neither
the SELECTs lock nor the UPDATEs look at the status they overwrite.
-/
namespace PartnerHub.Outbound

open PartnerHub.Domain PartnerHub.Lib PartnerHub.Lib.Slots PartnerHub.Lib.System

/-- The callers of `replay_delivery` that do nothing after it. -/
inductive ReplayCaller where
  | single (resetAttemptCounter : Bool)
  | bulk
  | scheduled
  deriving DecidableEq

/-- What Redis answers a caller that asks: the circuit and the rate limiter. -/
structure Gate where
  circuit : CircuitState
  allowRequest : Bool
  deriving DecidableEq

/-- The arguments of a call and the times it takes. -/
structure CallArgs where
  actorId : String
  reason : String
  scheduledAt : Time
  createdAt : Time
  deriving DecidableEq

inductive Skip where
  | invalidStatus | autoReplayDisabled | openCircuit | rateLimited
  deriving DecidableEq

/-- A call that replays nothing raises or, in a batch, skips the delivery. -/
inductive Refusal where
  | raised (e : HubError)
  | skipped (why : Skip)
  deriving DecidableEq

def staleReplayActor : String := "celery-beat"
def staleReplayReason : String := "scheduled stale failed replay"

/-- The arguments each caller passes to `replay_delivery`. -/
def ReplayCaller.request (args : CallArgs) : ReplayCaller → ReplayRequest
  | .single resetAttemptCounter =>
    { actorId := args.actorId, reason := args.reason, resetAttemptCounter := resetAttemptCounter
      trigger := .manual, scheduledAt := args.scheduledAt, createdAt := args.createdAt }
  | .bulk =>
    { actorId := args.actorId, reason := args.reason, resetAttemptCounter := false
      trigger := .manual, scheduledAt := args.scheduledAt, createdAt := args.createdAt }
  | .scheduled =>
    { actorId := staleReplayActor, reason := staleReplayReason, resetAttemptCounter := false
      trigger := .scheduled, scheduledAt := args.scheduledAt, createdAt := args.createdAt }

/-- The rows a caller's SELECT returns: `_fetch_stale_failed_deliveries` asks for FAILED
deliveries of partners with auto-replay. Its cut-off on `updated_at` is left open. -/
def ReplayCaller.selects (row : Delivery × Partner) : ReplayCaller → Bool
  | .scheduled => row.1.status = .failed && row.2.autoReplayEnabled
  | _ => true

/-- The checks of the two loops before they call `replay_delivery`. -/
def ReplayCaller.skip (gate : Gate) (row : Delivery × Partner) : ReplayCaller → Option Skip
  | .single _ => none
  | .bulk =>
    if row.1.status ≠ .failed then some .invalidStatus
    else if gate.circuit = .opened then some .openCircuit
    else if !gate.allowRequest then some .rateLimited
    else none
  | .scheduled =>
    if !row.2.autoReplayEnabled then some .autoReplayDisabled
    else if gate.circuit ≠ .closed then some .openCircuit
    else if !gate.allowRequest then some .rateLimited
    else none

/-- One caller on the row it read: the session to commit, or why there is none. -/
def ReplayCaller.replay (caller : ReplayCaller) (gate : Gate) (row : Delivery × Partner)
    (args : CallArgs) : Except Refusal ReplaySession :=
  match caller.skip gate row with
  | some why => .error (.skipped why)
  | none => (replayDelivery (some row) (caller.request args)).mapError .raised

/-- The arguments `approve_replay_approval` passes on. -/
def approvalRequest (approval : ReplayApproval) (args : CallArgs) : ReplayRequest :=
  { actorId := args.actorId, reason := approval.reason, resetAttemptCounter := false
    trigger := .manual, scheduledAt := args.scheduledAt, createdAt := args.createdAt }

/-- `approve_replay_approval` up to the commit inside `replay_delivery`. -/
def approveReplayApproval (approval : ReplayApproval) (row : Delivery × Partner)
    (args : CallArgs) : Except HubError ReplaySession :=
  if approval.status ≠ .pending then .error (.replayApprovalNotPending approval.status.value)
  else replayDelivery (some row) (approvalRequest approval args)

/-- A call in progress, with the rows it has read. `approved` is an approval whose replay
is committed and whose own row is not. -/
inductive Call where
  | replay (caller : ReplayCaller) (row : Delivery × Partner)
  | approve (approval : ReplayApproval) (row : Delivery × Partner)
  | approved (approval : ReplayApproval) (deliveryPublicId : Uuid)
  | reject (approval : ReplayApproval) (deliveryPublicId : Uuid)
  | acknowledge (deadLetter : DeadLetter) (deliveryPublicId : Uuid)
  | purge (deadLetter : DeadLetter)
  deriving DecidableEq

/-- What happened so far and the tables do not tell: each commit that made a delivery
FAILED, the replays committed by an approve call, the calls on approvals that succeeded,
and, for each call, how many replays of its delivery were on record when it read the row. -/
structure History where
  failures : List Nat := []
  onBehalf : List Uuid := []
  decided : List Uuid := []
  seen : Nat → Nat := fun _ => 0

structure Desk where
  db : Db
  approvals : List ReplayApproval
  workers : Nat → Option Context
  calls : Nat → Option Call
  history : History

def Desk.init : Desk := ⟨Db.empty, [], fun _ => none, fun _ => none, {}⟩

/-- The committed replays of a delivery: its `delivery.replay` audit rows. -/
def Tables.replays (t : Tables) (publicId : Uuid) : Nat :=
  t.auditLogs.countP fun a => a.action = .deliveryReplay ∧ a.resourceId = publicId

theorem replays_commitReplay (db : Db) {loaded : Delivery} {req : ReplayRequest}
    {sess : ReplaySession} (hr : Replays loaded req sess) (p : Uuid) :
    (db.commitReplay sess).tables.replays p =
      db.tables.replays p + if p = loaded.publicId then 1 else 0 := by
  change (db.tables.auditLogs ++ [sess.audit]).countP _ = _
  rw [List.countP_append, List.countP_singleton, hr.audit_action, hr.audit_resource]
  simp [Tables.replays, eq_comm]

/-- The deliveries whose status has become FAILED between two committed states. -/
def becameFailed (t t' : Tables) : List Nat :=
  (t'.deliveries.filter fun d => d.status = .failed ∧
    ¬ ∃ d₀ ∈ t.deliveries, d₀.id = d.id ∧ d₀.status = .failed).map (·.id)

/-- An audit row of its own. -/
def Tables.audited (t : Tables) (audit : AuditLog) : Tables :=
  { t with auditLogs := t.auditLogs ++ [audit] }

def Db.audit (db : Db) (audit : AuditLog) : Db :=
  ⟨db.tables.audited audit, { db.consistent with }⟩

/-- The audit row of a decision about an approval. -/
def approvalAudit (action : AuditAction) (actorId : String) (deliveryPublicId : Uuid)
    (approval : ReplayApproval) (reason : String) : AuditLog where
  actorId := actorId
  action := action
  resourceId := deliveryPublicId
  metadata := [("approval_id", approval.id.text), ("reason", reason)]

/-- The UPDATE of one approval. -/
def decideApproval (status : ReplayApprovalStatus) (actorId : String) (id : Uuid)
    (approvals : List ReplayApproval) : List ReplayApproval :=
  Table.modify (·.id) id (fun r => { r with status := status, approvedBy := some actorId }) approvals

/-- `fetch_replay_approval_with_delivery`. -/
def Desk.fetchApproval (s : Desk) (id : Uuid) : Option (ReplayApproval × Delivery × Partner) := do
  let approval ← s.approvals.find? (fun r => r.id = id)
  let delivery ← s.db.tables.deliveries.find? (fun d => d.id = approval.deliveryId)
  let partner ← s.db.tables.partners.find? (fun p => p.id = delivery.partnerId)
  return (approval, delivery, partner)

/-- `create_replay_approval`. -/
def Desk.createReplayApproval (s : Desk) (id deliveryPublicId : Uuid) (actorId reason : String) :
    Except HubError Desk :=
  match s.db.tables.fetchDeliveryWithPartner deliveryPublicId with
  | none => .error .deliveryNotFound
  | some (delivery, _) =>
    if delivery.status ≠ .failed then .error (.deliveryNotReplayable delivery.status.value)
    else .ok { s with
      approvals := s.approvals ++ [{ id := id, deliveryId := delivery.id, reason := reason
                                     requestedBy := actorId, approvedBy := none
                                     status := .pending }] }

inductive DeskAction where
  | putPartner (p : Partner)
  | putEndpoint (e : PartnerEndpoint)
  | enqueue (partner : Partner) (endpoints : List PartnerEndpoint) (req : EnqueueRequest)
  | createApproval (id deliveryId : Uuid) (actorId reason : String)
  | read (w : Nat) (deliveryId : Uuid)
  | commit (w : Nat) (input : ProcessInput)
  | abort (w : Nat)
  | readReplay (c : Nat) (caller : ReplayCaller) (deliveryId : Uuid)
  | readApprove (c : Nat) (approvalId : Uuid)
  | readReject (c : Nat) (approvalId : Uuid)
  | readAcknowledge (c : Nat) (deadLetterId : Uuid)
  | readPurge (c : Nat) (deadLetterId : Uuid)
  | proceed (c : Nat) (args : CallArgs) (gate : Gate)
  | crash (c : Nat)

def Desk.setCall (s : Desk) (c : Nat) (call : Option Call) : Desk :=
  { s with calls := Function.update s.calls c call }

/-- A call enters with the rows it read; what is on record of its delivery is noted. -/
def Desk.enter (s : Desk) (c : Nat) (call : Call) (deliveryPublicId : Uuid) : Desk :=
  { s.setCall c (some call) with
    history := { s.history with
      seen := Function.update s.history.seen c (s.db.tables.replays deliveryPublicId) } }

/-- The next commit of a call, or its refusal. -/
def Desk.proceed (s : Desk) (c : Nat) (args : CallArgs) (gate : Gate) : Call → Desk
  | .replay caller row =>
    match caller.replay gate row args with
    | .error _ => s.setCall c none
    | .ok sess => { s.setCall c none with db := s.db.commitReplay sess }
  | .approve approval row =>
    match approveReplayApproval approval row args with
    | .error _ => s.setCall c none
    | .ok sess =>
      { s.setCall c (some (.approved approval row.1.publicId)) with
        db := s.db.commitReplay sess
        history := { s.history with onBehalf := s.history.onBehalf ++ [approval.id] } }
  | .approved approval publicId =>
    { s.setCall c none with
      db := s.db.audit (approvalAudit .replayApprove args.actorId publicId approval approval.reason)
      approvals := decideApproval .approved args.actorId approval.id s.approvals
      history := { s.history with decided := s.history.decided ++ [approval.id] } }
  | .reject approval publicId =>
    if approval.status ≠ .pending then s.setCall c none
    else
      { s.setCall c none with
        db := s.db.audit (approvalAudit .replayReject args.actorId publicId approval args.reason)
        approvals := decideApproval .rejected args.actorId approval.id s.approvals
        history := { s.history with decided := s.history.decided ++ [approval.id] } }
  | .acknowledge deadLetter publicId =>
    if deadLetter.acknowledgedAt ≠ none then s.setCall c none
    else
      { s.setCall c none with
        db := ⟨_, s.db.consistent.updateDeadLetter deadLetter.id
          (f := fun l => { l with
            acknowledgedAt := some args.scheduledAt, acknowledgedBy := some args.actorId })
          (fun _ => rfl)
          { actorId := args.actorId, action := .dlqAck, resourceId := deadLetter.id
            metadata := [("delivery_id", publicId.text)] }⟩ }
  | .purge deadLetter =>
    { s.setCall c none with
      db := ⟨_, s.db.consistent.updateDeadLetter deadLetter.id
        (f := fun l => { l with reason := .manualPurge }) (fun _ => rfl)
        { actorId := args.actorId, action := .dlqPurge, resourceId := deadLetter.id
          metadata := [("reason", args.reason)] }⟩ }

/-- One action, before the history takes note of new failures. -/
def Desk.act (settings : Settings) (s : Desk) : DeskAction → Option Desk
  | .putPartner p => some { s with db := s.db.apply settings (.putPartner p) }
  | .putEndpoint e => some { s with db := s.db.apply settings (.putEndpoint e) }
  | .enqueue partner endpoints req =>
    some { s with db := s.db.apply settings (.enqueue partner endpoints req) }
  | .createApproval id i actorId reason =>
    if ∃ r ∈ s.approvals, r.id = id then none
    else
      match s.createReplayApproval id i actorId reason with
      | .error _ => some s
      | .ok s' => some s'
  | .read w i =>
    match s.workers w, s.db.tables.fetchDeliveryContext i with
    | none, some ctx => some { s with workers := Function.update s.workers w (some ctx) }
    | _, _ => none
  | .commit w input =>
    match s.workers w with
    | none => none
    | some ctx => some { s with
        db := s.db.afterProcess settings ctx input
        workers := Function.update s.workers w none }
  | .abort w => some { s with workers := Function.update s.workers w none }
  | .readReplay c caller i =>
    match s.calls c, s.db.tables.fetchDeliveryWithPartner i with
    | none, some row =>
      if caller.selects row then some (s.enter c (.replay caller row) row.1.publicId) else none
    | _, _ => none
  | .readApprove c id =>
    match s.calls c, s.fetchApproval id with
    | none, some (approval, row) => some (s.enter c (.approve approval row) row.1.publicId)
    | _, _ => none
  | .readReject c id =>
    match s.calls c, s.fetchApproval id with
    | none, some (approval, row) => some (s.enter c (.reject approval row.1.publicId) row.1.publicId)
    | _, _ => none
  | .readAcknowledge c id =>
    match s.calls c, s.db.tables.getDeadLetterRow id with
    | none, some (deadLetter, delivery, _) =>
      some (s.enter c (.acknowledge deadLetter delivery.publicId) delivery.publicId)
    | _, _ => none
  | .readPurge c id =>
    match s.calls c, s.db.tables.getDeadLetterRow id with
    | none, some (deadLetter, delivery, _) =>
      some (s.enter c (.purge deadLetter) delivery.publicId)
    | _, _ => none
  | .proceed c args gate => (s.calls c).map (s.proceed c args gate)
  | .crash c => some (s.setCall c none)

def Desk.note (s : Desk) (failures : List Nat) : Desk :=
  { s with history := { s.history with failures := s.history.failures ++ failures } }

def Desk.step (settings : Settings) (s : Desk) (a : DeskAction) : Option Desk :=
  (s.act settings a).map fun s' => s'.note (becameFailed s.db.tables s'.db.tables)

/-- The delivery row a call in progress holds. -/
def Call.row : Call → Option (Delivery × Partner)
  | .replay _ row => some row
  | .approve _ row => some row
  | _ => none

/-- What a call answers instead of replaying; `none` when it commits a replay. -/
def Call.refusal (args : CallArgs) (gate : Gate) : Call → Option Refusal
  | .replay caller row =>
    match caller.replay gate row args with
    | .error r => some r
    | .ok _ => none
  | .approve approval row =>
    match approveReplayApproval approval row args with
    | .error e => some (.raised e)
    | .ok _ => none
  | _ => none

def Desk.held (s : Desk) (c : Nat) : Option (Delivery × Partner) := (s.calls c).bind Call.row

/-- New deliveries, PENDING and with unused keys, and their outbox rows; nothing else that
the desk reads. -/
structure Enrols (t t' : Tables) (rows : List Delivery) (events : List OutboxEvent) : Prop where
  deliveries : t'.deliveries = t.deliveries ++ rows
  deadLetters : t'.deadLetters = t.deadLetters
  auditLogs : t'.auditLogs = t.auditLogs
  outbox : t'.outbox = t.outbox ++ events
  pending : ∀ d ∈ rows, d.status = .pending
  fresh : ∀ d ∈ rows, ∀ d₀ ∈ t.deliveries, d₀.id ≠ d.id ∧ d₀.publicId ≠ d.publicId
  named : events.map (·.payload.deliveryId) = rows.map fun d => some d.publicId
  topic : ∀ o ∈ events, o.topic = .outboundPending

/-- A write about dead letters or approvals: dead letters keep their delivery and partner,
and the audit row is no replay. -/
structure Notes (t t' : Tables) : Prop where
  letters : t'.deadLetters.map (fun l => (l.deliveryId, l.partnerId)) =
    t.deadLetters.map fun l => (l.deliveryId, l.partnerId)
  audit : ∃ a : AuditLog, a.action ≠ .deliveryReplay ∧ t'.auditLogs = t.auditLogs ++ [a]
  frame : t' = { t with deadLetters := t'.deadLetters, auditLogs := t'.auditLogs }

/-- The copies of workers and calls are among those there were. -/
structure KeepsCopies (s s' : Desk) : Prop where
  workers : ∀ w ctx, s'.workers w = some ctx → s.workers w = some ctx
  held : ∀ c row, s'.held c = some row →
    s.held c = some row ∧ s'.history.seen c = s.history.seen c

theorem held_of_call {s : Desk} {c : Nat} {call : Call} {row : Delivery × Partner}
    (hcall : s.calls c = some call) (hrow : call.row = some row) : s.held c = some row := by
  rw [Desk.held, hcall, Option.bind_some, hrow]

/-- Everything a step of the desk does to the database and to the copies. -/
inductive DeskStep (settings : Settings) (s : Desk) (a : DeskAction) (s' : Desk) : Prop
  | enrolled {rows : List Delivery} {events : List OutboxEvent}
      (he : Enrols s.db.tables s'.db.tables rows events) (hk : KeepsCopies s s')
  | processed {w : Nat} {ctx : Context} {input : ProcessInput} {sess : Session}
      {pub : Option Message} {out : ProcessOutcome} (hctx : s.workers w = some ctx)
      (hv : processDelivery settings ctx input = .ok (.commit sess pub out))
      (hc : s.db.commit sess = .ok s'.db) (hk : KeepsCopies s s')
  | replayed {c : Nat} {args : CallArgs} {gate : Gate} {call : Call} {row : Delivery × Partner}
      {req : ReplayRequest} {sess : ReplaySession} (ha : a = .proceed c args gate)
      (hcall : s.calls c = some call) (hrow : call.row = some row)
      (href : call.refusal args gate = none) (hr : Replays row.1 req sess)
      (hdb : s'.db = s.db.commitReplay sess) (hk : KeepsCopies s s')
  | noted (hn : Notes s.db.tables s'.db.tables) (hk : KeepsCopies s s')
  | read {w : Nat} {i : Uuid} {ctx : Context} (hdb : s'.db = s.db)
      (hw : s'.workers = Function.update s.workers w (some ctx))
      (hctx : s.db.tables.fetchDeliveryContext i = some ctx)
      (hh : ∀ c row, s'.held c = some row →
        s.held c = some row ∧ s'.history.seen c = s.history.seen c)
  | entered {row : Delivery × Partner} (hdb : s'.db = s.db)
      (hw : s'.workers = s.workers) (hmem : row.1 ∈ s.db.tables.deliveries)
      (hh : ∀ c' row', s'.held c' = some row' →
        (s.held c' = some row' ∧ s'.history.seen c' = s.history.seen c') ∨
          (row' = row ∧ s'.history.seen c' = s.db.tables.replays row.1.publicId))

theorem Enrols.refl {t t' : Tables} (h : t' = t) : Enrols t t' [] [] := by
  subst h
  constructor <;> simp

theorem enrols_admin {t t' : Tables} {partners : List Partner} {endpoints : List PartnerEndpoint}
    (h : t' = { t with partners := partners, endpoints := endpoints }) : Enrols t t' [] [] := by
  subst h
  constructor <;> simp

theorem enrols_accept {db db' : Db} {partner : Partner} {endpoints : List PartnerEndpoint}
    {req : EnqueueRequest} (h : db.acceptEvent partner endpoints req = .ok db') :
    ∃ rows events, Enrols db.tables db'.tables rows events := by
  obtain ⟨rows, events, ha, ht⟩ := accept_ok h
  obtain ⟨rows', events', ht', hnamed, htopic⟩ := accept_named h
  have hboth := ht.symm.trans ht'
  obtain rfl : rows = rows' := List.append_cancel_left (congrArg Tables.deliveries hboth)
  obtain rfl : events = events' := List.append_cancel_left (congrArg Tables.outbox hboth)
  refine ⟨rows, events, ?_⟩
  have hfresh : ∀ d ∈ rows, ∀ d₀ ∈ db.tables.deliveries,
      d₀.id ≠ d.id ∧ d₀.publicId ≠ d.publicId :=
    fun d hd d₀ hd₀ => ⟨ha.id_ne hd hd₀, ha.publicId_ne ht hd hd₀⟩
  rw [ht]
  exact ⟨rfl, rfl, rfl, rfl, fun d hd => ha.pending hd, hfresh, hnamed, htopic⟩

theorem notes_audit (t : Tables) {a : AuditLog} (h : a.action ≠ .deliveryReplay) :
    Notes t (t.audited a) :=
  ⟨rfl, ⟨a, h, rfl⟩, rfl⟩

theorem notes_updateDeadLetter (t : Tables) (id : Uuid) {f : DeadLetter → DeadLetter}
    (hf : ∀ l, (f l).deliveryId = l.deliveryId ∧ (f l).partnerId = l.partnerId) {a : AuditLog}
    (h : a.action ≠ .deliveryReplay) : Notes t (t.updateDeadLetter id f a) := by
  refine ⟨Table.map_modify _ _ _ _ _ ?_, ⟨a, h, rfl⟩, rfl⟩
  intro l
  rw [(hf l).1, (hf l).2]

/-- A call that goes on without its row, or ends, leaves the other copies alone. -/
theorem keeps_setCall {s s' : Desk} {c : Nat} {call : Option Call} (hrow : call.bind Call.row = none)
    (hc : s'.calls = Function.update s.calls c call) (hw : s'.workers = s.workers)
    (hseen : s'.history.seen = s.history.seen) : KeepsCopies s s' := by
  refine ⟨fun w ctx h => hw ▸ h, ?_⟩
  intro c' row h
  rw [Desk.held, hc] at h
  by_cases he : c' = c
  · subst he
    rw [Function.update_self, hrow] at h
    cases h
  · rw [Function.update_of_ne he] at h
    exact ⟨h, by rw [hseen]⟩

theorem KeepsCopies.same {s s' : Desk} (hc : s'.calls = s.calls) (hw : s'.workers = s.workers)
    (hseen : s'.history.seen = s.history.seen) : KeepsCopies s s' := by
  refine ⟨fun w ctx h => hw ▸ h, ?_⟩
  intro c row h
  rw [Desk.held, hc] at h
  exact ⟨h, by rw [hseen]⟩

theorem approve_cases {approval : ReplayApproval} {row : Delivery × Partner} {args : CallArgs}
    {sess : ReplaySession} (h : approveReplayApproval approval row args = .ok sess) :
    approval.status = .pending ∧ Replays row.1 (approvalRequest approval args) sess := by
  unfold approveReplayApproval at h
  split at h
  · cases h
  · rename_i hp
    obtain ⟨loaded, partner, hrow, hr⟩ := replay_cases h
    cases hrow
    exact ⟨not_not.mp hp, hr⟩

theorem caller_cases {caller : ReplayCaller} {gate : Gate} {row : Delivery × Partner}
    {args : CallArgs} {sess : ReplaySession} (h : caller.replay gate row args = .ok sess) :
    Replays row.1 (caller.request args) sess := by
  unfold ReplayCaller.replay at h
  split at h
  · cases h
  · cases hr : replayDelivery (some row) (caller.request args) with
    | error e =>
      rw [hr] at h
      cases h
    | ok sess' =>
      rw [hr] at h
      cases h
      obtain ⟨loaded, partner, hrow, hrep⟩ := replay_cases hr
      cases hrow
      exact hrep

/-- What the next commit of a call does. -/
theorem deskStep_proceed (settings : Settings) {s : Desk} {c : Nat} {call : Call}
    (hcall : s.calls c = some call) (args : CallArgs) (gate : Gate) (failures : List Nat) :
    DeskStep settings s (.proceed c args gate) ((s.proceed c args gate call).note failures) := by
  cases call with
  | replay caller row =>
    simp only [Desk.proceed]
    split
    · exact .enrolled (.refl rfl) (keeps_setCall rfl rfl rfl rfl)
    · rename_i hr
      exact .replayed rfl hcall rfl (by simp only [Call.refusal, hr]) (caller_cases hr) rfl
        (keeps_setCall rfl rfl rfl rfl)
  | approve approval row =>
    simp only [Desk.proceed]
    split
    · exact .enrolled (.refl rfl) (keeps_setCall rfl rfl rfl rfl)
    · rename_i hr
      exact .replayed rfl hcall rfl (by simp only [Call.refusal, hr]) (approve_cases hr).2 rfl
        (keeps_setCall rfl rfl rfl rfl)
  | approved approval publicId =>
    refine .noted (notes_audit _ ?_) (keeps_setCall rfl rfl rfl rfl)
    simp [approvalAudit]
  | reject approval publicId =>
    simp only [Desk.proceed]
    split
    · exact .enrolled (.refl rfl) (keeps_setCall rfl rfl rfl rfl)
    · refine .noted (notes_audit _ ?_) (keeps_setCall rfl rfl rfl rfl)
      simp [approvalAudit]
  | acknowledge deadLetter publicId =>
    simp only [Desk.proceed]
    split
    · exact .enrolled (.refl rfl) (keeps_setCall rfl rfl rfl rfl)
    · refine .noted (notes_updateDeadLetter _ _ ?_ ?_) (keeps_setCall rfl rfl rfl rfl)
      · exact fun _ => ⟨rfl, rfl⟩
      · simp
  | purge deadLetter =>
    refine .noted (notes_updateDeadLetter _ _ ?_ ?_) (keeps_setCall rfl rfl rfl rfl)
    · exact fun _ => ⟨rfl, rfl⟩
    · simp

/-- A call that enters holds the row it read. -/
theorem deskStep_enter (settings : Settings) {s : Desk} (a : DeskAction) (c : Nat) (call : Call)
    {row : Delivery × Partner} (hrow : ∀ row', call.row = some row' → row' = row)
    (hmem : row.1 ∈ s.db.tables.deliveries) (failures : List Nat) :
    DeskStep settings s a ((s.enter c call row.1.publicId).note failures) := by
  refine .entered rfl rfl hmem ?_
  intro c' row' h
  change (Function.update s.calls c (some call) c').bind Call.row = some row' at h
  change (s.held c' = some row' ∧ Function.update s.history.seen c _ c' = _) ∨
    (row' = row ∧ Function.update s.history.seen c _ c' = _)
  by_cases he : c' = c
  · subst he
    rw [Function.update_self, Option.bind_some] at h
    exact .inr ⟨hrow row' h, Function.update_self ..⟩
  · rw [Function.update_of_ne he] at h
    exact .inl ⟨h, Function.update_of_ne he ..⟩

theorem fetchApproval_some {s : Desk} {id : Uuid} {approval : ReplayApproval}
    {row : Delivery × Partner} (h : s.fetchApproval id = some (approval, row)) :
    approval ∈ s.approvals ∧ approval.id = id ∧ row.1 ∈ s.db.tables.deliveries := by
  unfold Desk.fetchApproval at h
  obtain ⟨r, hr, h⟩ := Option.bind_eq_some_iff.mp h
  obtain ⟨d, hd, h⟩ := Option.bind_eq_some_iff.mp h
  obtain ⟨p, -, h⟩ := Option.bind_eq_some_iff.mp h
  cases h
  exact ⟨List.mem_of_find?_eq_some hr, by simpa using List.find?_some hr,
    List.mem_of_find?_eq_some hd⟩

theorem getDeadLetterRow_some {t : Tables} {id : Uuid} {l : DeadLetter} {row : Delivery × Partner}
    (h : t.getDeadLetterRow id = some (l, row)) : row.1 ∈ t.deliveries := by
  unfold Tables.getDeadLetterRow at h
  obtain ⟨l', hl, h⟩ := Option.bind_eq_some_iff.mp h
  obtain ⟨d, hd, h⟩ := Option.bind_eq_some_iff.mp h
  obtain ⟨p, -, h⟩ := Option.bind_eq_some_iff.mp h
  cases h
  exact List.mem_of_find?_eq_some hd

theorem deskStep_of_step {settings : Settings} {s s' : Desk} {a : DeskAction}
    (h : s.step settings a = some s') : DeskStep settings s a s' := by
  obtain ⟨t, ht, rfl⟩ := Option.map_eq_some_iff.mp h
  cases a with
  | putPartner p | putEndpoint e =>
    cases ht
    exact .enrolled (enrols_admin rfl) (.same rfl rfl rfl)
  | enqueue partner endpoints req =>
    cases ht
    cases ha : s.db.acceptEvent partner endpoints req with
    | error e =>
      refine .enrolled (.refl ?_) (.same rfl rfl rfl)
      simp [Desk.note, Db.apply, ha, Db.orKeep]
    | ok db' =>
      obtain ⟨rows, events, he⟩ := enrols_accept ha
      have hdb : s.db.apply settings (.enqueue partner endpoints req) = db' := by
        simp [Db.apply, ha, Db.orKeep]
      rw [← hdb] at he
      exact .enrolled he (.same rfl rfl rfl)
  | createApproval id i actorId reason =>
    simp only [Desk.act] at ht
    split at ht
    · cases ht
    split at ht
    · cases ht
      exact .enrolled (.refl rfl) (.same rfl rfl rfl)
    · rename_i t' hcreate
      cases ht
      unfold Desk.createReplayApproval at hcreate
      split at hcreate
      · cases hcreate
      split at hcreate
      · cases hcreate
      cases hcreate
      exact .enrolled (.refl rfl) (.same rfl rfl rfl)
  | read w i =>
    simp only [Desk.act] at ht
    split at ht
    · rename_i ctx hn hctx
      cases ht
      exact .read rfl rfl hctx fun _ _ hh => ⟨hh, rfl⟩
    · cases ht
  | commit w input =>
    simp only [Desk.act] at ht
    split at ht
    · cases ht
    · rename_i ctx hctx
      cases ht
      have hk : KeepsCopies s ({ s with
          db := s.db.afterProcess settings ctx input
          workers := Function.update s.workers w none }.note
            (becameFailed s.db.tables (s.db.afterProcess settings ctx input).tables)) :=
        ⟨fun w' ctx' hw => (update_none_some hw).1, fun _ _ hh => ⟨hh, rfl⟩⟩
      rcases afterProcess_cases settings s.db ctx input with he | ⟨sess, pub, out, hv, hc⟩
      · exact .enrolled (.refl (congrArg Db.tables he)) hk
      · exact .processed hctx hv hc hk
  | abort w =>
    cases ht
    exact .enrolled (.refl rfl)
      ⟨fun w' ctx' hw => (update_none_some hw).1, fun _ _ hh => ⟨hh, rfl⟩⟩
  | readReplay c caller i =>
    simp only [Desk.act] at ht
    split at ht
    · rename_i row hn hrow
      split at ht
      · cases ht
        exact deskStep_enter settings _ c (.replay caller row) (fun _ hr => (Option.some.inj hr).symm)
          (fetchWithPartner_some hrow).1 _
      · cases ht
    · cases ht
  | readApprove c id =>
    simp only [Desk.act] at ht
    split at ht
    · rename_i approval row hn hrow
      cases ht
      exact deskStep_enter settings _ c (.approve approval row)
        (fun _ hr => (Option.some.inj hr).symm) (fetchApproval_some hrow).2.2 _
    · cases ht
  | readReject c id =>
    simp only [Desk.act] at ht
    split at ht
    · rename_i approval row hn hrow
      cases ht
      exact deskStep_enter settings _ c _ (by simp [Call.row]) (fetchApproval_some hrow).2.2 _
    · cases ht
  | readAcknowledge c id =>
    simp only [Desk.act] at ht
    split at ht
    · rename_i l d p hn hrow
      cases ht
      have hmem : (d, p).1 ∈ s.db.tables.deliveries := getDeadLetterRow_some hrow
      exact deskStep_enter settings _ c _ (by simp [Call.row]) hmem _
    · cases ht
  | readPurge c id =>
    simp only [Desk.act] at ht
    split at ht
    · rename_i l d p hn hrow
      cases ht
      have hmem : (d, p).1 ∈ s.db.tables.deliveries := getDeadLetterRow_some hrow
      exact deskStep_enter settings _ c _ (by simp [Call.row]) hmem _
    · cases ht
  | proceed c args gate =>
    simp only [Desk.act] at ht
    obtain ⟨call, hcall, rfl⟩ := Option.map_eq_some_iff.mp ht
    exact deskStep_proceed settings hcall args gate _
  | crash c =>
    cases ht
    exact .enrolled (.refl rfl) (keeps_setCall rfl rfl rfl rfl)

theorem act_failures {settings : Settings} {s t : Desk} {a : DeskAction}
    (h : s.act settings a = some t) : t.history.failures = s.history.failures := by
  cases a with
  | proceed c args gate =>
    obtain ⟨call, -, rfl⟩ := Option.map_eq_some_iff.mp h
    cases call <;> simp only [Desk.proceed]
    all_goals (try split) <;> rfl
  | createApproval id i actorId reason =>
    simp only [Desk.act, Desk.createReplayApproval] at h
    split_ifs at h
    split at h
    · cases h
      rfl
    · rename_i hcreate
      cases h
      split at hcreate
      · cases hcreate
      split at hcreate
      · cases hcreate
      · cases hcreate
        rfl
  | _ =>
    simp only [Desk.act] at h
    try split at h
    all_goals try split at h
    all_goals first
      | cases h
        rfl
      | cases h

/-- The history gains exactly the deliveries that became FAILED. -/
theorem step_failures {settings : Settings} {s s' : Desk} {a : DeskAction}
    (h : s.step settings a = some s') :
    s'.history.failures = s.history.failures ++ becameFailed s.db.tables s'.db.tables := by
  obtain ⟨t, ht, rfl⟩ := Option.map_eq_some_iff.mp h
  change t.history.failures ++ _ = _
  rw [act_failures ht]
  rfl

/-- A delivery is accepted and fails on a 400: delivery 10 is FAILED. -/
def failedDesk : List DeskAction :=
  [.putPartner acme, .putEndpoint acmeEndpoint, .enqueue acme [acmeEndpoint] (acmeRequest "k"),
    .read 0 10, .commit 0 (answer 1 400)]

def opsArgs : CallArgs where
  actorId := "ops"
  reason := "fixed"
  scheduledAt := 100
  createdAt := 100

/-- Circuit closed, no rate limit. -/
def freeGate : Gate := ⟨.closed, true⟩

end PartnerHub.Outbound
