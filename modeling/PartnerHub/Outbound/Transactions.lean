import PartnerHub.Lib.Slots
import PartnerHub.Outbound.Operations

/-!
# Overlapping transactions on the delivery row

`process_outbound_message` and `replay_delivery` read the delivery without a lock and
commit an unconditional UPDATE of the columns they changed. The state is the database
with what every execution and every replay in progress has read; reads and commits of
any number of them interleave freely.
-/
namespace PartnerHub.Outbound

open PartnerHub.Domain PartnerHub.Lib PartnerHub.Lib.Slots PartnerHub.Lib.System

/-- The committed database and the copies the transactions in progress work on. -/
structure Txns where
  db : Db
  workers : Nat → Option Context
  replays : Nat → Option (Delivery × Partner)

inductive TxnAction where
  | operation (op : Op)
  | read (w : Nat) (deliveryId : Uuid)
  | commit (w : Nat) (input : ProcessInput)
  | abort (w : Nat)
  | readReplay (r : Nat) (deliveryId : Uuid)
  | commitReplay (r : Nat) (req : ReplayRequest)
  | abortReplay (r : Nat)

/-- The database after a worker's transaction: committed, or rolled back when the
execution skips the delivery, raises or violates a constraint. -/
def Db.afterProcess (settings : Settings) (db : Db) (ctx : Context) (input : ProcessInput) : Db :=
  match processDelivery settings ctx input with
  | .ok (.commit s _ _) => db.orKeep (db.commit s)
  | _ => db

def Db.afterReplay (db : Db) (row : Delivery × Partner) (req : ReplayRequest) : Db :=
  db.orKeep ((replayDelivery (some row) req).map db.commitReplay)

def Txns.step (settings : Settings) (s : Txns) : TxnAction → Option Txns
  | .operation op => if op.isAtomic then some { s with db := s.db.apply settings op } else none
  | .read w i =>
    match s.workers w, s.db.tables.fetchDeliveryContext i with
    | none, some ctx => some { s with workers := Function.update s.workers w (some ctx) }
    | _, _ => none
  | .commit w input =>
    match s.workers w with
    | none => none
    | some ctx => some { s with
        db := s.db.afterProcess settings ctx input
        workers := Function.update s.workers w none }
  | .abort w => some { s with workers := Function.update s.workers w none }
  | .readReplay r i =>
    match s.replays r, s.db.tables.fetchDeliveryWithPartner i with
    | none, some row => some { s with replays := Function.update s.replays r (some row) }
    | _, _ => none
  | .commitReplay r req =>
    match s.replays r with
    | none => none
    | some row => some { s with
        db := s.db.afterReplay row req
        replays := Function.update s.replays r none }
  | .abortReplay r => some { s with replays := Function.update s.replays r none }

def Txns.init : Txns := ⟨Db.empty, fun _ => none, fun _ => none⟩

/-- A worker's commit: nothing, or one of the six decisions about an open copy. -/
theorem afterProcess_cases (settings : Settings) (db : Db) (ctx : Context) (input : ProcessInput) :
    db.afterProcess settings ctx input = db ∨
      ∃ s pub out, processDelivery settings ctx input = .ok (.commit s pub out) ∧
        db.commit s = .ok (db.afterProcess settings ctx input) := by
  unfold Db.afterProcess
  split
  · rename_i s pub out hv
    cases hc : db.commit s with
    | error c => exact .inl rfl
    | ok db' => exact .inr ⟨s, pub, out, hv, hc⟩
  · exact .inl rfl

theorem afterReplay_cases (db : Db) (row : Delivery × Partner) (req : ReplayRequest) :
    db.afterReplay row req = db ∨
      ∃ s, Replays row.1 req s ∧ db.afterReplay row req = db.commitReplay s := by
  unfold Db.afterReplay
  cases h : replayDelivery (some row) req with
  | error e => exact .inl rfl
  | ok s =>
    obtain ⟨loaded, partner, hrow, hr⟩ := replay_cases h
    cases hrow
    exact .inr ⟨s, hr, rfl⟩

/-- Everything a step can do to the database and to the copies of the workers. -/
inductive TxnStep (settings : Settings) (s : Txns) : TxnAction → Txns → Prop
  | atomic {op : Op} {rows : List Delivery} {events : List OutboxEvent} {s' : Txns}
      (hw : s'.workers = s.workers) (ha : Adds s.db.tables s'.db.tables rows events) :
      TxnStep settings s (.operation op) s'
  | read {w : Nat} {i : Uuid} {ctx : Context} {s' : Txns} (hdb : s'.db = s.db)
      (hw : s'.workers = Function.update s.workers w (some ctx))
      (hmem : ctx.delivery ∈ s.db.tables.deliveries) : TxnStep settings s (.read w i) s'
  | commit {w : Nat} {input : ProcessInput} {ctx : Context} {sess : Session}
      {pub : Option Message} {out : ProcessOutcome} {s' : Txns} (hctx : s.workers w = some ctx)
      (hv : processDelivery settings ctx input = .ok (.commit sess pub out))
      (hc : s.db.commit sess = .ok s'.db) (hw : s'.workers = Function.update s.workers w none) :
      TxnStep settings s (.commit w input) s'
  | replay {r : Nat} {req : ReplayRequest} {row : Delivery × Partner} {sess : ReplaySession}
      {s' : Txns} (hrow : s.replays r = some row) (hr : Replays row.1 req sess)
      (hdb : s'.db = s.db.commitReplay sess) (hw : s'.workers = s.workers) :
      TxnStep settings s (.commitReplay r req) s'
  | idle {a : TxnAction} {s' : Txns} (hdb : s'.db = s.db)
      (hw : ∀ w ctx, s'.workers w = some ctx → s.workers w = some ctx) : TxnStep settings s a s'

theorem txnStep_of_step {settings : Settings} {s s' : Txns} {a : TxnAction}
    (h : s.step settings a = some s') : TxnStep settings s a s' := by
  cases a with
  | operation op =>
    simp only [Txns.step] at h
    split at h
    · rename_i hop
      cases h
      obtain ⟨rows, events, ha⟩ := atomic_adds settings s.db hop
      exact .atomic rfl ha
    · cases h
  | read w i =>
    simp only [Txns.step] at h
    split at h
    · rename_i ctx hn hctx
      cases h
      exact .read rfl rfl (fetchContext_some hctx).1
    · cases h
  | commit w input =>
    simp only [Txns.step] at h
    split at h
    · cases h
    · rename_i ctx hctx
      cases h
      rcases afterProcess_cases settings s.db ctx input with he | ⟨sess, pub, out, hv, hc⟩
      · exact .idle he fun w' ctx' hw => (update_none_some hw).1
      · exact .commit hctx hv hc rfl
  | abort w =>
    cases h
    exact .idle rfl fun w' ctx' hw => (update_none_some hw).1
  | readReplay r i =>
    simp only [Txns.step] at h
    split at h
    · cases h
      exact .idle rfl fun _ _ hw => hw
    · cases h
  | commitReplay r req =>
    simp only [Txns.step] at h
    split at h
    · cases h
    · rename_i row hrow
      cases h
      rcases afterReplay_cases s.db row req with he | ⟨sess, hr, he⟩
      · exact .idle he fun _ _ hw => hw
      · exact .replay hrow hr he rfl
  | abortReplay r =>
    cases h
    exact .idle rfl fun _ _ hw => hw

end PartnerHub.Outbound
