import PartnerHub.Inbound.Request

/-!
# A request that nobody interrupts

`ingest_event` as one function of the replies of Redis, against the steps it is cut into where
other requests come between them: what a request leaves behind is what a run of those steps does.
-/
namespace PartnerHub.Inbound

open PartnerHub.Domain PartnerHub.Outbound PartnerHub.Lib.System
open PartnerHub.Circuit (Reply)

/-- The answers the deduplication is about; other answers and exceptions carry no event id. -/
def Outcome.response : Outcome → Option Response
  | .accepted eventId => some (.accepted eventId)
  | .duplicate eventId => some (.duplicate eventId)
  | .refused (.httpException 409 _) => some .conflict
  | _ => none

def IngestResult.answers (result : IngestResult) (event : IngestRequest) : List Answer :=
  result.outcome.response.toList.map fun response =>
    ⟨event.partner.id, event.idempotencyKey, response⟩

/-- The tables and the cached ids are those of the state, and no transaction is open. -/
structure Represents (s : Ingest) (t : InboundTables) (server : InboundRedis) : Prop where
  events : s.events = t.events
  outbox : s.outbox = t.hub.outbox
  outboxSeq : s.outboxSeq = t.hub.outboxSeq
  redis : s.redis = server.values
  pending : s.pending = []

/-- `result` is what some steps leave behind that start and end without the request. -/
def RunsTo (s : Ingest) (event : IngestRequest) (result : IngestResult) : Prop :=
  ∃ as s' server', exec Ingest.step s as = some s' ∧ result.redis = some server' ∧
    Represents s' result.tables server' ∧ s'.requests = s.requests ∧
    s'.answers = s.answers ++ result.answers event

/-- The state after the commit of the event, with these cached ids. -/
def Ingest.stored (s : Ingest) (r : Nat) (event : IngestRequest) (createdAt : Time)
    (phase : Phase) (redis : String → Option String) : Ingest :=
  { s.setRequest r event phase with
    events := s.events ++ [event.inbound]
    outbox := s.outbox ++ [event.outboxEvent (s.outboxSeq + 1) createdAt]
    outboxSeq := s.outboxSeq + 1
    redis := redis }

variable {lib : Libraries} {settings : InboundSettings} {replies : RedisReplies}
  {t : InboundTables} {server : InboundRedis} {req : InboundRequest} {event : IngestRequest}
  {s : Ingest} {r : Nat} {as : List IngestAction} {phase : Phase} {result : IngestResult}

theorem setRequest_setRequest (s : Ingest) (r : Nat) (event : IngestRequest) (p q : Phase) :
    (s.setRequest r event p).setRequest r event q = s.setRequest r event q := by
  simp only [Ingest.setRequest, Function.update_idem]

theorem setRequest_self (s : Ingest) (r : Nat) (event : IngestRequest) (p : Phase) :
    (s.setRequest r event p).requests r = some (event, p) := Function.update_self ..

/-- A request that ends before its insert leaves everything as it was. -/
theorem runsTo_of_end (phase : Phase) (as : List IngestAction) (hs : Represents s t server)
    (hr : s.requests r = none)
    (hrun : exec Ingest.step s as =
      some ((s.setRequest r event phase).endRequest r (result.answers event)))
    (hredis : result.redis = some server) (htables : result.tables = t) :
    RunsTo s event result := by
  refine ⟨as, _, server, hrun, hredis, ?_, ?_, rfl⟩
  · have hpending : (s.pending.filter fun x => x.1 ≠ r) = [] := by rw [hs.pending]; rfl
    exact htables ▸ ⟨hs.events, hs.outbox, hs.outboxSeq, hs.redis, hpending⟩
  · change Function.update (Function.update s.requests r _) r none = s.requests
    rw [Function.update_idem, ← hr, Function.update_eq_self]

/-- A request that ends after its commit leaves the event and its outbox row. -/
theorem runsTo_of_stored {server' : InboundRedis} {createdAt : Time} (phase : Phase)
    (as : List IngestAction) (hs : Represents s t server) (hr : s.requests r = none)
    (hrun : exec Ingest.step s as = some
      ((s.stored r event createdAt phase server'.values).endRequest r (result.answers event)))
    (hredis : result.redis = some server') (htables : result.tables = t.commitEvent event createdAt) :
    RunsTo s event result := by
  refine ⟨as, _, server', hrun, hredis, ?_, ?_, rfl⟩
  · rw [htables]
    refine ⟨?_, ?_, ?_, rfl, ?_⟩
    · change s.events ++ [event.inbound] = t.events ++ [event.inbound]
      rw [hs.events]
    · change s.outbox ++ [event.outboxEvent (s.outboxSeq + 1) createdAt] =
        t.hub.outbox ++ [event.outboxEvent (t.hub.outboxSeq + 1) createdAt]
      rw [hs.outbox, hs.outboxSeq]
    · change s.outboxSeq + 1 = t.hub.outboxSeq + 1
      rw [hs.outboxSeq]
    · change s.pending.filter _ = []
      rw [hs.pending]
      rfl
  · change Function.update (Function.update s.requests r _) r none = s.requests
    rw [Function.update_idem, ← hr, Function.update_eq_self]

/-- The flush and the commit of an event that can be inserted. -/
theorem exec_commit (hs : Represents s t server) (hinserts : Inserts lib t event)
    (hrun : exec Ingest.step s as = some (s.setRequest r event .inserting)) (createdAt : Time) :
    exec Ingest.step s (as ++ [.flush r, .commit r createdAt]) =
      some (s.stored r event createdAt .committed s.redis) := by
  have hfree : ¬∃ e ∈ s.events, Collides e event.inbound := by
    rw [hs.events]
    exact hinserts.2
  let flushed : Ingest := { s.setRequest r event .flushed with pending := [(r, event.inbound)] }
  have hflush : (s.setRequest r event .inserting).step (.flush r) = some flushed := by
    simp only [Ingest.step, setRequest_self]
    refine (if_neg hfree).trans ?_
    simp [Ingest.setRequest, flushed, hs.pending]
  have hcommit : flushed.step (.commit r createdAt) =
      some (s.stored r event createdAt .committed s.redis) := by
    simp [Ingest.step, Ingest.setRequest, Ingest.stored, flushed, hs.pending]
  rw [exec_append, hrun, Option.bind_some, exec_cons, hflush, Option.bind_some, exec_cons, hcommit]
  rfl

/-- After the commit the id is cached and the request answered, unless the SET raises. -/
theorem runsTo_of_inserts (hs : Represents s t server) (hr : s.requests r = none)
    (hredis : event.redis = true) (hinserts : Inserts lib t event)
    (hrun : exec Ingest.step s as = some (s.setRequest r event .inserting)) (createdAt : Time) :
    RunsTo s event (insertEvent lib replies t (some server) event createdAt) := by
  have hcommit := exec_commit hs hinserts hrun createdAt
  let written := Function.update server.values
    (idempotencyRedisKey event.partner.id event.idempotencyKey) (some (Uuid.text event.eventId))
  have hcache : (s.stored r event createdAt .committed s.redis).step (.cacheEventId r) =
      some (s.stored r event createdAt .cached written) := by
    simp [Ingest.step, Ingest.setRequest, Ingest.stored, hredis, written, hs.redis]
  have hfail : ∀ phase redis, (s.stored r event createdAt phase redis).step (.fail r) =
      some ((s.stored r event createdAt phase redis).endRequest r []) := by
    simp [Ingest.step, Ingest.setRequest, Ingest.stored]
  cases hset : replies.setCached with
  | answered =>
    have hresult : insertEvent lib replies t (some server) event createdAt =
        ⟨.accepted event.eventId, t.commitEvent event createdAt,
          some { server with values := written }, true⟩ := by
      simp [insertEvent, hinserts.1, hinserts.2, cacheEventId, hset, Reply.executed, written]
    have hrespond : (s.stored r event createdAt .cached written).step (.respond r) =
        some ((s.stored r event createdAt .cached written).answer r event
          (.accepted event.eventId)) := by
      simp [Ingest.step, Ingest.setRequest, Ingest.stored]
    rw [hresult]
    refine runsTo_of_stored .cached
      (as ++ [.flush r, .commit r createdAt] ++ [.cacheEventId r, .respond r]) hs hr ?_ rfl rfl
    rw [exec_append, hcommit, Option.bind_some, exec_cons, hcache, Option.bind_some, exec_cons,
      hrespond]
    rfl
  | raised executed =>
    have hresult : insertEvent lib replies t (some server) event createdAt =
        ⟨.redisError, t.commitEvent event createdAt,
          some (if executed then { server with values := written } else server), true⟩ := by
      simp [insertEvent, hinserts.1, hinserts.2, cacheEventId, hset, Reply.executed, written]
    cases executed with
    | true =>
      rw [hresult]
      refine runsTo_of_stored .cached
        (as ++ [.flush r, .commit r createdAt] ++ [.cacheEventId r, .fail r]) hs hr ?_ rfl rfl
      rw [exec_append, hcommit, Option.bind_some, exec_cons, hcache, Option.bind_some, exec_cons,
        hfail]
      rfl
    | false =>
      rw [hresult]
      refine runsTo_of_stored .committed
        (as ++ [.flush r, .commit r createdAt] ++ [.fail r]) hs hr ?_ rfl rfl
      rw [exec_append, hcommit, Option.bind_some, exec_cons, hfail, hs.redis]
      rfl

/-- An event that cannot be inserted is answered from the row in its way, or its request fails. -/
theorem runsTo_of_refused (hs : Represents s t server) (hr : s.requests r = none)
    (hinserts : ¬Inserts lib t event)
    (hrun : exec Ingest.step s as = some (s.setRequest r event .inserting)) (createdAt : Time) :
    RunsTo s event (insertEvent lib replies t (some server) event createdAt) := by
  have hfail : ∀ phase, (s.setRequest r event phase).step (.fail r) =
      some ((s.setRequest r event phase).endRequest r []) := by
    simp [Ingest.step, Ingest.setRequest]
  by_cases hstorable : lib.storable event.inbound = false
  · have hresult : insertEvent lib replies t (some server) event createdAt =
        ⟨.refused (.raised .dataError), t, some server, false⟩ := if_pos hstorable
    rw [hresult]
    refine runsTo_of_end .inserting (as ++ [.fail r]) hs hr ?_ rfl rfl
    rw [exec_append, hrun, Option.bind_some, exec_cons, hfail]
    rfl
  have hcollides : ∃ e ∈ t.events, Collides e event.inbound := by
    by_contra hnone
    exact hinserts ⟨by simpa using hstorable, hnone⟩
  have hflush : (s.setRequest r event .inserting).step (.flush r) =
      some (s.setRequest r event .conflicted) := by
    simp only [Ingest.step, setRequest_self, setRequest_setRequest]
    refine if_pos ?_
    change ∃ e ∈ s.events, Collides e event.inbound
    rwa [hs.events]
  by_cases hreadable : lib.orm.readable false = false
  · have hresult : insertEvent lib replies t (some server) event createdAt =
        ⟨.refused (.raised .missingGreenlet), t, some server, false⟩ := by
      simp only [insertEvent, if_neg hstorable, if_pos hcollides, if_pos hreadable]
    rw [hresult]
    refine runsTo_of_end .conflicted (as ++ [.flush r, .fail r]) hs hr ?_ rfl rfl
    rw [exec_append, hrun, Option.bind_some, exec_cons, hflush, Option.bind_some, exec_cons, hfail]
    rfl
  have hevents : (s.setRequest r event .conflicted).events = t.events := hs.events
  have hrun' : exec Ingest.step s (as ++ [.flush r, .fetchExisting r]) =
      (s.setRequest r event .conflicted).step (.fetchExisting r) := by
    rw [exec_append, hrun, Option.bind_some, exec_cons, hflush, Option.bind_some, exec_cons]
    exact Option.bind_fun_some _
  cases hfind : t.events.find? fun e => eventKey e = event.key with
  | none =>
    have hresult : insertEvent lib replies t (some server) event createdAt =
        ⟨.refused (refuse 409 "Idempotency conflict; retry."), t, some server, false⟩ := by
      simp only [insertEvent, if_neg hstorable, if_pos hcollides, if_neg hreadable, hfind]
    rw [hresult]
    refine runsTo_of_end .conflicted (as ++ [.flush r, .fetchExisting r]) hs hr ?_ rfl rfl
    rw [hrun']
    simp only [Ingest.step, setRequest_self, hevents, hfind]
    rfl
  | some existing =>
    have hresult : insertEvent lib replies t (some server) event createdAt =
        ⟨.duplicate existing.id, t, some server, false⟩ := by
      simp only [insertEvent, if_neg hstorable, if_pos hcollides, if_neg hreadable, hfind]
    rw [hresult]
    refine runsTo_of_end .conflicted (as ++ [.flush r, .fetchExisting r]) hs hr ?_ rfl rfl
    rw [hrun']
    simp only [Ingest.step, setRequest_self, hevents, hfind]
    rfl

/-- From the look-up of the cached id on, whatever Redis answers. -/
theorem submit_runs (lib : Libraries) (replies : RedisReplies) (hs : Represents s t server)
    (hr : s.requests r = none) (hkey : event.idempotencyKey ≠ "") (hredis : event.redis = true)
    (createdAt : Time) :
    RunsTo s event (submitEvent lib replies t (some server) event createdAt) := by
  have harrive : s.step (.arrive r event) = some (s.setRequest r event .looking) :=
    if_pos ⟨hr, hkey⟩
  have hcached : (s.setRequest r event .looking).getCached event =
      server.values (idempotencyRedisKey event.partner.id event.idempotencyKey) := by
    rw [Ingest.getCached, if_pos hredis, ← hs.redis]
    rfl
  cases hget : replies.getCached with
  | raised executed =>
    have hresult := submit_get_raises hget lib t server event createdAt
    have hfail : (s.setRequest r event .looking).step (.fail r) =
        some ((s.setRequest r event .looking).endRequest r []) := by
      simp [Ingest.step, Ingest.setRequest]
    rw [hresult]
    refine runsTo_of_end .looking [.arrive r event, .fail r] hs hr ?_ rfl rfl
    rw [exec_cons, harrive, Option.bind_some, exec_cons, hfail]
    rfl
  | answered =>
    cases hraw : server.values (idempotencyRedisKey event.partner.id event.idempotencyKey) with
    | some raw =>
      cases hparse : Uuid.parse raw with
      | none =>
        have hresult : submitEvent lib replies t (some server) event createdAt =
            ⟨.refused (.raised .valueError), t, some server, false⟩ := by
          simp only [submitEvent, getCachedEventId, hget, hraw, hparse]
        rw [hresult]
        refine runsTo_of_end .looking [.arrive r event, .getCachedEventId r] hs hr ?_ rfl rfl
        rw [exec_cons, harrive, Option.bind_some, exec_cons]
        simp only [Ingest.step, setRequest_self, hcached, hraw, hparse]
        rfl
      | some eventId =>
        have hresult : submitEvent lib replies t (some server) event createdAt =
            ⟨.duplicate eventId, t, some server, false⟩ := by
          simp only [submitEvent, getCachedEventId, hget, hraw, hparse]
        rw [hresult]
        refine runsTo_of_end .looking [.arrive r event, .getCachedEventId r] hs hr ?_ rfl rfl
        rw [exec_cons, harrive, Option.bind_some, exec_cons]
        simp only [Ingest.step, setRequest_self, hcached, hraw, hparse]
        rfl
    | none =>
      have hlook : exec Ingest.step s [.arrive r event, .getCachedEventId r] =
          some (s.setRequest r event .inserting) := by
        rw [exec_cons, harrive, Option.bind_some, exec_cons]
        simp only [Ingest.step, setRequest_self, hcached, hraw, setRequest_setRequest]
        rfl
      rw [submit_missing hget hraw]
      by_cases hinserts : Inserts lib t event
      · exact runsTo_of_inserts hs hr hredis hinserts hlook createdAt
      · exact runsTo_of_refused hs hr hinserts hlook createdAt

theorem readEvent_ok {partner : Partner} {idempotencyHeader : String} {hasRedis : Bool}
    (h : readEvent lib t req partner idempotencyHeader hasRedis = .ok event) :
    event.partner = partner ∧ event.idempotencyHeader = idempotencyHeader ∧
      event.redis = hasRedis ∧ event.eventId = req.eventId := by
  unfold readEvent at h
  split at h
  · cases h
  · cases h
  · dsimp only at h
    split_ifs at h
    cases hcorr : req.correlationId with
    | none => simp [hcorr] at h
    | some correlationId =>
      simp only [hcorr, Except.ok.injEq] at h
      exact ⟨h ▸ rfl, h ▸ rfl, h ▸ rfl, h ▸ rfl⟩

theorem checkRequest_key {partner : Partner} {idempotencyHeader : String}
    (h : checkRequest lib settings t req = .ok (partner, idempotencyHeader)) :
    strip idempotencyHeader ≠ "" := by
  unfold checkRequest at h
  split at h
  · cases h
  · rename_i header hheader
    split_ifs at h with hblank
    simp only [bind, Except.bind, pure, Except.pure] at h
    split at h
    · cases h
    split at h
    · cases h
    split at h
    · cases h
    split at h
    · cases h
    obtain ⟨-, rfl⟩ := Prod.mk.inj (Except.ok.inj h)
    exact hblank

/-- A request that gets as far as its key is a run of the steps, whatever Redis answers. -/
theorem ingest_runs (hs : Represents s t server) (hr : s.requests r = none)
    (hreaches : Reaches lib settings replies t server req event) :
    RunsTo s event (ingestEvent lib settings replies t (some server) req) := by
  obtain ⟨partner, idempotencyHeader, hcheck, hallowed, hread⟩ := hreaches
  obtain ⟨server', hvalues, hresult⟩ := ingest_admitted hcheck hallowed
  simp only [hread] at hresult
  have hs' : Represents s t server' := { hs with redis := hs.redis.trans hvalues.symm }
  obtain ⟨-, hheader, hredis, -⟩ := readEvent_ok hread
  have hkey : event.idempotencyKey ≠ "" := by
    rw [IngestRequest.idempotencyKey, hheader]
    exact checkRequest_key hcheck
  rw [hresult]
  exact submit_runs lib replies hs' hr hkey hredis req.committedAt

end PartnerHub.Inbound
