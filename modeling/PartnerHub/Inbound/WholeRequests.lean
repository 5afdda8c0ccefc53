import PartnerHub.Inbound.Deduplication
import PartnerHub.Inbound.Uninterrupted

/-!
# Whole requests one after the other

A service that answers inbound requests, each from its headers to its response and with any
replies of Redis, while the rest of the hub writes its tables, relays publish the rows, and
cached ids expire. Its runs are runs of the steps `ingest_event` is cut into, so that a
partner's key has one event. A request is answered from the stored events, and the cache shows
in one case: a known key whose id has left the cache conflicts at the flush, and the handler
goes on after a rollback that has expired the partner it loaded.
-/
namespace PartnerHub.Inbound

open PartnerHub.Domain PartnerHub.Lib PartnerHub.Outbound PartnerHub.Secrets PartnerHub.Lib.System
open PartnerHub.PartnerApi (PartnerApiKey)

structure InboundService where
  tables : InboundTables
  redis : InboundRedis
  answers : List Answer

def InboundService.init : InboundService where
  tables := { hub := {}, secrets := .init, apiKeys := [], events := [] }
  redis := { buckets := fun _ => {}, values := fun _ => none }
  answers := []

/-- An event but for the column the relay writes. -/
def unpublished (e : InboundEvent) : InboundEvent := { e with publishedAt := none }

inductive ServiceAction where
  | serve (replies : RedisReplies) (req : InboundRequest)
  | write (t : InboundTables)
  | expire (key : String)
  | setBuckets (buckets : String → RateLimit.Keys)

section Service

variable (lib : Libraries) (settings : InboundSettings)

/-- The response, with the partner and the key, to a request whose event could be read. -/
def InboundService.answersTo (s : InboundService) (replies : RedisReplies) (req : InboundRequest) :
    List Answer :=
  match checkRequest lib settings s.tables req with
  | .error _ => []
  | .ok (partner, idempotencyHeader) =>
    match readEvent lib s.tables req partner idempotencyHeader true with
    | .error _ => []
    | .ok event => (ingestEvent lib settings replies s.tables (some s.redis) req).answers event

/-- Other writes insert and delete no inbound event and no outbox row of one. -/
def InboundService.step (s : InboundService) : ServiceAction → Option InboundService
  | .serve replies req =>
    let result := ingestEvent lib settings replies s.tables (some s.redis) req
    some
      { tables := result.tables, redis := result.redis.getD s.redis
        answers := s.answers ++ s.answersTo lib settings replies req }
  | .write t =>
    if t.events.map unpublished = s.tables.events.map unpublished ∧
        t.hub.outbox.filterMap outboxKey = s.tables.hub.outbox.filterMap outboxKey then
      some { s with tables := t }
    else none
  | .expire key =>
    some { s with redis := { s.redis with values := Function.update s.redis.values key none } }
  | .setBuckets buckets => some { s with redis := { s.redis with buckets := buckets } }

/-- Redis answers and PostgreSQL takes the row. -/
structure Served (replies : RedisReplies) (event : IngestRequest) : Prop where
  got : replies.getCached = .answered
  set : replies.setCached = .answered
  storable : lib.storable event.inbound = true

/-- The id Redis has cached for the key of a request. -/
def InboundService.cachedId (s : InboundService) (event : IngestRequest) : Option String :=
  s.redis.values (idempotencyRedisKey event.partner.id event.idempotencyKey)

/-- The outcome of a request whose key is stored and no longer cached: the existing event, if
the partner can be read after the rollback. -/
def afterRollback (e : InboundEvent) : Outcome :=
  if lib.orm.readable false = true then .duplicate e.id else .refused (.raised .missingGreenlet)

/-- What a request that gets as far as its key is answered, and what it leaves behind. -/
structure AnsweredFromEvents (s : InboundService) (replies : RedisReplies) (req : InboundRequest)
    (event : IngestRequest) : Prop where
  cached : ∀ e ∈ s.tables.events, eventKey e = event.key → s.cachedId event ≠ none →
    (ingestEvent lib settings replies s.tables (some s.redis) req).outcome = .duplicate e.id ∧
      (ingestEvent lib settings replies s.tables (some s.redis) req).tables = s.tables
  expired : ∀ e ∈ s.tables.events, eventKey e = event.key → s.cachedId event = none →
    (ingestEvent lib settings replies s.tables (some s.redis) req).outcome =
        afterRollback lib e ∧
      (ingestEvent lib settings replies s.tables (some s.redis) req).tables = s.tables
  new : (∀ e ∈ s.tables.events, ¬ Collides e event.inbound) →
    (ingestEvent lib settings replies s.tables (some s.redis) req).outcome =
        .accepted event.eventId ∧
      (ingestEvent lib settings replies s.tables (some s.redis) req).tables =
        s.tables.commitEvent event req.committedAt

/-- The service is in a state the steps reach, but for what relays wrote into it. -/
structure Idempotent (s : InboundService) : Prop where
  refines : ∃ s₀, Reachable Ingest.step Ingest.init s₀ ∧
    s.tables.events.map unpublished = s₀.events.map unpublished ∧
    s₀.redis = s.redis.values ∧ s₀.answers = s.answers
  one_event : (s.tables.events.map eventKey).Nodup
  outbox : s.tables.hub.outbox.filterMap outboxKey = s.tables.events.map eventKey
  one_accepted : (s.answers.filterMap acceptedKey).Nodup
  carries : ∀ a ∈ s.answers, ∀ i, a.response.eventId = some i →
    ∃ e ∈ s.tables.events, eventKey e = a.key ∧ e.id = i
  answered : ∀ replies req event, Reaches lib settings replies s.tables s.redis req event →
    Served lib replies event → AnsweredFromEvents lib settings s replies req event

end Service

variable {lib : Libraries} {settings : InboundSettings} {replies : RedisReplies}
  {t : InboundTables} {server : InboundRedis} {req : InboundRequest} {event : IngestRequest}
  {s s' : InboundService} {s₀ : Ingest}

/-- The steps reach the rows, cached ids and answers of the service, with no request under way. -/
structure Simulated (s : InboundService) (s₀ : Ingest) : Prop where
  reachable : Reachable Ingest.step Ingest.init s₀
  events : s.tables.events.map unpublished = s₀.events.map unpublished
  outbox : s.tables.hub.outbox.filterMap outboxKey = s₀.outboxKeys
  redis : s₀.redis = s.redis.values
  pending : s₀.pending = []
  answers : s₀.answers = s.answers
  idle : ∀ r, s₀.requests r = none

theorem simulated_init : Simulated InboundService.init Ingest.init :=
  ⟨⟨[], rfl⟩, rfl, rfl, rfl, rfl, rfl, fun _ => rfl⟩

theorem sound_of_reachable (h : Reachable Ingest.step Ingest.init s₀) : Sound s₀ :=
  h.invariant Sound (fun _ _ _ hi hs => sound_step hi hs) sound_init

theorem Simulated.reach {as : List IngestAction} {s₁ : Ingest} (h : Simulated s s₀)
    (hrun : exec Ingest.step s₀ as = some s₁) : Reachable Ingest.step Ingest.init s₁ := by
  obtain ⟨bs, hbs⟩ := h.reachable
  refine ⟨bs ++ as, ?_⟩
  rw [exec_append, hbs]
  exact hrun

section Rows

variable {l l' : List InboundEvent}

theorem mem_of_unpublished (h : l.map unpublished = l'.map unpublished) {e : InboundEvent}
    (he : e ∈ l') : ∃ e' ∈ l, eventKey e' = eventKey e ∧ e'.id = e.id := by
  have hmem : unpublished e ∈ l.map unpublished := h ▸ List.mem_map_of_mem he
  obtain ⟨e', he', heq⟩ := List.mem_map.mp hmem
  have hkey : eventKey (unpublished e') = eventKey (unpublished e) := congrArg eventKey heq
  have hid : (unpublished e').id = (unpublished e).id := congrArg InboundEvent.id heq
  exact ⟨e', he', hkey, hid⟩

theorem map_eventKey_unpublished (h : l.map unpublished = l'.map unpublished) :
    l.map eventKey = l'.map eventKey := by
  have hkeys : ∀ l : List InboundEvent, l.map eventKey = (l.map unpublished).map eventKey := by
    intro l
    rw [List.map_map]
    rfl
  rw [hkeys l, h, ← hkeys l']

theorem collides_unpublished (h : l.map unpublished = l'.map unpublished) (x : InboundEvent) :
    (∃ e ∈ l, Collides e x) ↔ ∃ e ∈ l', Collides e x := by
  have hone : ∀ {l l' : List InboundEvent}, l.map unpublished = l'.map unpublished →
      (∃ e ∈ l', Collides e x) → ∃ e ∈ l, Collides e x := by
    intro l l' h hc
    obtain ⟨e, he, hcol⟩ := hc
    obtain ⟨e', he', hkey, hid⟩ := mem_of_unpublished h he
    exact ⟨e', he', hcol.imp hkey.trans hid.trans⟩
  exact ⟨hone h.symm, hone h⟩

theorem find_unpublished (h : l.map unpublished = l'.map unpublished) (key : Nat × String) :
    (l.find? fun e => eventKey e = key).map InboundEvent.id =
      (l'.find? fun e => eventKey e = key).map InboundEvent.id := by
  have hids : ∀ l : List InboundEvent, (l.find? fun e => eventKey e = key).map InboundEvent.id =
      ((l.map unpublished).find? fun e => eventKey e = key).map InboundEvent.id := by
    intro l
    rw [List.find?_map, Option.map_map]
    rfl
  rw [hids l, h, ← hids l']

end Rows

/-- The tables with other inbound events and another outbox. -/
def InboundTables.withRows (t : InboundTables) (events : List InboundEvent)
    (outbox : List OutboxEvent) (outboxSeq : Nat) : InboundTables :=
  { t with events := events, hub := { t.hub with outbox := outbox, outboxSeq := outboxSeq } }

/-- The same happens on both tables: nothing, or the commit of one event. -/
structure SameResult (t t' : InboundTables) (result result' : IngestResult) : Prop where
  outcome : result.outcome = result'.outcome
  redis : result.redis = result'.redis
  tables : result.tables = t ∧ result'.tables = t' ∨ ∃ event createdAt,
    result.tables = t.commitEvent event createdAt ∧ result'.tables = t'.commitEvent event createdAt

theorem SameResult.untouched {t' : InboundTables} (outcome : Outcome)
    (redis : Option InboundRedis) (committed : Bool) :
    SameResult t t' ⟨outcome, t, redis, committed⟩ ⟨outcome, t', redis, committed⟩ :=
  ⟨rfl, rfl, .inl ⟨rfl, rfl⟩⟩

theorem insert_same {t' : InboundTables}
    (h : t.events.map unpublished = t'.events.map unpublished) (redis : Option InboundRedis)
    (createdAt : Time) :
    SameResult t t' (insertEvent lib replies t redis event createdAt)
      (insertEvent lib replies t' redis event createdAt) := by
  simp only [insertEvent]
  by_cases hstorable : lib.storable event.inbound = false
  · simp only [if_pos hstorable]
    exact .untouched ..
  simp only [if_neg hstorable]
  by_cases hcollides : ∃ e ∈ t'.events, Collides e event.inbound
  · simp only [if_pos hcollides, if_pos ((collides_unpublished h _).mpr hcollides)]
    split_ifs
    · exact .untouched ..
    · have hfind := find_unpublished h event.key
      cases hold : t.events.find? fun e => eventKey e = event.key with
      | none =>
        rw [hold] at hfind
        rw [Option.map_eq_none_iff.mp hfind.symm]
        exact .untouched ..
      | some e =>
        rw [hold] at hfind
        obtain ⟨e', he', hid⟩ := Option.map_eq_some_iff.mp hfind.symm
        rw [he']
        simp only [hid]
        exact .untouched ..
  · simp only [if_neg hcollides, if_neg (mt (collides_unpublished h _).mp hcollides)]
    exact ⟨rfl, rfl, .inr ⟨event, createdAt, rfl, rfl⟩⟩

/-- What relays write, and the outbox, play no part in a request. -/
theorem ingest_same (lib : Libraries) (settings : InboundSettings) (replies : RedisReplies)
    (req : InboundRequest) {events : List InboundEvent}
    (h : t.events.map unpublished = events.map unpublished) (outbox : List OutboxEvent)
    (outboxSeq : Nat) (redis : Option InboundRedis) :
    SameResult t (t.withRows events outbox outboxSeq) (ingestEvent lib settings replies t redis req)
      (ingestEvent lib settings replies (t.withRows events outbox outboxSeq) redis req) := by
  have hcheck : checkRequest lib settings (t.withRows events outbox outboxSeq) req =
      checkRequest lib settings t req := rfl
  simp only [ingestEvent, hcheck]
  cases checkRequest lib settings t req with
  | error r => exact .untouched ..
  | ok checked =>
    obtain ⟨partner, idempotencyHeader⟩ := checked
    have hread : ∀ hasRedis,
        readEvent lib (t.withRows events outbox outboxSeq) req partner idempotencyHeader hasRedis =
          readEvent lib t req partner idempotencyHeader hasRedis := fun _ => rfl
    simp only [hread]
    split_ifs
    · exact .untouched ..
    cases readEvent lib t req partner idempotencyHeader _ with
    | error r => exact .untouched ..
    | ok event =>
      simp only [submitEvent]
      cases getCachedEventId _ replies.getCached event.partner.id event.idempotencyKey with
      | error outcome => exact .untouched ..
      | ok cached =>
        cases cached with
        | none => exact insert_same h _ req.committedAt
        | some eventId => exact .untouched ..

/-- The limiter turns a request away with the same values in Redis. -/
theorem ingest_turned_away {partner : Partner} {idempotencyHeader : String}
    (hcheck : checkRequest lib settings t req = .ok (partner, idempotencyHeader))
    (hlimited : (limitRequest replies (some server) partner req.limitedAt).2 = false) :
    ∃ server', server'.values = server.values ∧
      ingestEvent lib settings replies t (some server) req =
        ⟨.refused (refuse 429 "Rate limit exceeded."), t, some server', false⟩ := by
  obtain ⟨server', hserver, hvalues⟩ := limitRequest_values replies server partner req.limitedAt
  refine ⟨server', hvalues, ?_⟩
  simp only [ingestEvent, hcheck, hlimited, hserver, if_true]

theorem SameResult.answers {t' : InboundTables} {result result' : IngestResult}
    (h : SameResult t t' result result') (event : IngestRequest) :
    result.answers event = result'.answers event := by
  simp only [IngestResult.answers, h.outcome]

/-- The rows that two tables with the same rows have after the same request. -/
theorem SameResult.rows {t' : InboundTables} {result result' : IngestResult}
    (h : SameResult t t' result result')
    (hevents : t.events.map unpublished = t'.events.map unpublished)
    (houtbox : t.hub.outbox.filterMap outboxKey = t'.hub.outbox.filterMap outboxKey) :
    result.tables.events.map unpublished = result'.tables.events.map unpublished ∧
      result.tables.hub.outbox.filterMap outboxKey =
        result'.tables.hub.outbox.filterMap outboxKey := by
  rcases h.tables with ⟨hr, hr'⟩ | ⟨event, createdAt, hr, hr'⟩
  · rw [hr, hr']
    exact ⟨hevents, houtbox⟩
  · rw [hr, hr']
    have hkey : outboxKey (event.outboxEvent (t.hub.outboxSeq + 1) createdAt) =
        outboxKey (event.outboxEvent (t'.hub.outboxSeq + 1) createdAt) := rfl
    constructor
    · simp only [InboundTables.commitEvent, List.map_append, hevents]
    · simp only [InboundTables.commitEvent, List.filterMap_append, houtbox, List.filterMap_cons,
        hkey]

/-- A request that ends before its key leaves the rows, the cached ids and the answers alone. -/
theorem Simulated.refused (h : Simulated s s₀) {result : IngestResult}
    (htables : result.tables = s.tables)
    (hvalues : (result.redis.getD s.redis).values = s.redis.values) {answers : List Answer}
    (hanswers : answers = []) :
    Simulated
      { tables := result.tables, redis := result.redis.getD s.redis
        answers := s.answers ++ answers } s₀ where
  reachable := h.reachable
  events := htables ▸ h.events
  outbox := htables ▸ h.outbox
  redis := h.redis.trans hvalues.symm
  pending := h.pending
  answers := by
    rw [hanswers, List.append_nil]
    exact h.answers
  idle := h.idle

/-- A request that gets as far as its key is some steps. -/
theorem Simulated.reaches (h : Simulated s s₀)
    (hreaches : Reaches lib settings replies s.tables s.redis req event) :
    ∃ s₁, Simulated
      { tables := (ingestEvent lib settings replies s.tables (some s.redis) req).tables
        redis := (ingestEvent lib settings replies s.tables (some s.redis) req).redis.getD s.redis
        answers := s.answers ++
          (ingestEvent lib settings replies s.tables (some s.redis) req).answers event } s₁ := by
  have hsame := ingest_same lib settings replies req h.events s₀.outbox s₀.outboxSeq (some s.redis)
  have hrep : Represents s₀ (s.tables.withRows s₀.events s₀.outbox s₀.outboxSeq) s.redis :=
    ⟨rfl, rfl, rfl, h.redis, h.pending⟩
  have hruns : RunsTo s₀ event (ingestEvent lib settings replies
      (s.tables.withRows s₀.events s₀.outbox s₀.outboxSeq) (some s.redis) req) :=
    ingest_runs hrep (h.idle 0) hreaches
  obtain ⟨as, s₁, server', hrun, hredis, hreps, hrequests, hanswers⟩ := hruns
  obtain ⟨hevents, houtbox⟩ := hsame.rows h.events h.outbox
  refine ⟨s₁, h.reach hrun, ?_, ?_, ?_, hreps.pending, ?_, fun r => hrequests ▸ h.idle r⟩
  · rw [hreps.events]
    exact hevents
  · rw [Ingest.outboxKeys, hreps.outbox]
    exact houtbox
  · show s₁.redis = (Option.getD _ s.redis).values
    rw [hsame.redis, hredis]
    exact hreps.redis
  · rw [hanswers, h.answers, hsame.answers]

theorem simulated_serve (h : Simulated s s₀)
    (hs : s.step lib settings (.serve replies req) = some s') : ∃ s₁, Simulated s' s₁ := by
  obtain rfl := Option.some.inj hs
  cases hcheck : checkRequest lib settings s.tables req with
  | error r =>
    have hresult := ingest_refused replies (some s.redis) hcheck
    refine ⟨s₀, h.refused ?_ ?_ ?_⟩
    · rw [hresult]
    · rw [hresult]
      rfl
    · simp only [InboundService.answersTo, hcheck]
  | ok checked =>
    obtain ⟨partner, idempotencyHeader⟩ := checked
    cases hlimit : (limitRequest replies (some s.redis) partner req.limitedAt).2 with
    | false =>
      obtain ⟨server', hvalues, hresult⟩ := ingest_turned_away hcheck hlimit
      refine ⟨s₀, h.refused ?_ ?_ ?_⟩
      · rw [hresult]
      · rw [hresult]
        exact hvalues
      · simp only [InboundService.answersTo, hcheck, hresult]
        cases readEvent lib s.tables req partner idempotencyHeader true with
        | error r => rfl
        | ok event => rfl
    | true =>
      cases hread : readEvent lib s.tables req partner idempotencyHeader true with
      | error r =>
        obtain ⟨server', hvalues, hresult⟩ := ingest_admitted hcheck hlimit
        simp only [hread] at hresult
        refine ⟨s₀, h.refused ?_ ?_ ?_⟩
        · rw [hresult]
        · rw [hresult]
          exact hvalues
        · simp only [InboundService.answersTo, hcheck, hread]
      | ok event =>
        have hanswers : s.answersTo lib settings replies req =
            (ingestEvent lib settings replies s.tables (some s.redis) req).answers event := by
          simp only [InboundService.answersTo, hcheck, hread]
        rw [hanswers]
        exact h.reaches ⟨partner, idempotencyHeader, hcheck, hlimit, hread⟩

theorem simulated_step (h : Simulated s s₀) {a : ServiceAction}
    (hs : s.step lib settings a = some s') : ∃ s₁, Simulated s' s₁ := by
  cases a with
  | serve replies req => exact simulated_serve h hs
  | write t =>
    simp only [InboundService.step] at hs
    split at hs
    · rename_i hsame
      cases hs
      exact ⟨s₀, h.reachable, hsame.1.trans h.events, hsame.2.trans h.outbox, h.redis, h.pending,
        h.answers, h.idle⟩
    · cases hs
  | expire key =>
    cases hs
    have hrun : exec Ingest.step s₀ [.expire key] = some _ := rfl
    exact ⟨_, h.reach hrun, h.events, h.outbox, congrArg (Function.update · key none) h.redis,
      h.pending, h.answers, h.idle⟩
  | setBuckets buckets =>
    cases hs
    exact ⟨s₀, h.reachable, h.events, h.outbox, h.redis, h.pending, h.answers, h.idle⟩

section Cached

variable (h : Sound s₀) (he : t.events.map unpublished = s₀.events.map unpublished)

include h he

theorem events_nodup : (t.events.map eventKey).Nodup :=
  map_eventKey_unpublished he ▸ h.deduplicated.one_event

/-- Redis holds nothing under a key, or the id of the stored event with the key. -/
theorem cached_cases (hr : s₀.redis = server.values) (event : IngestRequest) :
    server.values (idempotencyRedisKey event.partner.id event.idempotencyKey) = none ∨
    ∃ e ∈ t.events, eventKey e = event.key ∧
      server.values (idempotencyRedisKey event.partner.id event.idempotencyKey) =
        some (Uuid.text e.id) := by
  cases hv : server.values (idempotencyRedisKey event.partner.id event.idempotencyKey) with
  | none => exact .inl rfl
  | some raw =>
    rw [← hr] at hv
    obtain ⟨e, hmem, hkey, rfl⟩ := h.redis _ raw hv
    obtain ⟨e', hmem', hkey', hid⟩ := mem_of_unpublished he hmem
    obtain ⟨hpartner, hidem⟩ := idempotencyRedisKey_injective hkey
    have hevent : eventKey e = event.key := Prod.ext hpartner.symm hidem.symm
    exact .inr ⟨e', hmem', hkey'.trans hevent, by rw [hid]⟩

/-- A cached key is answered with the id of its event. -/
theorem submit_cached (hr : s₀.redis = server.values) (hserved : Served lib replies event)
    {e : InboundEvent} (hmem : e ∈ t.events) (hkey : eventKey e = event.key)
    (hcached : server.values (idempotencyRedisKey event.partner.id event.idempotencyKey) ≠ none)
    (createdAt : Time) :
    submitEvent lib replies t (some server) event createdAt =
      ⟨.duplicate e.id, t, some server, false⟩ := by
  rcases cached_cases h he hr event with hnone | ⟨e', hmem', hkey', hsome⟩
  · exact absurd hnone hcached
  · obtain rfl := Table.eq_of_unique (events_nodup h he) hmem' hmem (hkey'.trans hkey.symm)
    simp only [submitEvent, getCachedEventId, hserved.got, hsome, Uuid.parse_text]

/-- A stored key that is not cached conflicts at the flush. -/
theorem submit_expired (hserved : Served lib replies event) {e : InboundEvent}
    (hmem : e ∈ t.events) (hkey : eventKey e = event.key)
    (hnone : server.values (idempotencyRedisKey event.partner.id event.idempotencyKey) = none)
    (createdAt : Time) :
    submitEvent lib replies t (some server) event createdAt =
      ⟨afterRollback lib e, t, some server, false⟩ := by
  have hcollides : ∃ e ∈ t.events, Collides e event.inbound := ⟨e, hmem, .inl hkey⟩
  rw [submit_missing hserved.got hnone]
  simp only [insertEvent, hserved.storable, Bool.true_eq_false, if_false, if_pos hcollides,
    afterRollback]
  cases hreadable : lib.orm.readable false with
  | false => rfl
  | true =>
    cases hfind : t.events.find? fun e => eventKey e = event.key with
    | none => exact absurd hkey (by simpa using List.find?_eq_none.mp hfind e hmem)
    | some existing =>
      have hexisting : eventKey existing = event.key := by simpa using List.find?_some hfind
      obtain rfl := Table.eq_of_unique (events_nodup h he) (List.mem_of_find?_eq_some hfind) hmem
        (hexisting.trans hkey.symm)
      rfl

/-- A new key is inserted, whatever else was cached. -/
theorem submit_new (hr : s₀.redis = server.values) (hserved : Served lib replies event)
    (hfree : ∀ e ∈ t.events, ¬ Collides e event.inbound) (createdAt : Time) :
    (submitEvent lib replies t (some server) event createdAt).outcome = .accepted event.eventId ∧
      (submitEvent lib replies t (some server) event createdAt).tables =
        t.commitEvent event createdAt := by
  rcases cached_cases h he hr event with hnone | ⟨e, hmem, hkey, -⟩
  · have hnot : ¬∃ e ∈ t.events, Collides e event.inbound := by
      intro hc
      obtain ⟨e, hmem, hcol⟩ := hc
      exact hfree e hmem hcol
    rw [submit_missing hserved.got hnone]
    simp [insertEvent, hserved.storable, hnot, cacheEventId, hserved.set]
  · exact absurd (.inl hkey) (hfree e hmem)

end Cached

theorem Simulated.idempotent (h : Simulated s s₀) : Idempotent lib settings s := by
  have hsound := sound_of_reachable h.reachable
  have hd := hsound.deduplicated
  refine ⟨⟨s₀, h.reachable, h.events, h.redis, h.answers⟩, events_nodup hsound h.events, ?_,
    h.answers ▸ hd.one_accepted, ?_, ?_⟩
  · rw [h.outbox, map_eventKey_unpublished h.events]
    exact hsound.outbox
  · intro a ha i hi
    obtain ⟨e, he, hkey, rfl⟩ := hd.carries a (h.answers ▸ ha) i hi
    obtain ⟨e', he', hkey', hid⟩ := mem_of_unpublished h.events he
    exact ⟨e', he', hkey'.trans hkey, hid⟩
  · intro replies req event hreaches hserved
    obtain ⟨partner, idempotencyHeader, hcheck, hallowed, hread⟩ := hreaches
    obtain ⟨server', hvalues, hresult⟩ := ingest_admitted hcheck hallowed
    simp only [hread] at hresult
    have hredis : s₀.redis = server'.values := h.redis.trans hvalues.symm
    refine ⟨?_, ?_, ?_⟩
    · intro e he hkey hcached
      rw [InboundService.cachedId, ← hvalues] at hcached
      rw [hresult, submit_cached hsound h.events hredis hserved he hkey hcached]
      exact ⟨rfl, rfl⟩
    · intro e he hkey hnone
      rw [InboundService.cachedId, ← hvalues] at hnone
      rw [hresult, submit_expired hsound h.events hserved he hkey hnone]
      exact ⟨rfl, rfl⟩
    · intro hfree
      rw [hresult]
      exact submit_new hsound h.events hredis hserved hfree req.committedAt

/-- Along every run of whole requests, whatever Redis replies to each and whatever the rest of
the hub writes between them: the run is one of the steps, so a partner's key has one event, one
outbox row and one 202, and all its responses carry the id of that event; and a request that
gets as far as its key is answered from the stored events, a known key without a cached id from
what the rollback has left readable. -/
theorem requests_idempotent (lib : Libraries) (settings : InboundSettings)
    (as : List ServiceAction) :
    Throughout (InboundService.step lib settings) (Idempotent lib settings) InboundService.init
      as := by
  have hall : Along (InboundService.step lib settings) (fun _ _ => True) InboundService.init as :=
    along_of_forall fun _ _ _ => trivial
  refine throughout_of_invariant (fun s => ∃ s₀, Simulated s s₀) ?_ ?_
    ⟨Ingest.init, simulated_init⟩ hall
  · intro s a s' hi _ hs
    obtain ⟨s₀, h⟩ := hi
    exact simulated_step h hs
  · intro s hi
    obtain ⟨s₀, h⟩ := hi
    exact h.idempotent

def redisAnswers : RedisReplies := ⟨fun _ => .answered, .answered, .answered⟩

/-- A request is accepted; its cached id expires, and the partner's bucket with it. -/
def expiredOrder : List ServiceAction :=
  [.write acmeTables, .serve redisAnswers orderRequest,
    .expire (idempotencyRedisKey 1 "order-1"), .setBuckets fun _ => {}]

/-- What is read of an order that brings the key `order-1`. -/
theorem order_event (eventId : Uuid) (h : readEvent plainLibraries acmeTables
    { orderRequest with eventId := eventId } acme "order-1" true = .ok event) :
    event.partner = acme ∧ event.idempotencyKey = "order-1" ∧ event.key = (1, "order-1") ∧
      event.eventId = eventId := by
  obtain ⟨hpartner, hheader, -, hid⟩ := readEvent_ok h
  have hkey : event.idempotencyKey = "order-1" := by
    rw [IngestRequest.idempotencyKey, hheader]
    decide
  exact ⟨hpartner, hkey, by rw [IngestRequest.key, hpartner, hkey]; rfl, hid⟩

/-- A committed event shows neither in the checks nor in the reading of the next request. -/
theorem checkRequest_after (lib : Libraries) (settings : InboundSettings) (t : InboundTables)
    (event : IngestRequest) (createdAt : Time) (req : InboundRequest) (eventId : Uuid) :
    checkRequest lib settings (t.commitEvent event createdAt) { req with eventId := eventId } =
      checkRequest lib settings t req :=
  rfl

theorem readEvent_after (lib : Libraries) (t : InboundTables) (event : IngestRequest)
    (createdAt : Time) (req : InboundRequest) (partner : Partner) (header : String) :
    readEvent lib (t.commitEvent event createdAt) req partner header true =
      readEvent lib t req partner header true :=
  rfl

theorem step_accepted (s : InboundService) {partner : Partner} {header : String} {i : Uuid}
    (hcheck : checkRequest lib settings s.tables req = .ok (partner, header))
    (hread : readEvent lib s.tables req partner header true = .ok event)
    (hresult : ingestEvent lib settings replies s.tables (some s.redis) req =
      ⟨.accepted i, t, some server, true⟩) :
    s.step lib settings (.serve replies req) = some ⟨t, server,
      s.answers ++ [⟨event.partner.id, event.idempotencyKey, .accepted i⟩]⟩ := by
  simp only [InboundService.step, InboundService.answersTo, hcheck, hread, hresult,
    IngestResult.answers]
  rfl

theorem order_accepted (hread : readEvent plainLibraries acmeTables orderRequest acme "order-1" true
    = .ok event) : ∃ server, ingestEvent plainLibraries {} redisAnswers acmeTables
      (some InboundService.init.redis) orderRequest =
        ⟨.accepted 7, acmeTables.commitEvent event 100, some server, true⟩ := by
  obtain ⟨-, -, -, hid⟩ := order_event 7 hread
  obtain ⟨server, hvalues, hresult⟩ := ingest_admitted order_checked
    (order_allowed .answered .answered fun _ => none)
  have hmissing : server.values
      (idempotencyRedisKey event.partner.id event.idempotencyKey) = none := by
    rw [hvalues]
  have hnone : ¬∃ e ∈ acmeTables.events, Collides e event.inbound := by simp [acmeTables]
  have hget : (⟨fun _ => .answered, .answered, .answered⟩ : RedisReplies).getCached = .answered :=
    rfl
  have hstorable : plainLibraries.storable event.inbound = true := rfl
  simp only [hread, submit_missing hget hmissing, insertEvent, hstorable, Bool.true_eq_false,
    if_false, if_neg hnone, cacheEventId, hid] at hresult
  exact ⟨_, hresult⟩

/-- Once the cached id has expired, the next request with the key ends in an error. -/
theorem expired_order_raises :
    ∃ s, exec (InboundService.step plainLibraries {}) InboundService.init expiredOrder = some s ∧
      s.answers = [⟨1, "order-1", .accepted 7⟩] ∧
      (ingestEvent plainLibraries {} redisAnswers s.tables (some s.redis)
        { orderRequest with eventId := 8 }).outcome = .refused (.raised .missingGreenlet) := by
  obtain ⟨event, hread⟩ := order_read 7
  obtain ⟨retry, hretry⟩ := order_read 8
  obtain ⟨hpartner, hheader, hkey, -⟩ := order_event 7 hread
  obtain ⟨hpartner', hheader', hkey', -⟩ := order_event 8 hretry
  obtain ⟨server, hresult⟩ := order_accepted hread
  have hwrite : InboundService.init.step plainLibraries {} (.write acmeTables) =
      some { InboundService.init with tables := acmeTables } := rfl
  have hserve := step_accepted { InboundService.init with tables := acmeTables } order_checked hread
    hresult
  have hrun : exec (InboundService.step plainLibraries {}) InboundService.init expiredOrder =
      some ⟨acmeTables.commitEvent event 100, ⟨fun _ => {}, Function.update server.values
        (idempotencyRedisKey 1 "order-1") none⟩,
        [⟨event.partner.id, event.idempotencyKey, .accepted 7⟩]⟩ := by
    rw [expiredOrder, exec_cons, hwrite, Option.bind_some, exec_cons, hserve]
    rfl
  have h := (requests_idempotent plainLibraries {} expiredOrder).last hrun
  have hreaches : Reaches plainLibraries {} redisAnswers (acmeTables.commitEvent event 100)
      ⟨fun _ => {}, Function.update server.values (idempotencyRedisKey 1 "order-1") none⟩
      { orderRequest with eventId := 8 } retry :=
    ⟨acme, "order-1", (checkRequest_after ..).trans order_checked,
      order_allowed .answered .answered _, (readEvent_after ..).trans hretry⟩
  have hnone : Function.update server.values (idempotencyRedisKey 1 "order-1") none
      (idempotencyRedisKey retry.partner.id retry.idempotencyKey) = none := by
    rw [hpartner', hheader']
    exact Function.update_self (idempotencyRedisKey 1 "order-1") none server.values
  have hexpired := (h.answered _ _ retry hreaches ⟨rfl, rfl, rfl⟩).expired event.inbound
    (List.mem_singleton_self _) (hkey.trans hkey'.symm) hnone
  exact ⟨_, hrun, by rw [hpartner, hheader]; rfl, hexpired.1⟩

end PartnerHub.Inbound
