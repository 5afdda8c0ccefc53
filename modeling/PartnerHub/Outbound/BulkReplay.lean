import PartnerHub.Domain.Text
import PartnerHub.Outbound.Replay
import PartnerHub.RateLimit.Outage

/-!
# Replaying many deliveries

`bulk_replay_deliveries` of `replay_service.py` for the ids `BulkReplayRequest` lets through.
Every id is committed before the next one is looked at, and takes a token from the bucket of
its partner. No other session writes meanwhile; Redis may raise at any command.
-/
namespace PartnerHub.Outbound

open PartnerHub.Domain PartnerHub.Lib
open PartnerHub.Circuit (Reply getCircuitState)
open PartnerHub.RateLimit (Command allowRequestUnder)

/-- `dedupe_delivery_ids`. -/
def dedupeDeliveryIds (value : List Uuid) : List Uuid :=
  (value.foldl
    (fun (seen, deduped) deliveryId =>
      if deliveryId ∈ seen then (seen, deduped)
      else (insert deliveryId seen, deduped ++ [deliveryId]))
    ((∅ : Finset Uuid), [])).2

structure BulkReplayRequest where
  deliveryIds : List Uuid
  reason : String
  deriving DecidableEq, Repr

/-- The length is checked before the ids are deduplicated. -/
def BulkReplayRequest.validate (deliveryIds : List Uuid) (reason : String) :
    Option BulkReplayRequest :=
  if 1 ≤ deliveryIds.length ∧ deliveryIds.length ≤ 100 ∧ strip reason ≠ "" then
    some ⟨dedupeDeliveryIds deliveryIds, strip reason⟩
  else none

/-- Where an id ends up. -/
inductive Category where
  | replayed | skippedOpenCircuit | skippedRateLimited | skippedInvalidStatus | notFound
  deriving DecidableEq, Repr

structure BulkReplayResult where
  requested : List Uuid
  replayed : List Uuid := []
  skippedOpenCircuit : List Uuid := []
  skippedRateLimited : List Uuid := []
  skippedInvalidStatus : List Uuid := []
  notFound : List Uuid := []
  deriving DecidableEq, Repr

def BulkReplayResult.ids (r : BulkReplayResult) : Category → List Uuid
  | .replayed => r.replayed
  | .skippedOpenCircuit => r.skippedOpenCircuit
  | .skippedRateLimited => r.skippedRateLimited
  | .skippedInvalidStatus => r.skippedInvalidStatus
  | .notFound => r.notFound

def BulkReplayResult.append (r : BulkReplayResult) (deliveryPublicId : Uuid) :
    Category → BulkReplayResult
  | .replayed => { r with replayed := r.replayed ++ [deliveryPublicId] }
  | .skippedOpenCircuit =>
    { r with skippedOpenCircuit := r.skippedOpenCircuit ++ [deliveryPublicId] }
  | .skippedRateLimited =>
    { r with skippedRateLimited := r.skippedRateLimited ++ [deliveryPublicId] }
  | .skippedInvalidStatus =>
    { r with skippedInvalidStatus := r.skippedInvalidStatus ++ [deliveryPublicId] }
  | .notFound => { r with notFound := r.notFound ++ [deliveryPublicId] }

/-- The breaker and the token bucket of each partner, by slug. -/
structure RedisState where
  circuits : String → Circuit.Keys
  buckets : String → RateLimit.Keys

def RedisState.setBucket (redis : RedisState) (slug : String) (keys : Option RateLimit.Keys) :
    RedisState :=
  match keys with
  | none => redis
  | some keys => { redis with buckets := Function.update redis.buckets slug keys }

/-- `is_open`; `raises` says that one of its two GETs does. -/
def isOpen (settings : Settings) (redis : Option Circuit.Keys) (now : Time) (raises : Bool) :
    Bool :=
  match redis with
  | none => false
  | some keys => !raises && getCircuitState settings keys now = .opened

/-- What an id meets: what Redis answers to its calls, and the readings of the clock. -/
structure Turn where
  circuitRaises : Bool
  circuitNow : Time
  reply : Command → Reply
  limitNow : Time
  scheduledAt : Time
  createdAt : Time

structure BulkState where
  db : Db
  redis : Option RedisState
  result : BulkReplayResult

def BulkState.append (s : BulkState) (deliveryPublicId : Uuid) (category : Category) : BulkState :=
  { s with result := s.result.append deliveryPublicId category }

/-- `bulk_replay_deliveries` passes no trigger and keeps the counter. -/
def bulkRequest (actorId reason : String) (turn : Turn) : ReplayRequest where
  actorId := actorId
  reason := reason
  resetAttemptCounter := false
  trigger := .manual
  scheduledAt := turn.scheduledAt
  createdAt := turn.createdAt

section Dedupe

/-- The ids that do not stand earlier in the list, in their order. -/
def firstOccurrences (value : List Uuid) : List Uuid :=
  (value.zipIdx.filter fun x => !(value.take x.2).contains x.1).map (·.1)

theorem firstOccurrences_snoc (value : List Uuid) (id : Uuid) :
    firstOccurrences (value ++ [id]) =
      firstOccurrences value ++ if id ∈ value then [] else [id] := by
  have hold : (value.zipIdx.filter fun x => !((value ++ [id]).take x.2).contains x.1) =
      value.zipIdx.filter fun x => !(value.take x.2).contains x.1 := by
    apply List.filter_congr
    intro x hx
    have hlt : x.2 < value.length := by
      have hidx := (List.mem_zipIdx hx).2.1
      omega
    rw [List.take_append_of_le_length hlt.le]
  rw [firstOccurrences, List.zipIdx_append, List.filter_append, hold, List.map_append]
  by_cases hmem : id ∈ value <;> simp [firstOccurrences, hmem]

theorem dedupeDeliveryIds_eq (value : List Uuid) :
    dedupeDeliveryIds value = firstOccurrences value := by
  have hfold : value.foldl
      (fun (seen, deduped) deliveryId =>
        if deliveryId ∈ seen then (seen, deduped)
        else (insert deliveryId seen, deduped ++ [deliveryId]))
      ((∅ : Finset Uuid), []) = (value.toFinset, firstOccurrences value) := by
    induction value using List.reverseRecOn with
    | nil => rfl
    | append_singleton value id ih =>
      rw [List.foldl_append, ih, firstOccurrences_snoc]
      by_cases hmem : id ∈ value <;> simp [hmem, List.toFinset_append]
  rw [dedupeDeliveryIds, hfold]

theorem mem_firstOccurrences (value : List Uuid) (i : Uuid) :
    i ∈ firstOccurrences value ↔ i ∈ value := by
  induction value using List.reverseRecOn with
  | nil => simp [firstOccurrences]
  | append_singleton value x ih =>
    rw [firstOccurrences_snoc, List.mem_append, List.mem_append, ih]
    by_cases hx : x ∈ value
    · rw [if_pos hx]
      simp only [List.not_mem_nil, or_false, List.mem_singleton]
      exact ⟨.inl, fun h => h.elim id fun he => he ▸ hx⟩
    · rw [if_neg hx]

theorem nodup_firstOccurrences (value : List Uuid) : (firstOccurrences value).Nodup := by
  induction value using List.reverseRecOn with
  | nil => simp [firstOccurrences]
  | append_singleton value x ih =>
    rw [firstOccurrences_snoc]
    by_cases hx : x ∈ value
    · simpa [hx] using ih
    · rw [if_neg hx]
      refine List.nodup_append.mpr ⟨ih, List.nodup_singleton x, ?_⟩
      intro a ha b hb he
      rw [List.mem_singleton.mp hb] at he
      exact hx ((mem_firstOccurrences value x).mp (he ▸ ha))

/-- A validated request has distinct ids, the requested ones, and a reason that is not blank. -/
theorem validate_some {deliveryIds : List Uuid} {reason : String} {request : BulkReplayRequest}
    (h : BulkReplayRequest.validate deliveryIds reason = some request) :
    request.deliveryIds = firstOccurrences deliveryIds ∧ request.deliveryIds.Nodup ∧
      request.deliveryIds ≠ [] ∧ request.reason ≠ "" := by
  unfold BulkReplayRequest.validate at h
  split_ifs at h with hvalid
  obtain ⟨hlength, -, hreason⟩ := hvalid
  obtain rfl := Option.some.inj h
  refine ⟨dedupeDeliveryIds_eq deliveryIds, ?_, ?_, hreason⟩
  · rw [dedupeDeliveryIds_eq]
    exact nodup_firstOccurrences deliveryIds
  · obtain ⟨i, hi⟩ := List.exists_mem_of_length_pos hlength
    rw [dedupeDeliveryIds_eq]
    exact List.ne_nil_of_mem ((mem_firstOccurrences deliveryIds i).mpr hi)

end Dedupe

section Accounts

/-- What a batch starts from and what its turns meet. -/
structure Batch where
  settings : Settings
  actorId : String
  reason : String
  turns : Uuid → Turn
  tables : Tables
  redis : Option RedisState

variable {b : Batch} {t : Tables} {redis : Option RedisState} {r : BulkReplayResult}
  {done : List Uuid} {s : BulkState} {i : Uuid} {c : Category}

/-- The breaker of the partner is open when the id has its turn. -/
def Batch.CircuitOpen (b : Batch) (i : Uuid) (slug : String) (redis : Option RedisState) : Prop :=
  isOpen b.settings (redis.map (·.circuits slug)) (b.turns i).circuitNow
    (b.turns i).circuitRaises = true

/-- The call of `allow_request` in the turn of the id: what it leaves and what it answers. -/
def Batch.allow (b : Batch) (i : Uuid) (p : Partner) (redis : Option RedisState) :
    Option RateLimit.Keys × Bool :=
  allowRequestUnder (b.turns i).reply p.rateLimitRps (redis.map (·.buckets p.slug))
    (b.turns i).limitNow

instance (b : Batch) (i : Uuid) (slug : String) (redis : Option RedisState) :
    Decidable (b.CircuitOpen i slug redis) :=
  inferInstanceAs (Decidable (_ = true))

/-- The id of a FAILED delivery whose circuit is not open has asked for a token. -/
def Batch.drain (b : Batch) (redis : Option RedisState) (i : Uuid) : Option RedisState :=
  match b.tables.fetchDeliveryWithPartner i with
  | none => redis
  | some (d, p) =>
    if d.status = .failed ∧ ¬ b.CircuitOpen i p.slug redis then
      redis.map fun keys => keys.setBucket p.slug (b.allow i p redis).1
    else redis

/-- Redis after the turns of these ids: the batch has drained the buckets of their partners. -/
def Batch.redisAfter (b : Batch) (done : List Uuid) : Option RedisState :=
  done.foldl b.drain b.redis

/-- What puts the id there, with Redis as its turn meets it. -/
def Category.Fits (b : Batch) (redis : Option RedisState) (i : Uuid) : Category → Prop
  | .notFound => ∀ d ∈ b.tables.deliveries, d.publicId ≠ i
  | .skippedInvalidStatus => ∃ d ∈ b.tables.deliveries, d.publicId = i ∧ d.status ≠ .failed
  | .skippedOpenCircuit => ∃ d p, b.tables.fetchDeliveryWithPartner i = some (d, p) ∧
      d.status = .failed ∧ b.CircuitOpen i p.slug redis
  | .skippedRateLimited => ∃ d p, b.tables.fetchDeliveryWithPartner i = some (d, p) ∧
      d.status = .failed ∧ ¬ b.CircuitOpen i p.slug redis ∧ (b.allow i p redis).2 = false
  | .replayed => ∃ d p, b.tables.fetchDeliveryWithPartner i = some (d, p) ∧
      d.status = .failed ∧ ¬ b.CircuitOpen i p.slug redis ∧ (b.allow i p redis).2 = true

def markReplaying (replayed : List Uuid) (d : Delivery) : Delivery :=
  if replayed.contains d.publicId then { d with status := .replaying } else d

theorem markReplaying_of_mem {replayed : List Uuid} {d : Delivery} (h : d.publicId ∈ replayed) :
    markReplaying replayed d = { d with status := .replaying } :=
  if_pos (List.elem_eq_true_of_mem h)

theorem markReplaying_of_not_mem {replayed : List Uuid} {d : Delivery}
    (h : d.publicId ∉ replayed) : markReplaying replayed d = d :=
  if_neg fun hmem => h (List.mem_of_elem_eq_true hmem)

/-- The outbox row of a replayed delivery. -/
def ReplayRow (t : Tables) (i : Uuid) (o : OutboxEvent) : Prop :=
  ∃ d ∈ t.deliveries, d.publicId = i ∧ o.aggregateType = .delivery ∧ o.aggregateId = d.id ∧
    o.topic = .outboundPending ∧ o.payload.deliveryId = some i ∧ o.publishedAt = none

def ReplayAudit (b : Batch) (i : Uuid) (a : AuditLog) : Prop :=
  a = { actorId := b.actorId, action := .deliveryReplay, resourceId := i
        metadata := [("reason", b.reason), ("trigger", "manual")] }

/-- The ids `done`, which are distinct, are in one list each, in their order, and each for the
reason its list is named after when it had its turn. -/
def Placed (b : Batch) (done : List Uuid) (r : BulkReplayResult) : Prop :=
  ∃ category : Uuid → Category, (∀ c, r.ids c = done.filter (category · = c)) ∧
    ∀ pre i post, done = pre ++ i :: post → (category i).Fits b (b.redisAfter pre) i

/-- The ids `done` are accounted for: each is placed; the replayed ones have become REPLAYING
and have one outbox row and one audit row each, nothing else has changed in the tables, and
Redis has answered the ids that asked for a token. -/
structure Accounted (b : Batch) (done : List Uuid) (t : Tables) (redis : Option RedisState)
    (r : BulkReplayResult) : Prop where
  placed : Placed b done r
  deliveries : t.deliveries = b.tables.deliveries.map (markReplaying r.replayed)
  outbox : ∃ rows, t.outbox = b.tables.outbox ++ rows ∧
    List.Forall₂ (ReplayRow b.tables) r.replayed rows
  auditLogs : ∃ rows, t.auditLogs = b.tables.auditLogs ++ rows ∧
    List.Forall₂ (ReplayAudit b) r.replayed rows
  frame : t = { b.tables with
    deliveries := t.deliveries, outbox := t.outbox, auditLogs := t.auditLogs
    outboxSeq := t.outboxSeq }
  redis_eq : redis = b.redisAfter done

theorem ids_append (r : BulkReplayResult) (i : Uuid) (c c' : Category) :
    (r.append i c).ids c' = r.ids c' ++ if c = c' then [i] else [] := by
  cases c <;> cases c' <;> simp [BulkReplayResult.append, BulkReplayResult.ids]

theorem replayed_append_of_ne (r : BulkReplayResult) (i : Uuid) (hc : c ≠ .replayed) :
    (r.append i c).replayed = r.replayed := by
  have h := ids_append r i c .replayed
  rwa [if_neg hc, List.append_nil] at h

/-- The next id goes to the end of its list. -/
theorem Placed.append (h : Placed b done r) (hi : i ∉ done)
    (hfits : c.Fits b (b.redisAfter done) i) : Placed b (done ++ [i]) (r.append i c) := by
  obtain ⟨category, hlists, hall⟩ := h
  have hold : ∀ j ∈ done, Function.update category i c j = category j := by
    intro j hj
    exact Function.update_of_ne (ne_of_mem_of_not_mem hj hi) _ _
  refine ⟨Function.update category i c, ?_, ?_⟩
  · intro c'
    have hdone : done.filter (Function.update category i c · = c') =
        done.filter (category · = c') :=
      List.filter_congr fun j hj => by rw [hold j hj]
    rw [ids_append, hlists, List.filter_append, hdone]
    by_cases hc : c = c' <;> simp [hc]
  · intro pre j post hsplit
    rcases List.eq_nil_or_concat' post with rfl | ⟨post, k, rfl⟩
    · obtain ⟨rfl, hj⟩ := List.append_inj' hsplit rfl
      obtain rfl := List.singleton_inj.mp hj
      rw [Function.update_self]
      exact hfits
    · rw [← List.cons_append, ← List.append_assoc] at hsplit
      obtain ⟨hdone, -⟩ := List.append_inj' hsplit rfl
      rw [hold j (hdone ▸ List.mem_append_right _ List.mem_cons_self)]
      exact hall pre j post hdone

theorem redisAfter_snoc (b : Batch) (done : List Uuid) (i : Uuid) :
    b.redisAfter (done ++ [i]) = b.drain (b.redisAfter done) i := by
  simp only [Batch.redisAfter, List.foldl_append, List.foldl_cons, List.foldl_nil]

/-- An id that is not replayed leaves the tables as they are. -/
theorem Accounted.skip (h : Accounted b done t redis r) (hi : i ∉ done)
    (hfits : c.Fits b redis i) (hc : c ≠ .replayed) :
    Accounted b (done ++ [i]) t (b.drain redis i) (r.append i c) where
  placed := h.placed.append hi (h.redis_eq ▸ hfits)
  deliveries := by rw [replayed_append_of_ne r i hc]; exact h.deliveries
  outbox := by rw [replayed_append_of_ne r i hc]; exact h.outbox
  auditLogs := by rw [replayed_append_of_ne r i hc]; exact h.auditLogs
  frame := h.frame
  redis_eq := by rw [redisAfter_snoc, h.redis_eq]

/-- Only ids that have had their turn are replayed. -/
theorem Accounted.replayed_subset (h : Accounted b done t redis r) :
    ∀ j ∈ r.replayed, j ∈ done := by
  obtain ⟨category, hlists, -⟩ := h.placed
  intro j hj
  have hmem : j ∈ r.ids .replayed := hj
  rw [hlists] at hmem
  exact List.mem_of_mem_filter hmem

/-- The row of an id that has not had its turn is the one the batch started with. -/
theorem Accounted.row_iff (h : Accounted b done t redis r) (hi : i ∉ done)
    {d : Delivery} (hd : d.publicId = i) : d ∈ t.deliveries ↔ d ∈ b.tables.deliveries := by
  have hkeep : ∀ d' : Delivery, (markReplaying r.replayed d').publicId = d'.publicId := by
    intro d'
    unfold markReplaying
    split <;> rfl
  have hsame : ∀ d' : Delivery, d'.publicId = i → markReplaying r.replayed d' = d' := by
    intro d' he
    apply markReplaying_of_not_mem
    rw [he]
    exact fun hmem => hi (h.replayed_subset i hmem)
  rw [h.deliveries, List.mem_map]
  constructor
  · rintro ⟨d', hd', rfl⟩
    rw [hkeep] at hd
    rwa [hsame d' hd]
  · exact fun hmem => ⟨d, hmem, hsame d hd⟩

/-- The UPDATE of a replay marks its delivery. -/
theorem flush_replaying (ht : t.Consistent) {d : Delivery} (hd : d ∈ t.deliveries) :
    (t.flush d { d with status := .replaying }).deliveries =
      t.deliveries.map (markReplaying [d.publicId]) := by
  rw [Tables.flush, Table.modify]
  apply List.map_congr_left
  intro d' hd'
  by_cases he : d'.id = d.id
  · obtain rfl := Table.eq_of_unique ht.delivery_id hd' hd he
    rw [if_pos rfl, markReplaying_of_mem (List.mem_singleton_self _)]
    simp [flushDelivery]
  · have hne : d'.publicId ≠ d.publicId := fun hp =>
      he (congrArg Delivery.id (Table.eq_of_unique ht.delivery_publicId hd' hd hp))
    rw [if_neg he, markReplaying_of_not_mem (by simpa using hne)]

theorem markReplaying_append (replayed : List Uuid) (i : Uuid) :
    markReplaying (replayed ++ [i]) = markReplaying [i] ∘ markReplaying replayed := by
  funext d
  rw [Function.comp_apply]
  by_cases hmem : d.publicId ∈ replayed
  · have hmark : (markReplaying replayed d).publicId = d.publicId := by
      rw [markReplaying_of_mem hmem]
    rw [markReplaying_of_mem (List.mem_append_left _ hmem)]
    by_cases hi : d.publicId ∈ [i]
    · rw [markReplaying_of_mem (hmark.symm ▸ hi), markReplaying_of_mem hmem]
    · rw [markReplaying_of_not_mem (hmark.symm ▸ hi), markReplaying_of_mem hmem]
  · rw [markReplaying_of_not_mem hmem]
    by_cases hi : d.publicId ∈ [i]
    · rw [markReplaying_of_mem (List.mem_append_right _ hi), markReplaying_of_mem hi]
    · rw [markReplaying_of_not_mem hi, markReplaying_of_not_mem]
      exact fun h => (List.mem_append.mp h).elim hmem hi

/-- A replayed id adds its rows at the ends of the two logs. -/
theorem Accounted.replay (h : Accounted b done t redis r) (ht : t.Consistent)
    (hi : i ∉ done) (hfits : Category.replayed.Fits b redis i) {d : Delivery} {turn : Turn}
    {session : ReplaySession} (hd : d ∈ t.deliveries) (hid : d.publicId = i)
    (hs : Replays d (bulkRequest b.actorId b.reason turn) session)
    (haudit : ReplayAudit b i session.audit) :
    Accounted b (done ++ [i]) (t.replayed session) (b.drain redis i) (r.append i .replayed) := by
  have hd₀ : d ∈ b.tables.deliveries := (h.row_iff hi hid).mp hd
  have hmine : session.delivery = { d with status := .replaying } := hs.delivery_eq
  have hreplayed : (r.append i .replayed).replayed = r.replayed ++ [i] := rfl
  refine ⟨h.placed.append hi (h.redis_eq ▸ hfits), ?_, ?_, ?_, ?_,
    by rw [redisAfter_snoc, h.redis_eq]⟩
  · change (t.flush session.loaded session.delivery).deliveries = _
    rw [hs.loaded_eq, hmine, flush_replaying ht hd, hid, h.deliveries, List.map_map, hreplayed,
      markReplaying_append]
  · obtain ⟨rows, hrows, hall⟩ := h.outbox
    refine ⟨rows ++ [session.outboxEvent (t.outboxSeq + 1)], ?_, ?_⟩
    · rw [Tables.replayed, hrows, List.append_assoc]
    · have hrow : ReplayRow b.tables i (session.outboxEvent (t.outboxSeq + 1)) :=
        ⟨d, hd₀, hid, rfl, by rw [ReplaySession.outboxEvent, hmine], hs.topic_eq,
          by rw [← hid]; exact hs.names, rfl⟩
      exact List.rel_append hall (.cons hrow .nil)
  · obtain ⟨rows, hrows, hall⟩ := h.auditLogs
    refine ⟨rows ++ [session.audit], ?_, List.rel_append hall (.cons haudit .nil)⟩
    rw [Tables.replayed, hrows, List.append_assoc]
  · have hframe := h.frame
    rw [hframe]
    rfl

end Accounts

end PartnerHub.Outbound
