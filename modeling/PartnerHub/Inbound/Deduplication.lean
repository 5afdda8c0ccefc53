import PartnerHub.Lib.Table
import PartnerHub.Inbound.Ingest

/-!
# Inbound deduplication

Whatever the order of look-ups, flushes, rollbacks, commits, cache writes, expiries and
crashes, a partner's key has one event row, one outbox row and one 202, and every
response that carries an id carries the id of that row.
-/
namespace PartnerHub.Inbound

open PartnerHub.Domain PartnerHub.Lib PartnerHub.Lib.Slots PartnerHub.Lib.System

def Ingest.eventKeys (s : Ingest) : List (Nat × String) := s.events.map eventKey

def outboxKey (o : OutboxEvent) : Option (Nat × String) :=
  match o.payload with
  | .inbound envelope => some (o.aggregateId, envelope.idempotencyKey)
  | _ => none

def Ingest.outboxKeys (s : Ingest) : List (Nat × String) := s.outbox.filterMap outboxKey

def Answer.key (a : Answer) : Nat × String := (a.partnerId, a.idempotencyKey)

def acceptedKey (a : Answer) : Option (Nat × String) :=
  match a.response with
  | .accepted _ => some a.key
  | _ => none

/-- The keys of the 202 responses. -/
def Ingest.acceptedKeys (s : Ingest) : List (Nat × String) := s.answers.filterMap acceptedKey

structure Deduplicated (s : Ingest) : Prop where
  one_event : s.eventKeys.Nodup
  one_outbox : s.outboxKeys.Nodup
  both_or_neither : ∀ key, key ∈ s.eventKeys ↔ key ∈ s.outboxKeys
  one_accepted : s.acceptedKeys.Nodup
  carries : ∀ a ∈ s.answers, ∀ i, a.response.eventId = some i →
    ∃ e ∈ s.events, eventKey e = a.key ∧ e.id = i
  exclusive : ∀ e ∈ s.events, ∀ a ∈ s.answers, a.response.eventId = some e.id → a.key = eventKey e

/-- Every row PostgreSQL holds, committed or not. -/
def Ingest.rows (s : Ingest) : List InboundEvent := s.events ++ s.pending.map (·.2)

def Phase.Finishing (phase : Phase) : Prop := phase = .committed ∨ phase = .cached

structure Sound (s : Ingest) : Prop where
  keys : (s.rows.map eventKey).Nodup
  ids : (s.rows.map (·.id)).Nodup
  outbox : s.outboxKeys = s.eventKeys
  redis : ∀ key raw, s.redis key = some raw →
    ∃ e ∈ s.events, key = idempotencyRedisKey e.partnerId e.idempotencyKey ∧ raw = Uuid.text e.id
  accepted : s.acceptedKeys.Nodup
  carries : ∀ a ∈ s.answers, ∀ i, a.response.eventId = some i →
    ∃ e ∈ s.events, eventKey e = a.key ∧ e.id = i
  flushed : ∀ r req, s.requests r = some (req, .flushed) → (r, req.inbound) ∈ s.pending
  finishing : ∀ r req phase, s.requests r = some (req, phase) → phase.Finishing →
    req.inbound ∈ s.events ∧ req.key ∉ s.acceptedKeys
  apart : ∀ r r' req req' phase phase', s.requests r = some (req, phase) →
    s.requests r' = some (req', phase') → phase.Finishing → phase'.Finishing → r ≠ r' →
    req.key ≠ req'.key

theorem sound_init : Sound Ingest.init where
  keys := List.nodup_nil
  ids := List.nodup_nil
  outbox := rfl
  redis := by
    intro key raw h
    cases h
  accepted := List.nodup_nil
  carries := by
    intro a ha
    cases ha
  flushed := by
    intro r req h
    cases h
  finishing := by
    intro r req phase h
    cases h
  apart := by
    intro r r' req req' phase phase' h
    cases h

theorem Sound.mem_eventKeys {s : Ingest} (h : Sound s) {key : Nat × String}
    (hk : key ∈ s.acceptedKeys) : key ∈ s.eventKeys := by
  obtain ⟨a, ha, hkey⟩ := List.mem_filterMap.mp hk
  unfold acceptedKey at hkey
  split at hkey
  · rename_i i hr
    obtain rfl := Option.some.inj hkey
    obtain ⟨e, he, hek, -⟩ := h.carries a ha i (by rw [hr]; rfl)
    exact List.mem_map.mpr ⟨e, he, hek⟩
  · cases hkey

theorem Sound.deduplicated {s : Ingest} (h : Sound s) : Deduplicated s := by
  have hkeys : s.eventKeys.Nodup := by
    have hk := h.keys
    rw [Ingest.rows, List.map_append] at hk
    exact hk.of_append_left
  have hids : (s.events.map (·.id)).Nodup := by
    have hi := h.ids
    rw [Ingest.rows, List.map_append] at hi
    exact hi.of_append_left
  refine ⟨hkeys, h.outbox ▸ hkeys, fun key => by rw [h.outbox], h.accepted, h.carries, ?_⟩
  intro e he a ha hid
  obtain ⟨e', he', hkey, hid'⟩ := h.carries a ha e.id hid
  obtain rfl := Table.eq_of_unique hids he' he hid'
  exact hkey.symm

/-- A request moves on without holding a row. -/
theorem sound_setRequest {s : Ingest} (h : Sound s) (r : Nat) (req : IngestRequest) {phase : Phase}
    (hp : phase ≠ .flushed) (hf : ¬ phase.Finishing) : Sound (s.setRequest r req phase) := by
  refine { h with flushed := ?_, finishing := ?_, apart := ?_ }
  · intro v q hv
    rcases update_some_cases hv with ⟨-, hnew⟩ | ⟨-, hold⟩
    · exact absurd (congrArg Prod.snd (Option.some.inj hnew)) hp
    · exact h.flushed v q hold
  · intro v q ph hv hph
    rcases update_some_cases hv with ⟨-, hnew⟩ | ⟨-, hold⟩
    · obtain rfl := congrArg Prod.snd (Option.some.inj hnew)
      exact absurd hph hf
    · exact h.finishing v q ph hold hph
  · intro v v' q q' ph ph' hv hv' hph hph' hne
    rcases update_some_cases hv with ⟨-, hnew⟩ | ⟨-, hold⟩
    · obtain rfl := congrArg Prod.snd (Option.some.inj hnew)
      exact absurd hph hf
    · rcases update_some_cases hv' with ⟨-, hnew⟩ | ⟨-, hold'⟩
      · obtain rfl := congrArg Prod.snd (Option.some.inj hnew)
        exact absurd hph' hf
      · exact h.apart v v' q q' ph ph' hold hold' hph hph' hne

/-- A request ends. Only one that stored its row may say 202. -/
theorem sound_endRequest {s : Ingest} (h : Sound s) (r : Nat) {answers : List Answer}
    (hcar : ∀ a ∈ answers, ∀ i, a.response.eventId = some i →
      ∃ e ∈ s.events, eventKey e = a.key ∧ e.id = i)
    (hacc : answers.filterMap acceptedKey = [] ∨
      ∃ req phase, s.requests r = some (req, phase) ∧ phase.Finishing ∧
        answers.filterMap acceptedKey = [req.key]) :
    Sound (s.endRequest r answers) := by
  have hkeys : (s.endRequest r answers).acceptedKeys =
      s.acceptedKeys ++ answers.filterMap acceptedKey := List.filterMap_append
  have hrows : (s.endRequest r answers).rows.Sublist s.rows :=
    (List.Sublist.refl _).append (List.filter_sublist.map _)
  refine
    { keys := h.keys.sublist (hrows.map _)
      ids := h.ids.sublist (hrows.map _)
      outbox := h.outbox
      redis := h.redis
      accepted := ?_
      carries := ?_
      flushed := ?_
      finishing := ?_
      apart := ?_ }
  · rw [hkeys]
    rcases hacc with hnil | ⟨req, phase, hreq, hfin, hone⟩
    · rw [hnil, List.append_nil]
      exact h.accepted
    · rw [hone, ← List.concat_eq_append]
      exact h.accepted.concat (h.finishing r req phase hreq hfin).2
  · intro a ha
    rcases List.mem_append.mp ha with hold | hnew
    · exact h.carries a hold
    · exact hcar a hnew
  · intro v q hv
    obtain ⟨hold, hne⟩ := update_none_some hv
    exact List.mem_filter.mpr ⟨h.flushed v q hold, by simpa using hne⟩
  · intro v q ph hv hph
    obtain ⟨hold, hne⟩ := update_none_some hv
    obtain ⟨hmem, hno⟩ := h.finishing v q ph hold hph
    refine ⟨hmem, ?_⟩
    rw [hkeys]
    rcases hacc with hnil | ⟨req, phase, hreq, hfin, hone⟩
    · rwa [hnil, List.append_nil]
    · rw [hone, List.mem_append, List.mem_singleton]
      rintro (hin | heq)
      · exact hno hin
      · exact h.apart v r q req ph phase hold hreq hph hfin hne heq
  · intro v v' q q' ph ph' hv hv'
    exact h.apart v v' q q' ph ph' (update_none_some hv).1 (update_none_some hv').1

theorem sound_answer {s : Ingest} (h : Sound s) (r : Nat) (req : IngestRequest)
    {response : Response} {e : InboundEvent} (he : e ∈ s.events) (hkey : eventKey e = req.key)
    (hid : ∀ i, response.eventId = some i → e.id = i)
    (hacc : (∀ i, response ≠ .accepted i) ∨
      ∃ phase, s.requests r = some (req, phase) ∧ phase.Finishing) :
    Sound (s.answer r req response) := by
  refine sound_endRequest h r ?_ ?_
  · intro a ha i hi
    obtain rfl := List.mem_singleton.mp ha
    exact ⟨e, he, hkey, hid i hi⟩
  · cases response with
    | accepted i =>
      rcases hacc with hno | ⟨phase, hreq, hfin⟩
      · exact absurd rfl (hno i)
      · exact .inr ⟨req, phase, hreq, hfin, rfl⟩
    | duplicate i => exact .inl rfl
    | conflict => exact .inl rfl

/-- The flush of a row that collides with no other. -/
theorem sound_flush {s : Ingest} (h : Sound s) {r : Nat} {req : IngestRequest}
    (hev : ¬ ∃ e ∈ s.events, Collides e req.inbound)
    (hpe : ¬ ∃ x ∈ s.pending, Collides x.2 req.inbound) :
    Sound { s.setRequest r req .flushed with pending := (r, req.inbound) :: s.pending } := by
  have hnone : ∀ e ∈ s.rows, ¬ Collides e req.inbound := by
    intro e he hc
    rcases List.mem_append.mp he with hin | hin
    · exact hev ⟨e, hin, hc⟩
    · obtain ⟨x, hx, rfl⟩ := List.mem_map.mp hin
      exact hpe ⟨x, hx, hc⟩
  have hunique : ∀ {β : Type} (g : InboundEvent → β), (∀ e ∈ s.rows, g e ≠ g req.inbound) →
      (s.rows.map g).Nodup →
      ((s.events ++ req.inbound :: s.pending.map (·.2)).map g).Nodup := by
    intro β g hne hnd
    rw [List.map_append, List.map_cons, List.nodup_middle, List.nodup_cons, ← List.map_append]
    refine ⟨?_, hnd⟩
    intro hmem
    obtain ⟨e, he, heq⟩ := List.mem_map.mp hmem
    exact hne e he heq
  refine
    { h with
      keys := hunique eventKey (fun e he hk => hnone e he (.inl hk)) h.keys
      ids := hunique (·.id) (fun e he hi => hnone e he (.inr hi)) h.ids
      flushed := ?_
      finishing := ?_
      apart := ?_ }
  · intro v q hv
    rcases update_some_cases hv with ⟨rfl, hnew⟩ | ⟨-, hold⟩
    · obtain rfl := congrArg Prod.fst (Option.some.inj hnew)
      exact List.mem_cons_self
    · exact List.mem_cons_of_mem _ (h.flushed v q hold)
  · intro v q ph hv hph
    rcases update_some_cases hv with ⟨-, hnew⟩ | ⟨-, hold⟩
    · obtain rfl := congrArg Prod.snd (Option.some.inj hnew)
      rcases hph with hc | hc <;> cases hc
    · exact h.finishing v q ph hold hph
  · intro v v' q q' ph ph' hv hv' hph hph' hne
    rcases update_some_cases hv with ⟨-, hnew⟩ | ⟨-, hold⟩
    · obtain rfl := congrArg Prod.snd (Option.some.inj hnew)
      rcases hph with hc | hc <;> cases hc
    · rcases update_some_cases hv' with ⟨-, hnew⟩ | ⟨-, hold'⟩
      · obtain rfl := congrArg Prod.snd (Option.some.inj hnew)
        rcases hph' with hc | hc <;> cases hc
      · exact h.apart v v' q q' ph ph' hold hold' hph hph' hne

theorem Sound.pending_fresh {s : Ingest} (h : Sound s) {r : Nat} {req : IngestRequest}
    (hp : (r, req.inbound) ∈ s.pending) : req.key ∉ s.eventKeys := by
  intro hk
  have hnd := h.keys
  rw [Ingest.rows, List.map_append, List.nodup_append] at hnd
  exact hnd.2.2 req.key hk req.key
    (List.mem_map.mpr ⟨req.inbound, List.mem_map_of_mem hp, rfl⟩) rfl

theorem sound_commit {s : Ingest} (h : Sound s) {r : Nat} {req : IngestRequest} {createdAt : Time}
    (hreq : s.requests r = some (req, .flushed)) :
    Sound { s.setRequest r req .committed with
      events := s.events ++ [req.inbound]
      pending := s.pending.erase (r, req.inbound)
      outbox := s.outbox ++ [req.outboxEvent (s.outboxSeq + 1) createdAt]
      outboxSeq := s.outboxSeq + 1 } := by
  have hp := h.flushed r req hreq
  have hfresh := h.pending_fresh hp
  have hperm : (s.events ++ [req.inbound] ++
      (s.pending.erase (r, req.inbound)).map (·.2)).Perm s.rows := by
    rw [List.append_assoc]
    exact (((List.perm_cons_erase hp).map (·.2)).symm).append_left s.events
  refine
    { keys := (hperm.map eventKey).nodup_iff.mpr h.keys
      ids := (hperm.map (·.id)).nodup_iff.mpr h.ids
      outbox := ?_
      redis := ?_
      accepted := h.accepted
      carries := ?_
      flushed := ?_
      finishing := ?_
      apart := ?_ }
  · change (s.outbox ++ [_]).filterMap outboxKey = (s.events ++ [_]).map eventKey
    rw [List.filterMap_append, List.map_append]
    exact congrArg (· ++ [req.key]) h.outbox
  · intro key raw hk
    obtain ⟨e, he, hrest⟩ := h.redis key raw hk
    exact ⟨e, List.mem_append_left _ he, hrest⟩
  · intro a ha i hi
    obtain ⟨e, he, hrest⟩ := h.carries a ha i hi
    exact ⟨e, List.mem_append_left _ he, hrest⟩
  · intro v q hv
    rcases update_some_cases hv with ⟨-, hnew⟩ | ⟨hne, hold⟩
    · cases hnew
    · refine (List.mem_erase_of_ne ?_).mpr (h.flushed v q hold)
      intro he
      exact hne (congrArg Prod.fst he)
  · intro v q ph hv hph
    rcases update_some_cases hv with ⟨-, hnew⟩ | ⟨-, hold⟩
    · obtain rfl := congrArg Prod.fst (Option.some.inj hnew)
      exact ⟨List.mem_append_right _ (List.mem_singleton.mpr rfl),
        fun hk => hfresh (h.mem_eventKeys hk)⟩
    · obtain ⟨hmem, hno⟩ := h.finishing v q ph hold hph
      exact ⟨List.mem_append_left _ hmem, hno⟩
  · have hother : ∀ v q ph, s.requests v = some (q, ph) → ph.Finishing → q.key ≠ req.key := by
      intro v q ph hv hph he
      exact hfresh (he ▸ List.mem_map.mpr ⟨_, (h.finishing v q ph hv hph).1, rfl⟩)
    intro v v' q q' ph ph' hv hv' hph hph' hne
    rcases update_some_cases hv with ⟨rfl, hnew⟩ | ⟨-, hold⟩
    · obtain rfl := congrArg Prod.fst (Option.some.inj hnew)
      rcases update_some_cases hv' with ⟨rfl, -⟩ | ⟨-, hold'⟩
      · exact absurd rfl hne
      · exact (hother v' q' ph' hold' hph').symm
    · rcases update_some_cases hv' with ⟨rfl, hnew⟩ | ⟨-, hold'⟩
      · obtain rfl := congrArg Prod.fst (Option.some.inj hnew)
        exact hother v q ph hold hph
      · exact h.apart v v' q q' ph ph' hold hold' hph hph' hne

theorem sound_cacheEventId {s : Ingest} (h : Sound s) {r : Nat} {req : IngestRequest}
    (hreq : s.requests r = some (req, .committed)) :
    Sound { s.setRequest r req .cached with
      redis := if req.redis then
          Function.update s.redis (idempotencyRedisKey req.partner.id req.idempotencyKey)
            (some (Uuid.text req.eventId))
        else s.redis } := by
  have hstands : ∀ {v : Nat} {q : IngestRequest} {ph : Phase},
      (s.setRequest r req .cached).requests v = some (q, ph) →
      ∃ ph', s.requests v = some (q, ph') ∧ (ph.Finishing → ph'.Finishing) := by
    intro v q ph hv
    rcases update_some_cases hv with ⟨rfl, hnew⟩ | ⟨-, hold⟩
    · obtain rfl := congrArg Prod.fst (Option.some.inj hnew)
      exact ⟨.committed, hreq, fun _ => .inl rfl⟩
    · exact ⟨ph, hold, id⟩
  refine { h with redis := ?_, flushed := ?_, finishing := ?_, apart := ?_ }
  · intro key raw hk
    dsimp only at hk
    split at hk
    · rcases update_some_cases hk with ⟨rfl, hnew⟩ | ⟨-, hold⟩
      · exact ⟨req.inbound, (h.finishing r req _ hreq (.inl rfl)).1, rfl,
          (Option.some.inj hnew).symm⟩
      · exact h.redis key raw hold
    · exact h.redis key raw hk
  · intro v q hv
    rcases update_some_cases hv with ⟨-, hnew⟩ | ⟨-, hold⟩
    · cases hnew
    · exact h.flushed v q hold
  · intro v q ph hv hph
    obtain ⟨ph', hold, hf⟩ := hstands hv
    exact h.finishing v q ph' hold (hf hph)
  · intro v v' q q' ph ph' hv hv' hph hph' hne
    obtain ⟨_, hold, hf⟩ := hstands hv
    obtain ⟨_, hold', hf'⟩ := hstands hv'
    exact h.apart v v' q q' _ _ hold hold' (hf hph) (hf' hph') hne

theorem sound_getCachedEventId {s : Ingest} (h : Sound s) (r : Nat) {req : IngestRequest}
    {raw : String} {i : Uuid} (hraw : s.getCached req = some raw) (hi : Uuid.parse raw = some i) :
    Sound (s.answer r req (.duplicate i)) := by
  unfold Ingest.getCached at hraw
  split at hraw
  · obtain ⟨e, he, hkey, rfl⟩ := h.redis _ raw hraw
    obtain ⟨hp, hk⟩ := idempotencyRedisKey_injective hkey
    rw [Uuid.parse_text] at hi
    refine sound_answer h r req he (Prod.ext hp.symm hk.symm) ?_ (.inl nofun)
    rintro _ ⟨⟩
    exact Option.some.inj hi
  · cases hraw

theorem sound_fetchExisting {s : Ingest} (h : Sound s) (r : Nat) {req : IngestRequest}
    {e : InboundEvent} (hf : s.events.find? (fun e => eventKey e = req.key) = some e) :
    Sound (s.answer r req (.duplicate e.id)) := by
  obtain ⟨he, hkey⟩ := Table.mem_of_find hf
  refine sound_answer h r req he (of_decide_eq_true hkey) ?_ (.inl nofun)
  rintro _ ⟨⟩
  rfl

theorem sound_step {s s' : Ingest} {a : IngestAction} (h : Sound s) (hs : s.step a = some s') :
    Sound s' := by
  have hquiet : ∀ {phase : Phase}, phase = .looking ∨ phase = .inserting ∨ phase = .conflicted →
      phase ≠ .flushed ∧ ¬ phase.Finishing := by
    unfold Phase.Finishing
    rintro _ (rfl | rfl | rfl) <;> decide
  have hend : ∀ r, Sound (s.endRequest r []) := fun r =>
    sound_endRequest h r (fun a ha => absurd ha List.not_mem_nil) (.inl rfl)
  cases a with
  | arrive r req =>
    simp only [Ingest.step] at hs
    split at hs
    · cases hs
      obtain ⟨hp, hf⟩ := hquiet (.inl rfl)
      exact sound_setRequest h r req hp hf
    · cases hs
  | getCachedEventId r =>
    simp only [Ingest.step] at hs
    split at hs
    · rename_i req _
      split at hs
      · cases hs
        obtain ⟨hp, hf⟩ := hquiet (.inr (.inl rfl))
        exact sound_setRequest h r req hp hf
      · rename_i raw hraw
        split at hs
        · cases hs
          exact hend r
        · rename_i i hi
          cases hs
          exact sound_getCachedEventId h r hraw hi
    · cases hs
  | flush r =>
    simp only [Ingest.step] at hs
    split at hs
    · rename_i req _
      split at hs
      · cases hs
        obtain ⟨hp, hf⟩ := hquiet (.inr (.inr rfl))
        exact sound_setRequest h r req hp hf
      · rename_i hev
        split at hs
        · cases hs
        · rename_i hpe
          cases hs
          exact sound_flush h hev hpe
    · cases hs
  | fetchExisting r =>
    simp only [Ingest.step] at hs
    split at hs
    · rename_i req _
      split at hs
      · cases hs
        refine sound_endRequest h r ?_ (.inl rfl)
        intro a ha i hi
        obtain rfl := List.mem_singleton.mp ha
        cases hi
      · rename_i e hf
        cases hs
        exact sound_fetchExisting h r hf
    · cases hs
  | commit r createdAt =>
    simp only [Ingest.step] at hs
    split at hs
    · rename_i req hreq
      cases hs
      exact sound_commit h hreq
    · cases hs
  | cacheEventId r =>
    simp only [Ingest.step] at hs
    split at hs
    · rename_i req hreq
      cases hs
      exact sound_cacheEventId h hreq
    · cases hs
  | respond r =>
    simp only [Ingest.step] at hs
    split at hs
    · rename_i req hreq
      cases hs
      refine sound_answer h r req (h.finishing r req _ hreq (.inr rfl)).1 rfl ?_
        (.inr ⟨_, hreq, .inr rfl⟩)
      rintro _ ⟨⟩
      rfl
    · cases hs
  | expire key =>
    cases hs
    exact { h with redis := fun key raw hk => h.redis key raw (update_none_some hk).1 }
  | fail r =>
    obtain ⟨x, -, rfl⟩ := Option.map_eq_some_iff.mp hs
    exact hend r

/-- Every state of every interleaving is deduplicated. -/
theorem inbound_deduplicated (as : List IngestAction) :
    Throughout Ingest.step Deduplicated Ingest.init as := by
  have hall : Along Ingest.step (fun _ _ => True) Ingest.init as :=
    along_of_forall fun _ _ _ => trivial
  exact throughout_of_invariant Sound (fun _ _ _ h _ hs => sound_step h hs)
    (fun _ h => h.deduplicated) sound_init hall

/-- A request of one partner with the key `" k "`. -/
def raceRequest (eventId : Uuid) : IngestRequest where
  partner :=
    { id := 1, publicId := 1, slug := "acme", status := .active, slaSeconds := 60
      rateLimitRps := 100, autoReplayEnabled := false }
  idempotencyHeader := " k "
  eventType := "order.created"
  payload := ⟨"payload"⟩
  correlationId := "corr"
  receivedAt := 0
  redis := true
  eventId := eventId

/-- Two requests miss the cache and one of them loses the race for the row: it ends in an
error, since the rollback has expired its partner. The next one finds the id in the cache. -/
example :
    ((exec Ingest.step Ingest.init
      [.arrive 0 (raceRequest 10), .arrive 1 (raceRequest 11), .getCachedEventId 0,
        .getCachedEventId 1, .flush 0, .commit 0 0, .flush 1, .fail 1, .cacheEventId 0,
        .respond 0, .arrive 2 (raceRequest 12), .getCachedEventId 2]).map
      fun s => s.answers.map fun a => (a.idempotencyKey, a.response)) =
      some [("k", .accepted 10), ("k", .duplicate 10)] := by
  decide +kernel

end PartnerHub.Inbound
