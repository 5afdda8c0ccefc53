import PartnerHub.Outbound.StrictDuplicate

/-!
# Invalidation and the fills that cross it

Inside one API process `enqueue_outbound_for_event` calls and administrative calls take
turns at their awaits. A look-up that misses reads the database, and fills the cache only
when its coroutine runs again; an administrative call commits, and invalidates only when
its own runs again. Every committed write makes a version of the tables, and what a call
uses is compared with the versions.
-/
namespace PartnerHub.Outbound

open PartnerHub.Domain PartnerHub.Lib PartnerHub.Lib.System

/-- The three look-ups of the accept path. -/
inductive LookupKey where
  | partner (publicId : Uuid)
  | schema (eventType : String)
  | endpoints (partnerId : Nat) (eventType : String)
  deriving DecidableEq

inductive Found where
  | partner (p : Option Partner)
  | schema (row : Option PayloadSchema)
  | endpoints (es : List PartnerEndpoint)
  deriving DecidableEq

def Tables.lookup (t : Tables) : LookupKey → Found
  | .partner i => .partner (t.fetchPartnerByPublicId i)
  | .schema eventType => .schema (t.fetchLatestActiveSchema eventType)
  | .endpoints n eventType => .endpoints (t.fetchActiveOutboundEndpoints n eventType)

/-- What the cache holds under a key, expired or not. -/
def AcceptPathCache.entry (c : AcceptPathCache) : LookupKey → CacheEntry Found
  | .partner i => (c.partners i).map fun e => (e.1, .partner (some e.2))
  | .schema eventType => (c.schemas eventType).map fun e => (e.1, .schema e.2)
  | .endpoints n eventType => (c.endpoints n eventType).map fun e => (e.1, .endpoints e.2)

/-- The `cache_set` after a look-up; the absence of a partner is not kept. -/
def AcceptPathCache.put (c : AcceptPathCache) (now : Time) : LookupKey → Found → AcceptPathCache
  | .partner i, .partner (some p) =>
    { c with partners := Function.update c.partners i (cacheSet now p) }
  | .schema eventType, .schema row =>
    { c with schemas := Function.update c.schemas eventType (cacheSet now row) }
  | .endpoints n eventType, .endpoints es =>
    { c with
      endpoints := Function.update c.endpoints n
        (Function.update (c.endpoints n) eventType (cacheSet now es)) }
  | _, _ => c

/-- Where an `enqueue_outbound_for_event` call stands: before a `cache_get`, before the
database has run its SELECT, with the result and the version it is from, or past its
look-ups. -/
inductive LookupStage where
  | looking (k : LookupKey)
  | awaiting (k : LookupKey)
  | loaded (k : LookupKey) (v : Found) (version : Nat)
  | done
  deriving DecidableEq

/-- A running call. `since` is the newest administrative commit whose call had returned
when this one started. -/
structure Enqueueing where
  since : Nat
  req : EnqueueRequest
  partner : Option Partner
  stage : LookupStage

/-- A value a call went on with. -/
structure Use where
  since : Nat
  key : LookupKey
  value : Found
  deriving DecidableEq

/-- One API process and the versions of the tables it works on. -/
structure CacheRace where
  latest : Nat
  version : Nat → Tables
  writes : Nat → Option AdminWrite
  invalidated : Nat → Bool
  returned : Nat
  cache : AcceptPathCache
  calls : Nat → Option Enqueueing
  uses : List Use

def CacheRace.init (t : Tables) : CacheRace where
  latest := 0
  version := fun _ => t
  writes := fun _ => none
  invalidated := fun _ => false
  returned := 0
  cache := .empty
  calls := fun _ => none
  uses := []

inductive RaceAction where
  | start (call : Nat) (req : EnqueueRequest)
  | look (call : Nat) (now : Time)
  | read (call : Nat)
  | fill (call : Nat) (now : Time)
  | commit (w : AdminWrite)
  | invalidate (version : Nat)
  | finish (version : Nat)

/-- What a call does next with the value of a look-up. -/
def Enqueueing.proceed (validates : PayloadSchema → Payload → Bool) (c : Enqueueing) :
    Found → Enqueueing
  | .partner none => { c with stage := .done }
  | .partner (some p) =>
    if p.status ≠ .active then { c with stage := .done }
    else { c with partner := some p, stage := .looking (.schema c.req.eventType) }
  | .schema row =>
    match c.partner with
    | none => { c with stage := .done }
    | some p =>
      if validatePayload validates c.req.eventType c.req.payload row = false then
        { c with stage := .done }
      else { c with stage := .looking (.endpoints p.id c.req.eventType) }
  | .endpoints _ => { c with stage := .done }

/-- Call `i` goes on with the value of its look-up. -/
def CacheRace.used (validates : PayloadSchema → Payload → Bool) (s : CacheRace) (i : Nat)
    (c : Enqueueing) (k : LookupKey) (v : Found) : CacheRace :=
  { s with
    calls := Function.update s.calls i (some (c.proceed validates v))
    uses := s.uses ++ [⟨c.since, k, v⟩] }

def CacheRace.staged (s : CacheRace) (i : Nat) (c : Enqueueing) (stage : LookupStage) : CacheRace :=
  { s with calls := Function.update s.calls i (some { c with stage := stage }) }

/-- An administrative write makes a new version. -/
def CacheRace.committed (s : CacheRace) (w : AdminWrite) : CacheRace :=
  { s with
    latest := s.latest + 1
    version := Function.update s.version (s.latest + 1) ((s.version s.latest).admin w)
    writes := Function.update s.writes (s.latest + 1) (some w) }

/-- The call of the write with number `m` invalidates. -/
def CacheRace.dropped (s : CacheRace) (m : Nat) (w : AdminWrite) : CacheRace :=
  { s with
    cache := s.cache.afterAdmin (s.version (m - 1)) w
    invalidated := Function.update s.invalidated m true }

/-- One step between two awaits, of a call or of the database. -/
def CacheRace.step (validates : PayloadSchema → Payload → Bool) (s : CacheRace) :
    RaceAction → Option CacheRace
  | .start i req =>
    if (s.calls i).isSome then none
    else
      some (s.staged i ⟨s.returned, req, none, .done⟩ (.looking (.partner req.partnerId)))
  | .look i now =>
    (s.calls i).bind fun c =>
      match c.stage with
      | .looking k =>
        match cacheGet now (s.cache.entry k) with
        | some v => some (s.used validates i c k v)
        | none => some (s.staged i c (.awaiting k))
      | _ => none
  | .read i =>
    (s.calls i).bind fun c =>
      match c.stage with
      | .awaiting k => some (s.staged i c (.loaded k ((s.version s.latest).lookup k) s.latest))
      | _ => none
  | .fill i now =>
    (s.calls i).bind fun c =>
      match c.stage with
      | .loaded k v _ => some { s.used validates i c k v with cache := s.cache.put now k v }
      | _ => none
  | .commit w => some (s.committed w)
  | .invalidate m => if s.invalidated m then none else (s.writes m).map (s.dropped m)
  | .finish m => if s.invalidated m then some { s with returned := max s.returned m } else none

/-- Everything that was used is what some version held that is no older than the commits
of the administrative calls that had returned when the call started. -/
def Recent (s : CacheRace) : Prop :=
  ∀ u ∈ s.uses, ∃ j, u.since ≤ j ∧ j ≤ s.latest ∧ (s.version j).lookup u.key = u.value

/-- The write with this number changed the look-up. -/
def CacheRace.Changes (s : CacheRace) (m : Nat) (k : LookupKey) : Prop :=
  (s.version m).lookup k ≠ (s.version (m - 1)).lookup k

/-- The condition on the order of steps. A fill does not come after the invalidation of a
write that was committed after its read and changed what it read; and when a call starts,
no write that was committed before that of a returned call still has to invalidate. -/
def FillsInOrder (s : CacheRace) : RaceAction → Prop
  | .fill i _ => ∀ c ∈ s.calls i, ∀ k v j, c.stage = .loaded k v j →
    ∀ m, j < m → m ≤ s.latest → s.Changes m k → s.invalidated m = false
  | .start _ _ => ∀ m, 0 < m → m ≤ s.returned → s.invalidated m = true
  | _ => True

instance (s : CacheRace) (m : Nat) (k : LookupKey) : Decidable (s.Changes m k) :=
  inferInstanceAs (Decidable (_ ≠ _))

instance FillsInOrder.decidable (s : CacheRace) : (a : RaceAction) → Decidable (FillsInOrder s a)
  | .start _ _ => decidable_of_iff (∀ m ≤ s.returned, 0 < m → s.invalidated m = true)
      ⟨fun h m hm hle => h m hle hm, fun h m hle hm => h m hm hle⟩
  | .fill i _ =>
    match hc : s.calls i with
    | none => .isTrue (by simp [FillsInOrder, hc])
    | some c =>
      match hk : c.stage with
      | .loaded k v j =>
        decidable_of_iff (∀ m ≤ s.latest, j < m → s.Changes m k → s.invalidated m = false)
          (by
            constructor
            · intro h c' hc' k' v' j' hk' m hj hle
              obtain rfl := Option.some.inj (hc.symm.trans hc')
              rw [hk] at hk'
              cases hk'
              exact h m hle hj
            · intro h m hle hj
              exact h c hc k v j hk m hj hle)
      | .looking _ => .isTrue (by simp [FillsInOrder, hc, hk])
      | .awaiting _ => .isTrue (by simp [FillsInOrder, hc, hk])
      | .done => .isTrue (by simp [FillsInOrder, hc, hk])
  | .look _ _ => .isTrue trivial
  | .read _ => .isTrue trivial
  | .commit _ => .isTrue trivial
  | .invalidate _ => .isTrue trivial
  | .finish _ => .isTrue trivial

section Entries

variable {c : AcceptPathCache} {k k' : LookupKey} {x : Time × Found}

theorem entry_invalidatePartnerEndpoints {n : Nat}
    (h : (c.invalidatePartnerEndpoints n).entry k = some x) : c.entry k = some x := by
  cases k with
  | partner i => exact h
  | schema eventType => exact h
  | endpoints m eventType =>
    by_cases hm : m = n
    · simp [AcceptPathCache.entry, AcceptPathCache.invalidatePartnerEndpoints, hm] at h
    · simpa [AcceptPathCache.entry, AcceptPathCache.invalidatePartnerEndpoints, hm] using h

theorem entry_invalidatePartner {i : Uuid} (h : (c.invalidatePartner i).entry k = some x) :
    c.entry k = some x := by
  have hdrop : ∀ {y : Time × Found},
      ({ c with partners := Function.update c.partners i none } : AcceptPathCache).entry k =
        some y → c.entry k = some y := by
    intro y hy
    cases k with
    | schema eventType => exact hy
    | endpoints m eventType => exact hy
    | partner j =>
      by_cases hj : j = i
      · simp [AcceptPathCache.entry, hj] at hy
      · simpa [AcceptPathCache.entry, hj] using hy
  unfold AcceptPathCache.invalidatePartner at h
  split at h
  · exact hdrop h
  · exact hdrop (entry_invalidatePartnerEndpoints h)

theorem entry_invalidatePartner_self (i : Uuid) :
    (c.invalidatePartner i).entry (.partner i) = none := by
  unfold AcceptPathCache.invalidatePartner
  split <;> simp [AcceptPathCache.entry, AcceptPathCache.invalidatePartnerEndpoints]

theorem entry_invalidateSchema {eventType : String}
    (h : (c.invalidateSchema eventType).entry k = some x) : c.entry k = some x := by
  cases k with
  | partner i => exact h
  | endpoints m et => exact h
  | schema et =>
    by_cases he : et = eventType
    · simp [AcceptPathCache.entry, AcceptPathCache.invalidateSchema, he] at h
    · simpa [AcceptPathCache.entry, AcceptPathCache.invalidateSchema, he] using h

/-- An invalidation drops entries and changes none. -/
theorem entry_afterAdmin {t : Tables} {w : AdminWrite}
    (h : (c.afterAdmin t w).entry k = some x) : c.entry k = some x := by
  cases w with
  | createPartner p => exact entry_invalidatePartner h
  | updatePartner i body => exact entry_invalidatePartner h
  | createEndpoint i e =>
    simp only [AcceptPathCache.afterAdmin] at h
    split at h
    · exact h
    · exact entry_invalidatePartnerEndpoints h
  | updateEndpoint i body =>
    simp only [AcceptPathCache.afterAdmin] at h
    split at h
    · exact h
    · exact entry_invalidatePartnerEndpoints h
  | createPayloadSchema s => exact entry_invalidateSchema h

/-- A fill writes its own key. -/
theorem entry_put {now : Time} {v : Found} (h : (c.put now k v).entry k' = some x) :
    (k' = k ∧ x.2 = v) ∨ c.entry k' = some x := by
  unfold AcceptPathCache.put at h
  split at h
  · rename_i i p
    cases k' with
    | partner j =>
      by_cases hj : j = i
      · left
        simp [AcceptPathCache.entry, cacheSet, hj] at h
        exact ⟨by rw [hj], by rw [← h]⟩
      · right
        simpa [AcceptPathCache.entry, hj] using h
    | schema et => exact .inr h
    | endpoints n et => exact .inr h
  · rename_i eventType row
    cases k' with
    | schema et =>
      by_cases he : et = eventType
      · left
        simp [AcceptPathCache.entry, cacheSet, he] at h
        exact ⟨by rw [he], by rw [← h]⟩
      · right
        simpa [AcceptPathCache.entry, he] using h
    | partner j => exact .inr h
    | endpoints n et => exact .inr h
  · rename_i n eventType es
    cases k' with
    | endpoints m et =>
      by_cases hk : m = n ∧ et = eventType
      · obtain ⟨rfl, rfl⟩ := hk
        left
        simp [AcceptPathCache.entry, cacheSet] at h
        exact ⟨rfl, by rw [← h]⟩
      · right
        by_cases hm : m = n
        · have het : et ≠ eventType := fun he => hk ⟨hm, he⟩
          subst hm
          simpa [AcceptPathCache.entry, het] using h
        · simpa [AcceptPathCache.entry, hm] using h
    | partner j => exact .inr h
    | schema et => exact .inr h
  · exact .inr h

end Entries

section Writes

variable {t : Tables}

theorem fetchPartner_modify_of_ne {i j : Uuid} (body : PartnerUpdate) (h : j ≠ i)
    (rows : List Partner) :
    (Table.modify (·.publicId) i body.apply rows).find? (fun p => p.publicId = j) =
      rows.find? fun p => p.publicId = j := by
  induction rows with
  | nil => rfl
  | cons p rest ih =>
    have hsame : Table.modify (·.publicId) i body.apply (p :: rest) =
        (if p.publicId = i then body.apply p else p) ::
          Table.modify (·.publicId) i body.apply rest := rfl
    rw [hsame, List.find?_cons, List.find?_cons, ih]
    by_cases hp : p.publicId = i
    · have hneither : p.publicId ≠ j := fun hj => h (hj.symm.trans hp)
      have hkept : (body.apply p).publicId = p.publicId := rfl
      simp [hp, hkept, Ne.symm h]
    · simp [hp]

/-- An update of an endpoint matters to the look-ups of its partner alone. -/
theorem fetchEndpoints_modify_of_ne {i : Uuid} (body : EndpointUpdate) {n : Nat}
    {rows : List PartnerEndpoint} (h : ∀ e ∈ rows, e.id = i → e.partnerId ≠ n)
    (eventType : String) :
    (Table.modify (·.id) i body.apply rows).filter (fun e => e.partnerId = n ∧
        e.direction = .outbound ∧ e.status = .active ∧ eventType ∈ e.eventTypes) =
      rows.filter fun e => e.partnerId = n ∧
        e.direction = .outbound ∧ e.status = .active ∧ eventType ∈ e.eventTypes := by
  induction rows with
  | nil => rfl
  | cons e rest ih =>
    have hsame : Table.modify (·.id) i body.apply (e :: rest) =
        (if e.id = i then body.apply e else e) :: Table.modify (·.id) i body.apply rest := rfl
    have hrest := ih fun f hf => h f (List.mem_cons_of_mem _ hf)
    rw [hsame, List.filter_cons, List.filter_cons, hrest]
    by_cases he : e.id = i
    · have hn := h e List.mem_cons_self he
      have hkept : (body.apply e).partnerId = e.partnerId := rfl
      simp [he, hkept, hn]
    · simp [he]

/-- An administrative call invalidates every look-up its write changed. -/
theorem entry_of_changed (hn : (t.endpoints.map (·.id)).Nodup) (c : AcceptPathCache)
    {w : AdminWrite} {k : LookupKey} (h : (t.admin w).lookup k ≠ t.lookup k) :
    (c.afterAdmin t w).entry k = none := by
  cases w with
  | createPartner p =>
    simp only [Tables.admin] at h
    split at h
    · exact absurd rfl h
    cases k with
    | schema eventType => exact absurd rfl h
    | endpoints n eventType => exact absurd rfl h
    | partner i =>
      by_cases hi : p.publicId = i
      · exact hi ▸ entry_invalidatePartner_self _
      · refine absurd ?_ h
        simp [Tables.lookup, Tables.fetchPartnerByPublicId, hi]
  | updatePartner i body =>
    cases k with
    | schema eventType => exact absurd rfl h
    | endpoints n eventType => exact absurd rfl h
    | partner j =>
      by_cases hj : j = i
      · exact hj ▸ entry_invalidatePartner_self _
      · refine absurd ?_ h
        exact congrArg Found.partner (fetchPartner_modify_of_ne body hj t.partners)
  | createEndpoint i e =>
    simp only [Tables.admin, AcceptPathCache.afterAdmin] at h ⊢
    cases hp : t.fetchPartnerByPublicId i with
    | none => exact absurd (by simp only [hp]) h
    | some p =>
      simp only [hp] at h
      split at h
      · exact absurd rfl h
      cases k with
      | partner j => exact absurd rfl h
      | schema eventType => exact absurd rfl h
      | endpoints n eventType =>
        by_cases hpn : p.id = n
        · simp [AcceptPathCache.entry, AcceptPathCache.invalidatePartnerEndpoints, hpn]
        · refine absurd ?_ h
          simp [Tables.lookup, Tables.fetchActiveOutboundEndpoints, List.filter_append, hpn]
  | updateEndpoint i body =>
    simp only [AcceptPathCache.afterAdmin]
    cases k with
    | partner j => exact absurd rfl h
    | schema eventType => exact absurd rfl h
    | endpoints n eventType =>
      -- the row with this id, if there is one, is unique
      have hsame : (∀ e ∈ t.endpoints, e.id = i → e.partnerId ≠ n) →
          (t.admin (.updateEndpoint i body)).lookup (.endpoints n eventType) =
            t.lookup (.endpoints n eventType) := fun hne =>
        congrArg Found.endpoints (fetchEndpoints_modify_of_ne body hne eventType)
      cases hf : t.endpoints.find? fun e => e.id = i with
      | none =>
        refine absurd (hsame ?_) h
        intro e he hi
        exact absurd hi (by simpa using List.find?_eq_none.mp hf e he)
      | some e =>
        by_cases hen : e.partnerId = n
        · simp [AcceptPathCache.entry, AcceptPathCache.invalidatePartnerEndpoints, hen]
        · refine absurd (hsame ?_) h
          intro f hf' hi
          have hei : e.id = i := by simpa using List.find?_some hf
          rw [Table.eq_of_unique hn hf' (List.mem_of_find?_eq_some hf) (hi.trans hei.symm)]
          exact hen
  | createPayloadSchema s =>
    simp only [Tables.admin] at h
    split at h
    · exact absurd rfl h
    cases k with
    | partner j => exact absurd rfl h
    | endpoints n eventType => exact absurd rfl h
    | schema eventType =>
      by_cases hs : s.eventType = eventType
      · simp [AcceptPathCache.afterAdmin, AcceptPathCache.entry, AcceptPathCache.invalidateSchema,
          hs]
      · refine absurd ?_ h
        simp [Tables.lookup, Tables.fetchLatestActiveSchema, List.filter_append, hs]

end Writes

/-- What holds of a running call: the writes it has to respect are all invalidated, and a
value it has loaded is from a version that is recent enough for it. -/
structure InFlight (s : CacheRace) (c : Enqueueing) : Prop where
  since_le : c.since ≤ s.latest
  settled : ∀ m, 0 < m → m ≤ c.since → s.invalidated m = true
  loaded : ∀ k v j, c.stage = .loaded k v j →
    c.since ≤ j ∧ j ≤ s.latest ∧ (s.version j).lookup k = v

/-- Under `k` version `j` held `v`, and every later write that changed it has still to
invalidate. -/
def Backed (s : CacheRace) (k : LookupKey) (v : Found) (j : Nat) : Prop :=
  j ≤ s.latest ∧ (s.version j).lookup k = v ∧
    ∀ m, j < m → m ≤ s.latest → s.Changes m k → s.invalidated m = false

structure RaceInv (s : CacheRace) : Prop where
  made : ∀ m, 0 < m → m ≤ s.latest →
    ∃ w, s.writes m = some w ∧ s.version m = (s.version (m - 1)).admin w
  writes_le : ∀ m w, s.writes m = some w → m ≤ s.latest
  keys : ∀ m ≤ s.latest, ((s.version m).endpoints.map (·.id)).Nodup
  invalidated_le : ∀ m, s.invalidated m = true → m ≤ s.latest
  returned_le : s.returned ≤ s.latest
  entry : ∀ k e v, s.cache.entry k = some (e, v) → ∃ j, Backed s k v j
  call : ∀ i c, s.calls i = some c → InFlight s c
  recent : Recent s

theorem raceInv_init {t : Tables} (h : (t.endpoints.map (·.id)).Nodup) :
    RaceInv (CacheRace.init t) where
  made := by
    intro m hm hle
    exact absurd hle (Nat.not_le.mpr hm)
  writes_le := by
    intro m w hw
    cases hw
  keys := fun _ _ => h
  invalidated_le := by
    intro m hm
    cases hm
  returned_le := le_rfl
  entry := by
    intro k e v hk
    cases k <;> cases hk
  call := by
    intro i c hc
    cases hc
  recent := by
    intro u hu
    cases hu

/-- A look-up that no write between two versions changed. -/
theorem lookup_eq_of_unchanged {s : CacheRace} {k : LookupKey} {j n : Nat} (hjn : j ≤ n)
    (h : ∀ m, j < m → m ≤ n → ¬ s.Changes m k) :
    (s.version n).lookup k = (s.version j).lookup k := by
  induction n with
  | zero => rw [Nat.le_zero.mp hjn]
  | succ n ih =>
    rcases Nat.lt_or_ge n j with hlt | hge
    · rw [show n + 1 = j by omega]
    · have hstep : (s.version (n + 1)).lookup k = (s.version n).lookup k :=
        not_not.mp (h (n + 1) (by omega) le_rfl)
      rw [hstep]
      exact ih hge fun m hm hle => h m hm (by omega)

/-- What backs an entry is recent enough for a call all of whose writes are settled. -/
theorem Backed.recent {s : CacheRace} {k : LookupKey} {v : Found} {j : Nat} (h : Backed s k v j)
    {c : Enqueueing} (hc : InFlight s c) :
    ∃ n, c.since ≤ n ∧ n ≤ s.latest ∧ (s.version n).lookup k = v := by
  obtain ⟨hle, hv, hlater⟩ := h
  rcases Nat.lt_or_ge j c.since with hlt | hge
  · refine ⟨c.since, le_rfl, hc.since_le, ?_⟩
    rw [lookup_eq_of_unchanged hlt.le, hv]
    intro m hm hms hchange
    have hno := hlater m hm (hms.trans hc.since_le) hchange
    rw [hc.settled m (by omega) hms] at hno
    cases hno
  · exact ⟨j, hge, hle, hv⟩

/-- What no step takes back. -/
structure Advances (s s' : CacheRace) : Prop where
  latest : s.latest ≤ s'.latest
  version : ∀ m ≤ s.latest, s'.version m = s.version m
  invalidated : ∀ m, s.invalidated m = true → s'.invalidated m = true

theorem InFlight.advances {s s' : CacheRace} {c : Enqueueing} (h : InFlight s c)
    (he : Advances s s') : InFlight s' c where
  since_le := h.since_le.trans he.latest
  settled := fun m hm hle => he.invalidated m (h.settled m hm hle)
  loaded := by
    intro k v j hj
    obtain ⟨hs, hle, hv⟩ := h.loaded k v j hj
    exact ⟨hs, hle.trans he.latest, by rw [he.version j hle, hv]⟩

theorem recent_advances {s s' : CacheRace} (h : Recent s) (he : Advances s s')
    (hu : s'.uses = s.uses) : Recent s' := by
  intro u hmem
  rw [hu] at hmem
  obtain ⟨j, hs, hle, hv⟩ := h u hmem
  exact ⟨j, hs, hle.trans he.latest, by rw [he.version j hle, hv]⟩

variable {validates : PayloadSchema → Payload → Bool}

theorem proceed_since (c : Enqueueing) (v : Found) :
    (c.proceed validates v).since = c.since := by
  unfold Enqueueing.proceed
  split
  · rfl
  · split <;> rfl
  · split
    · rfl
    · split <;> rfl
  · rfl

theorem proceed_not_loaded (c : Enqueueing) (v : Found) (k : LookupKey) (w : Found) (j : Nat) :
    (c.proceed validates v).stage ≠ .loaded k w j := by
  unfold Enqueueing.proceed
  split
  · simp
  · split <;> simp
  · split
    · simp
    · split <;> simp
  · simp

/-- Replacing one call by one that fits. -/
theorem inFlight_update {s : CacheRace} (h : ∀ i c, s.calls i = some c → InFlight s c) {i : Nat}
    {c : Enqueueing} (hc : InFlight s c) :
    ∀ i' c', Function.update s.calls i (some c) i' = some c' → InFlight s c' := by
  intro i' c' hc'
  by_cases hi : i' = i
  · rw [hi, Function.update_self] at hc'
    exact Option.some.inj hc' ▸ hc
  · rw [Function.update_of_ne hi] at hc'
    exact h i' c' hc'

section Steps

variable {s : CacheRace}

theorem raceInv_staged (h : RaceInv s) {i : Nat} {c : Enqueueing} {stage : LookupStage}
    (hc : InFlight s { c with stage := stage }) : RaceInv (s.staged i c stage) := by
  have hadv : Advances s (s.staged i c stage) := ⟨le_rfl, fun _ _ => rfl, fun _ hm => hm⟩
  exact
    { h with
      call := fun i' c' hc' => (inFlight_update h.call hc i' c' hc').advances hadv
      recent := recent_advances h.recent hadv rfl }

/-- A call that goes on with a recent enough value. -/
theorem raceInv_used (h : RaceInv s) {i : Nat} {c : Enqueueing} (hc : s.calls i = some c)
    {k : LookupKey} {v : Found}
    (hv : ∃ n, c.since ≤ n ∧ n ≤ s.latest ∧ (s.version n).lookup k = v) :
    RaceInv (s.used validates i c k v) := by
  have hadv : Advances s (s.used validates i c k v) := ⟨le_rfl, fun _ _ => rfl, fun _ hm => hm⟩
  have hcall := h.call i c hc
  have hnext : InFlight s (c.proceed validates v) := by
    refine ⟨?_, ?_, ?_⟩
    · rw [proceed_since]
      exact hcall.since_le
    · rw [proceed_since]
      exact hcall.settled
    · intro k' v' j hj
      exact absurd hj (proceed_not_loaded c v k' v' j)
  exact
    { h with
      call := fun i' c' hc' => (inFlight_update h.call hnext i' c' hc').advances hadv
      recent := by
        intro u hu
        rcases List.mem_append.mp hu with hold | hnew
        · exact h.recent u hold
        · rw [List.mem_singleton.mp hnew]
          exact hv }

/-- A fill with a value that is still backed. -/
theorem raceInv_put (h : RaceInv s) {now : Time} {k : LookupKey} {v : Found} {j : Nat}
    (hb : Backed s k v j) : RaceInv { s with cache := s.cache.put now k v } := by
  have hadv : Advances s { s with cache := s.cache.put now k v } :=
    ⟨le_rfl, fun _ _ => rfl, fun _ hm => hm⟩
  exact
    { h with
      entry := by
        intro k' e w hw
        rcases entry_put hw with ⟨rfl, hsame⟩ | hold
        · exact ⟨j, hsame ▸ hb⟩
        · exact h.entry k' e w hold
      call := fun i c hc => (h.call i c hc).advances hadv
      recent := h.recent }

theorem committed_version_of_le (w : AdminWrite) {m : Nat} (hm : m ≤ s.latest) :
    (s.committed w).version m = s.version m :=
  Function.update_of_ne (by omega) _ _

theorem committed_version_new (w : AdminWrite) :
    (s.committed w).version (s.latest + 1) = (s.version s.latest).admin w :=
  Function.update_self ..

theorem committed_writes_of_le (w : AdminWrite) {m : Nat} (hm : m ≤ s.latest) :
    (s.committed w).writes m = s.writes m :=
  Function.update_of_ne (by omega) _ _

/-- The numbers of the versions after a commit: the old ones and the new one. -/
theorem le_committed {w : AdminWrite} {m : Nat} (hm : m ≤ (s.committed w).latest) :
    m ≤ s.latest ∨ m = s.latest + 1 := by
  have : m ≤ s.latest + 1 := hm
  omega

theorem committed_changes {w : AdminWrite} {m : Nat} {k : LookupKey} (hm : m ≤ s.latest) :
    (s.committed w).Changes m k ↔ s.Changes m k := by
  rw [CacheRace.Changes, CacheRace.Changes, committed_version_of_le w hm,
    committed_version_of_le w (by omega : m - 1 ≤ s.latest)]

theorem advances_committed (s : CacheRace) (w : AdminWrite) : Advances s (s.committed w) :=
  ⟨Nat.le_succ _, fun _ hm => committed_version_of_le w hm, fun _ hm => hm⟩

theorem Backed.committed (h : RaceInv s) (w : AdminWrite) {k : LookupKey} {v : Found} {j : Nat}
    (hb : Backed s k v j) : Backed (s.committed w) k v j := by
  obtain ⟨hle, hv, hlater⟩ := hb
  refine ⟨hle.trans (Nat.le_succ _), by rw [committed_version_of_le w hle, hv], ?_⟩
  intro m hjm hm hchange
  rcases le_committed hm with hold | rfl
  · exact hlater m hjm hold ((committed_changes hold).mp hchange)
  · -- the new write has not invalidated yet
    show s.invalidated (s.latest + 1) = false
    rw [Bool.eq_false_iff]
    intro hi
    have := h.invalidated_le _ hi
    omega

theorem raceInv_committed (h : RaceInv s) (w : AdminWrite) : RaceInv (s.committed w) where
  made := by
    intro m hm hle
    rcases le_committed hle with hold | rfl
    · obtain ⟨w', hw', hv'⟩ := h.made m hm hold
      refine ⟨w', (committed_writes_of_le w hold).trans hw', ?_⟩
      rw [committed_version_of_le w hold, committed_version_of_le w (by omega : m - 1 ≤ s.latest),
        hv']
    · refine ⟨w, Function.update_self .., ?_⟩
      rw [committed_version_new, Nat.add_sub_cancel, committed_version_of_le w le_rfl]
  writes_le := by
    intro m w' hw'
    by_cases hm : m = s.latest + 1
    · exact hm.le
    · have hold : Function.update s.writes (s.latest + 1) (some w) m = some w' := hw'
      rw [Function.update_of_ne hm] at hold
      exact (h.writes_le m w' hold).trans (Nat.le_succ _)
  keys := by
    intro m hm
    rcases le_committed hm with hold | rfl
    · rw [committed_version_of_le w hold]
      exact h.keys m hold
    · rw [committed_version_new]
      exact (admin_administers _ w).endpoint_ids (h.keys _ le_rfl)
  invalidated_le := fun m hm => (h.invalidated_le m hm).trans (Nat.le_succ _)
  returned_le := h.returned_le.trans (Nat.le_succ _)
  entry := by
    intro k e v hk
    obtain ⟨j, hj⟩ := h.entry k e v hk
    exact ⟨j, hj.committed h w⟩
  call := fun i c hc => (h.call i c hc).advances (advances_committed s w)
  recent := recent_advances h.recent (advances_committed s w) rfl

/-- An entry that outlives an invalidation was not changed by the write. -/
theorem Backed.dropped (h : RaceInv s) {m : Nat} {w : AdminWrite} (hw : s.writes m = some w)
    {k : LookupKey} {e : Time} {v : Found} {j : Nat}
    (hk : (s.dropped m w).cache.entry k = some (e, v)) (hb : Backed s k v j) :
    Backed (s.dropped m w) k v j := by
  obtain ⟨hle, hv, hlater⟩ := hb
  refine ⟨hle, hv, ?_⟩
  intro n hjn hle' hchange
  have hn : n ≤ s.latest := hle'
  have hkept := hlater n hjn hn hchange
  have hne : n ≠ m := by
    rintro rfl
    obtain ⟨w', hw', hmade⟩ := h.made n (by omega) hn
    obtain rfl := Option.some.inj (hw.symm.trans hw')
    have hchanged : ((s.version (n - 1)).admin w).lookup k ≠ (s.version (n - 1)).lookup k :=
      hmade ▸ hchange
    have hnone := entry_of_changed (h.keys (n - 1) (by omega)) s.cache hchanged
    have hsome : (s.cache.afterAdmin (s.version (n - 1)) w).entry k = some (e, v) := hk
    rw [hnone] at hsome
    cases hsome
  show Function.update s.invalidated m true n = false
  rw [Function.update_of_ne hne]
  exact hkept

theorem raceInv_dropped (h : RaceInv s) {m : Nat} {w : AdminWrite} (hw : s.writes m = some w) :
    RaceInv (s.dropped m w) := by
  have hm := h.writes_le m w hw
  have hmono : ∀ n, s.invalidated n = true → Function.update s.invalidated m true n = true := by
    intro n hn
    by_cases he : n = m
    · rw [he, Function.update_self]
    · rw [Function.update_of_ne he]
      exact hn
  have hadv : Advances s (s.dropped m w) := ⟨le_rfl, fun _ _ => rfl, hmono⟩
  exact
    { h with
      invalidated_le := by
        intro n hn
        by_cases he : n = m
        · exact he ▸ hm
        · have hold : Function.update s.invalidated m true n = true := hn
          rw [Function.update_of_ne he] at hold
          exact h.invalidated_le n hold
      entry := by
        intro k e v hk
        obtain ⟨j, hj⟩ := h.entry k e v (entry_afterAdmin hk)
        exact ⟨j, hj.dropped h hw hk⟩
      call := fun i c hc => (h.call i c hc).advances hadv
      recent := recent_advances h.recent hadv rfl }

/-- One step that meets the condition keeps the invariant. -/
theorem raceInv_step {s' : CacheRace} {a : RaceAction} (h : RaceInv s) (ho : FillsInOrder s a)
    (hs : s.step validates a = some s') : RaceInv s' := by
  cases a with
  | start i req =>
    simp only [CacheRace.step] at hs
    split at hs
    · cases hs
    · obtain rfl := Option.some.inj hs
      exact raceInv_staged h ⟨h.returned_le, ho, by simp⟩
  | look i now =>
    obtain ⟨c, hc, hs⟩ := Option.bind_eq_some_iff.mp hs
    split at hs
    · rename_i k hk
      split at hs
      · rename_i v hv
        obtain rfl := Option.some.inj hs
        obtain ⟨e, he⟩ := cacheGet_some hv
        obtain ⟨j, hj⟩ := h.entry k e v he
        exact raceInv_used h hc (hj.recent (h.call i c hc))
      · obtain rfl := Option.some.inj hs
        have hcall := h.call i c hc
        exact raceInv_staged h ⟨hcall.since_le, hcall.settled, by simp⟩
    · cases hs
  | read i =>
    obtain ⟨c, hc, hs⟩ := Option.bind_eq_some_iff.mp hs
    split at hs
    · rename_i k hk
      obtain rfl := Option.some.inj hs
      have hcall := h.call i c hc
      refine raceInv_staged h ⟨hcall.since_le, hcall.settled, ?_⟩
      intro k' v j hj
      cases hj
      exact ⟨hcall.since_le, le_rfl, rfl⟩
    · cases hs
  | fill i now =>
    obtain ⟨c, hc, hs⟩ := Option.bind_eq_some_iff.mp hs
    split at hs
    · rename_i k v j hk
      obtain rfl := Option.some.inj hs
      obtain ⟨hsince, hle, hv⟩ := (h.call i c hc).loaded k v j hk
      have hb : Backed s k v j := ⟨hle, hv, ho c hc k v j hk⟩
      exact raceInv_put (raceInv_used h hc ⟨j, hsince, hle, hv⟩) hb
    · cases hs
  | commit w =>
    obtain rfl := Option.some.inj hs
    exact raceInv_committed h w
  | invalidate m =>
    simp only [CacheRace.step] at hs
    split at hs
    · cases hs
    · obtain ⟨w, hw, rfl⟩ := Option.map_eq_some_iff.mp hs
      exact raceInv_dropped h hw
  | finish m =>
    simp only [CacheRace.step] at hs
    split at hs
    · rename_i hm
      obtain rfl := Option.some.inj hs
      have hadv : Advances s { s with returned := max s.returned m } :=
        ⟨le_rfl, fun _ _ => rfl, fun _ hn => hn⟩
      exact
        { h with
          returned_le := max_le h.returned_le (h.invalidated_le m hm)
          call := fun i c hc => (h.call i c hc).advances hadv
          recent := recent_advances h.recent hadv rfl }
    · cases hs

end Steps

/-- What the accept path sees under a key when nothing runs between its steps. -/
def AcceptPathCache.seen (c : AcceptPathCache) (t : Tables) (now : Time) : LookupKey → Found
  | .partner i => .partner (seenPartner t c now i)
  | .schema eventType => .schema (seenSchema t c now eventType)
  | .endpoints n eventType => .endpoints (seenEndpoints t c now n eventType)

theorem getD_entry (c : AcceptPathCache) (t : Tables) (now : Time) (k : LookupKey) :
    (cacheGet now (c.entry k)).getD (t.lookup k) = c.seen t now k := by
  have hmap : ∀ {β : Type} (f : β → Found) (e : CacheEntry β),
      cacheGet now (e.map fun x => (x.1, f x.2)) = (cacheGet now e).map f := by
    intro β f e
    cases e with
    | none => rfl
    | some x =>
      show (if x.1 ≤ now then none else some (f x.2)) = Option.map f (if x.1 ≤ now then none else _)
      split <;> rfl
  cases k with
  | partner i =>
    show (cacheGet now ((c.partners i).map _)).getD _ = _
    rw [hmap fun p => .partner (some p)]
    cases h : cacheGet now (c.partners i) <;>
      simp [AcceptPathCache.seen, seenPartner, h, Tables.lookup]
  | schema eventType =>
    show (cacheGet now ((c.schemas eventType).map _)).getD _ = _
    rw [hmap .schema]
    cases h : cacheGet now (c.schemas eventType) <;>
      simp [AcceptPathCache.seen, seenSchema, h, Tables.lookup]
  | endpoints n eventType =>
    show (cacheGet now ((c.endpoints n eventType).map _)).getD _ = _
    rw [hmap .endpoints]
    cases h : cacheGet now (c.endpoints n eventType) <;>
      simp [AcceptPathCache.seen, seenEndpoints, h, Tables.lookup]

/-- A look-up that nothing interrupts goes on with what the sequential accept path sees. -/
theorem lookup_uninterrupted {s : CacheRace} {i : Nat} {c : Enqueueing} {k : LookupKey}
    (hc : s.calls i = some c) (hk : c.stage = .looking k) (now : Time) :
    ∃ as s', exec (CacheRace.step validates) s as = some s' ∧
      s'.uses = s.uses ++ [⟨c.since, k, s.cache.seen (s.version s.latest) now k⟩] := by
  rw [← getD_entry]
  cases hv : cacheGet now (s.cache.entry k) with
  | some v => exact ⟨[.look i now], _, by simp [CacheRace.step, hc, hk, hv]; rfl, rfl⟩
  | none =>
    let awaiting := s.staged i c (.awaiting k)
    let loaded := awaiting.staged i { c with stage := .awaiting k }
      (.loaded k ((s.version s.latest).lookup k) s.latest)
    have hlook : s.step validates (.look i now) = some awaiting := by
      simp [CacheRace.step, hc, hk, hv, awaiting]
    have hread : awaiting.step validates (.read i) = some loaded := by
      simp [CacheRace.step, CacheRace.staged, awaiting, loaded]
    obtain ⟨s', hfill, huses⟩ : ∃ s', loaded.step validates (.fill i now) = some s' ∧
        s'.uses = s.uses ++ [⟨c.since, k, (s.version s.latest).lookup k⟩] :=
      ⟨_, by simp [CacheRace.step, CacheRace.staged, awaiting, loaded]; rfl, rfl⟩
    refine ⟨[.look i now, .read i, .fill i now], s', ?_, huses⟩
    rw [exec_cons, hlook, Option.bind_some, exec_cons, hread, Option.bind_some, exec_cons, hfill]
    rfl

/-- In every run whose fills and starts meet the condition, each call uses partner, schema
and endpoints at least as recent as the commits of the administrative calls that had
returned before it started. -/
theorem recent_of_fills_in_order (validates : PayloadSchema → Payload → Bool) (t : Tables)
    (hkeys : (t.endpoints.map (·.id)).Nodup) (as : List RaceAction)
    (hok : Along (CacheRace.step validates) FillsInOrder (CacheRace.init t) as) :
    Throughout (CacheRace.step validates) Recent (CacheRace.init t) as :=
  throughout_of_invariant RaceInv (fun _ _ _ h ho hs => raceInv_step h ho hs) (fun _ h => h.recent)
    (raceInv_init hkeys) hok

/-- One partner with one endpoint. -/
def acmeAccounts : Tables :=
  (Tables.admin {} (.createPartner acme)).admin (.createEndpoint 1 acmeEndpoint)

def suspendAcme : AdminWrite := .updatePartner 1 ⟨some .suspended, none, none, none⟩

/-- A call fills the cache before the partner is suspended, another starts after it. -/
def fillBeforeCommit : List RaceAction :=
  [.start 0 (acmeRequest "k"), .look 0 0, .read 0, .fill 0 0, .commit suspendAcme, .invalidate 1,
    .finish 1, .start 1 (acmeRequest "l"), .look 1 1, .read 1, .fill 1 1]

theorem recent_of_fills_in_order_suspended :
    (acmeAccounts.endpoints.map (·.id)).Nodup ∧
      Along (CacheRace.step fun _ _ => true) FillsInOrder (CacheRace.init acmeAccounts)
        fillBeforeCommit ∧
      Throughout (CacheRace.step fun _ _ => true) Recent (CacheRace.init acmeAccounts)
        fillBeforeCommit :=
  ⟨by decide, by decide +kernel,
    recent_of_fills_in_order _ acmeAccounts (by decide) _ (by decide +kernel)⟩

/-- The first call has read the partner when it is suspended, and fills the cache after
the administrative call has returned. -/
def fillAfterReturn : List RaceAction :=
  [.start 0 (acmeRequest "k"), .look 0 0, .read 0, .commit suspendAcme, .invalidate 1, .finish 1,
    .fill 0 0, .start 1 (acmeRequest "l"), .look 1 1]

/-- The call that starts after the suspension works with the active partner. -/
theorem suspended_partner_served :
    ¬ Throughout (CacheRace.step fun _ _ => true) Recent (CacheRace.init acmeAccounts)
      fillAfterReturn := by
  intro h
  have hend : (exec (CacheRace.step fun _ _ => true) (CacheRace.init acmeAccounts)
      fillAfterReturn).map (fun s => (s.latest,
        decide (⟨1, .partner 1, .partner (some acme)⟩ ∈ s.uses),
        decide ((s.version 1).lookup (.partner 1) = .partner (some acme)))) =
      some (1, true, false) := by
    decide +kernel
  obtain ⟨s, hrun, hs⟩ := Option.map_eq_some_iff.mp hend
  obtain ⟨hlatest, hrest⟩ := Prod.mk.inj hs
  obtain ⟨huse, hversion⟩ := Prod.mk.inj hrest
  rw [decide_eq_true_iff] at huse
  rw [decide_eq_false_iff_not] at hversion
  obtain ⟨j, hsince, hle, hv⟩ := h.last hrun _ huse
  have hj : j = 1 := by
    have : 1 ≤ j := hsince
    omega
  rw [hj] at hv
  exact hversion hv

end PartnerHub.Outbound
