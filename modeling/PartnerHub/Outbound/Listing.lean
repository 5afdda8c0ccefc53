import PartnerHub.Lib.Pages
import PartnerHub.Outbound.Pipeline

/-!
# The paginated lists of the admin API

`list_deliveries`, `list_dead_letters` and `list_delivery_attempts`: a count, then a query
with LIMIT and OFFSET. Deliveries and dead letters are ordered by `created_at` alone, which
all deliveries of one accepted event share; attempts by their unique number. A reader walks
through the pages while the hub goes on.
-/
namespace PartnerHub.Outbound

open PartnerHub.Domain PartnerHub.Lib PartnerHub.Lib.Pages PartnerHub.Lib.System

structure PaginationParams where
  limit : Nat := 50
  offset : Nat := 0
  limit_ge : 1 ≤ limit := by decide
  limit_le : limit ≤ 200 := by decide

/-- The parameters of the page with number `k`. -/
def PaginationParams.at (params : PaginationParams) (k : Nat) : PaginationParams :=
  { params with offset := k * params.limit }

structure PaginatedResponse (α : Type) where
  items : List α
  total : Nat
  limit : Nat
  offset : Nat
  deriving DecidableEq, Repr

/-- The response to a request whose queries see `rows`; the second one orders them as
`answer`. -/
def paginated {α : Type} (rows answer : List α) (params : PaginationParams) :
    PaginatedResponse α where
  items := page params.limit params.offset answer
  total := rows.length
  limit := params.limit
  offset := params.offset

structure DeliveryFilters where
  partnerId : Option Uuid := none
  statusFilter : Option DeliveryStatus := none
  eventType : Option String := none
  fromDt : Option Time := none
  toDt : Option Time := none
  correlationId : Option String := none
  slaBreached : Option Bool := none

/-- `_apply_delivery_filters`. -/
def DeliveryFilters.keeps (f : DeliveryFilters) (row : Delivery × Partner) : Bool :=
  f.partnerId.all (fun i => row.2.publicId = i) &&
  f.statusFilter.all (fun s => row.1.status = s) &&
  f.eventType.all (fun e => row.1.eventType = e) &&
  f.fromDt.all (fun t => t ≤ row.1.createdAt) &&
  f.toDt.all (fun t => row.1.createdAt ≤ t) &&
  f.correlationId.all (fun c => row.1.correlationId = c) &&
  f.slaBreached.all (fun b => row.1.slaBreached = b)

def Tables.withPartner (t : Tables) (d : Delivery) : Option (Delivery × Partner) :=
  (t.partners.find? fun p => p.id = d.partnerId).map fun p => (d, p)

def Tables.filteredDeliveries (t : Tables) (f : DeliveryFilters) : List (Delivery × Partner) :=
  (t.deliveries.filterMap t.withPartner).filter f.keeps

def Tables.deadLetterRow (t : Tables) (l : DeadLetter) : Option (DeadLetter × Delivery × Partner) :=
  (t.deliveries.find? fun d => d.id = l.deliveryId).bind fun d =>
    (t.partners.find? fun p => p.id = l.partnerId).map fun p => (l, d, p)

def Tables.deadLetterRows (t : Tables) : List (DeadLetter × Delivery × Partner) :=
  t.deadLetters.filterMap t.deadLetterRow

def deliveryCreated (row : Delivery × Partner) : Time := row.1.createdAt

def deadLetterCreated (row : DeadLetter × Delivery × Partner) : Time := row.1.createdAt

/-- `attempt_number.asc()`. -/
def attemptOrder (a : DeliveryAttempt) : Natᵒᵈ := OrderDual.toDual a.attemptNumber

/-- The attempts as `get_delivery` nests them. -/
def Tables.attemptsInOrder (t : Tables) (deliveryId : Nat) : List DeliveryAttempt :=
  (t.attemptsOf deliveryId).insertionSort fun a b => a.attemptNumber ≤ b.attemptNumber

/-- The items of the first `n` pages. -/
def shown {α : Type} (rows : Nat → List α) (answers : Nat → List α) (params : PaginationParams)
    (n : Nat) : List α :=
  (List.range n).flatMap fun k => (paginated (rows k) (answers k) (params.at k)).items

/-- Whatever order each query chooses among ties, the pages up to the total show every row
once. -/
def ExactPages {α : Type} {κ : Type} [LinearOrder κ] (key : α → κ) (rows : List α)
    (params : PaginationParams) : Prop :=
  ∀ n answers, rows.length ≤ n * params.limit → (∀ k, Answers key rows (answers k)) →
    (shown (fun _ => rows) answers params n).Perm rows

section Rows

variable {t : Tables}

theorem nodup_withPartner (ht : t.Consistent) : (t.deliveries.filterMap t.withPartner).Nodup := by
  have hn : t.deliveries.Nodup := ht.delivery_id.of_map _
  refine hn.filterMap ?_
  intro d d' row h h'
  obtain ⟨p, -, rfl⟩ := Option.map_eq_some_iff.mp (Option.mem_def.mp h)
  obtain ⟨p', -, he⟩ := Option.map_eq_some_iff.mp (Option.mem_def.mp h')
  exact (congrArg Prod.fst he).symm

theorem nodup_filteredDeliveries (ht : t.Consistent) (f : DeliveryFilters) :
    (t.filteredDeliveries f).Nodup := (nodup_withPartner ht).filter _

theorem nodup_deadLetterRows (ht : t.Consistent) : t.deadLetterRows.Nodup := by
  have hn : t.deadLetters.Nodup := ht.deadLetter_unique.of_map _
  refine hn.filterMap ?_
  intro l l' row h h'
  obtain ⟨d, -, h⟩ := Option.bind_eq_some_iff.mp (Option.mem_def.mp h)
  obtain ⟨p, -, rfl⟩ := Option.map_eq_some_iff.mp h
  obtain ⟨d', -, h'⟩ := Option.bind_eq_some_iff.mp (Option.mem_def.mp h')
  obtain ⟨p', -, he⟩ := Option.map_eq_some_iff.mp h'
  exact (congrArg Prod.fst he).symm

/-- A delivery has one attempt of a number. -/
theorem attemptOrder_injOn (ht : t.Consistent) (i : Nat) :
    Set.InjOn attemptOrder {a | a ∈ t.attemptsOf i} := by
  intro a ha b hb he
  obtain ⟨hmem, hid⟩ := mem_attemptsOf.mp ha
  obtain ⟨hmem', hid'⟩ := mem_attemptsOf.mp hb
  refine Table.eq_of_unique ht.attempt_number hmem hmem' ?_
  exact Prod.ext (hid.trans hid'.symm) (OrderDual.toDual.injective he)

theorem answers_attemptsInOrder (t : Tables) (i : Nat) :
    Answers attemptOrder (t.attemptsOf i) (t.attemptsInOrder i) where
  perm := List.perm_insertionSort _ _
  sorted := List.pairwise_insertionSort (fun a b : DeliveryAttempt =>
    a.attemptNumber ≤ b.attemptNumber) (t.attemptsOf i)

end Rows

theorem exactPages_iff {α : Type} {κ : Type} [LinearOrder κ] {key : α → κ} {rows : List α}
    (hn : rows.Nodup) (params : PaginationParams) : ExactPages key rows params ↔
      ∀ k, ∀ a ∈ rows, ¬ Straddles key rows (k * params.limit) a :=
  walk_exact_iff params.limit_ge hn

/-- The pages of deliveries and of dead letters show every row once, whatever the database
answers, exactly when no page ends between two rows created at one time; the pages of a
delivery's attempts always are the attempts of the detail view, in its order. -/
theorem pages_exact_iff (db : Db) (params : PaginationParams) :
    (∀ f, ExactPages deliveryCreated (db.tables.filteredDeliveries f) params ↔
      ∀ k, ∀ row ∈ db.tables.filteredDeliveries f,
        ¬ Straddles deliveryCreated (db.tables.filteredDeliveries f) (k * params.limit) row) ∧
    (ExactPages deadLetterCreated db.tables.deadLetterRows params ↔
      ∀ k, ∀ row ∈ db.tables.deadLetterRows,
        ¬ Straddles deadLetterCreated db.tables.deadLetterRows (k * params.limit) row) ∧
    ∀ i n answers, (db.tables.attemptsOf i).length ≤ n * params.limit →
      (∀ k, Answers attemptOrder (db.tables.attemptsOf i) (answers k)) →
      shown (fun _ => db.tables.attemptsOf i) answers params n = db.tables.attemptsInOrder i := by
  refine ⟨?_, ?_, ?_⟩
  · intro f
    exact exactPages_iff (nodup_filteredDeliveries db.consistent f) params
  · exact exactPages_iff (nodup_deadLetterRows db.consistent) params
  · intro i n answers hlen hx
    exact walk_of_injective hx (attemptOrder_injOn db.consistent i) hlen
      (answers_attemptsInOrder db.tables i)

/-- No write gives a stored partner another public id. -/
def KeepsPublicIds (h : Hub) : Action → Prop
  | .operation (.putPartner p) => ∀ q ∈ h.db.tables.partners, q.id = p.id → q.publicId = p.publicId
  | _ => True

/-- The columns of a delivery that filters and order read and no UPDATE writes. -/
structure FixedColumns where
  publicId : Uuid
  partnerId : Nat
  eventType : String
  correlationId : String
  createdAt : Time

def fixedColumns (d : Delivery) : FixedColumns :=
  ⟨d.publicId, d.partnerId, d.eventType, d.correlationId, d.createdAt⟩

def listed (row : Delivery × Partner) : FixedColumns × Uuid :=
  (fixedColumns row.1, row.2.publicId)

def listedCreated (x : FixedColumns × Uuid) : Time := x.1.createdAt

/-- The filter reads no column that an UPDATE writes. -/
def DeliveryFilters.Fixed (f : DeliveryFilters) : Prop :=
  f.statusFilter = none ∧ f.slaBreached = none

def DeliveryFilters.keepsListed (f : DeliveryFilters) (x : FixedColumns × Uuid) : Bool :=
  f.partnerId.all (fun i => x.2 = i) && f.eventType.all (fun e => x.1.eventType = e) &&
  f.fromDt.all (fun t => t ≤ x.1.createdAt) && f.toDt.all (fun t => x.1.createdAt ≤ t) &&
  f.correlationId.all (fun c => x.1.correlationId = c)

theorem keeps_listed {f : DeliveryFilters} (hf : f.Fixed) (row : Delivery × Partner) :
    f.keeps row = f.keepsListed (listed row) := by
  simp only [DeliveryFilters.keeps, hf.1, hf.2, Option.all_none, Bool.and_true]
  rfl

/-- The rows of `t` are rows of `t'`, in the same order. -/
def ListsGrow (t t' : Tables) : Prop :=
  ((t.deliveries.filterMap t.withPartner).map listed).Sublist
    ((t'.deliveries.filterMap t'.withPartner).map listed)

section Growth

variable {t t' : Tables}

theorem filteredDeliveries_listed {f : DeliveryFilters} (hf : f.Fixed) (t : Tables) :
    (t.filteredDeliveries f).map listed =
      ((t.deliveries.filterMap t.withPartner).map listed).filter f.keepsListed := by
  rw [Tables.filteredDeliveries, List.filter_map]
  congr 2
  funext row
  exact keeps_listed hf row

theorem ListsGrow.filtered (h : ListsGrow t t') {f : DeliveryFilters} (hf : f.Fixed) :
    ((t.filteredDeliveries f).map listed).Sublist ((t'.filteredDeliveries f).map listed) := by
  rw [filteredDeliveries_listed hf, filteredDeliveries_listed hf]
  exact h.filter _

def Tables.listedOf (t : Tables) (c : FixedColumns) : Option (FixedColumns × Uuid) :=
  (t.partners.find? fun p => p.id = c.partnerId).map fun p => (c, p.publicId)

theorem map_listed (t : Tables) : (t.deliveries.filterMap t.withPartner).map listed =
    (t.deliveries.map fixedColumns).filterMap t.listedOf := by
  rw [List.map_filterMap, List.filterMap_map]
  congr 1
  funext d
  simp only [Tables.withPartner, Tables.listedOf, Function.comp_apply, Option.map_map]
  rfl

theorem filterMap_sublist {α β : Type*} {f g : α → Option β} {l l' : List α} (hl : l.Sublist l')
    (hfg : ∀ a b, f a = some b → g a = some b) : (l.filterMap f).Sublist (l'.filterMap g) := by
  refine List.Sublist.trans ?_ (hl.filterMap g)
  induction l with
  | nil => exact List.Sublist.refl _
  | cons a l ih =>
    have htail := ih (List.sublist_of_cons_sublist hl)
    cases ha : f a with
    | none =>
      rw [List.filterMap_cons_none ha, List.filterMap_cons]
      cases g a with
      | none => exact htail
      | some b => exact htail.cons b
    | some b =>
      rw [List.filterMap_cons_some ha, List.filterMap_cons_some (hfg a b ha)]
      exact htail.cons_cons b

theorem listsGrow_of (hd : (t.deliveries.map fixedColumns).Sublist (t'.deliveries.map fixedColumns))
    (hp : ∀ n p, t.partners.find? (fun q => q.id = n) = some p →
      ∃ p', t'.partners.find? (fun q => q.id = n) = some p' ∧ p'.publicId = p.publicId) :
    ListsGrow t t' := by
  rw [ListsGrow, map_listed, map_listed]
  refine filterMap_sublist hd ?_
  intro c x hx
  obtain ⟨p, hfind, rfl⟩ := Option.map_eq_some_iff.mp hx
  obtain ⟨p', hfind', hpub⟩ := hp _ p hfind
  rw [Tables.listedOf, hfind', Option.map_some, hpub]

theorem ListsGrow.refl (t : Tables) : ListsGrow t t := List.Sublist.refl _

theorem ListsGrow.trans {t'' : Tables} (h : ListsGrow t t') (h' : ListsGrow t' t'') :
    ListsGrow t t'' := List.Sublist.trans h h'

/-- The deliveries only grow, and the partners stay. -/
theorem listsGrow_of_same (hp : t'.partners = t.partners)
    (hd : (t.deliveries.map fixedColumns).Sublist (t'.deliveries.map fixedColumns)) :
    ListsGrow t t' :=
  listsGrow_of hd fun _ p hfind => ⟨p, by rw [hp]; exact hfind, rfl⟩

theorem listsGrow_flush (loaded mine : Delivery) (hp : t'.partners = t.partners)
    (hd : t'.deliveries = (t.flush loaded mine).deliveries) : ListsGrow t t' := by
  refine listsGrow_of_same hp ?_
  rw [hd]
  exact (Table.map_modify Delivery.id loaded.id (flushDelivery loaded mine) fixedColumns
    t.deliveries fun _ => rfl).symm ▸ List.Sublist.refl _

theorem find_putPartner {p q : Partner} {n : Nat}
    (hk : ∀ q ∈ t.partners, q.id = p.id → q.publicId = p.publicId)
    (hq : t.partners.find? (fun x => x.id = n) = some q) :
    ∃ q', (t.putPartner p).partners.find? (fun x => x.id = n) = some q' ∧
      q'.publicId = q.publicId := by
  have hid : q.id = n := by simpa using List.find?_some hq
  have hmem := List.mem_of_find?_eq_some hq
  simp only [Tables.putPartner]
  split
  · have hcomp : ((fun x : Partner => decide (x.id = n)) ∘ fun r => if r.id = p.id then p else r) =
        fun x => decide (x.id = n) := by
      funext x
      by_cases hx : x.id = p.id <;> simp [hx]
    rw [Table.modify, List.find?_map, hcomp, hq, Option.map_some]
    refine ⟨_, rfl, ?_⟩
    split
    · exact (hk q hmem ‹_›).symm
    · rfl
  · exact ⟨q, by rw [List.find?_append, hq, Option.some_or], rfl⟩

theorem listsGrow_atomic (settings : Settings) (db : Db) {op : Op} (hop : op.isAtomic = true)
    (hk : ∀ p, op = .putPartner p → ∀ q ∈ db.tables.partners, q.id = p.id →
      q.publicId = p.publicId) : ListsGrow db.tables (db.apply settings op).tables := by
  cases op with
  | putPartner p =>
    exact listsGrow_of (List.Sublist.refl _) fun n q hq => find_putPartner (hk p rfl) hq
  | putEndpoint e => exact listsGrow_of_same rfl (List.Sublist.refl _)
  | enqueue partner endpoints req =>
    simp only [Db.apply]
    cases h : db.acceptEvent partner endpoints req with
    | error e => exact .refl _
    | ok db' =>
      obtain ⟨rows, events, -, ht⟩ := accept_ok h
      rw [Db.orKeep, ht]
      refine listsGrow_of_same rfl ?_
      exact (List.sublist_append_left _ _).map _
  | process | replay => cases hop
  | acknowledge id now sub =>
    simp only [Db.apply]
    cases h : db.acknowledgeDeadLetter id now sub with
    | error e => exact .refl _
    | ok db' =>
      rw [Db.orKeep, (acknowledge_ok h).frame]
      exact listsGrow_of_same rfl (List.Sublist.refl _)
  | purge id reason sub =>
    simp only [Db.apply]
    cases h : db.purgeDeadLetter id reason sub with
    | error e => exact .refl _
    | ok db' =>
      rw [Db.orKeep, (purge_ok h).frame]
      exact listsGrow_of_same rfl (List.Sublist.refl _)

end Growth

section Runs

variable {settings : Settings} {h h' : Hub} {a : Action}

theorem listsGrow_step (hk : KeepsPublicIds h a) (hs : h.step settings a = some h') :
    ListsGrow h.db.tables h'.db.tables := by
  have hstep := hubStep_of_step hs
  cases hstep with
  | @atomic op db' rows events ha =>
    simp only [Hub.step] at hs
    split at hs
    · rename_i hop
      have hdb := congrArg Hub.db (Option.some.inj hs)
      dsimp only at hdb
      rw [← hdb]
      refine listsGrow_atomic settings h.db hop ?_
      rintro p rfl
      exact hk
    · cases hs
  | @send r relay o rest outcome sentAt =>
    cases outcome <;> exact .refl _
  | relayCommit => exact listsGrow_of_same rfl (List.Sublist.refl _)
  | @commit w ctx input s record out db' hh hv hc =>
    dsimp only
    rw [processed_tables hc]
    exact listsGrow_flush s.loaded s.delivery rfl rfl
  | @publish w record outcome =>
    cases outcome <;> exact .refl _
  | @replay r req row s hr hrep => exact listsGrow_flush s.loaded s.delivery rfl rfl
  | select | relayFailed | relayCrash | start | worker | missing | found | skip | failed
  | readReplay | replayRefused | abortReplay => exact .refl _

theorem listsGrow_leads (h₀ : Leads (Hub.step settings) KeepsPublicIds h h') :
    ListsGrow h.db.tables h'.db.tables :=
  h₀.invariant (fun s => ListsGrow h.db.tables s.db.tables)
    (fun _ _ _ hg hk hs => hg.trans (listsGrow_step hk hs)) (.refl _)

end Runs

/-- A page that is not full reaches the end of the list. -/
theorem reaches_end {α κ : Type} [LinearOrder κ] {key : α → κ} {rows answer : List α}
    {params : PaginationParams} {k : Nat} (hx : Answers key rows answer)
    (h : (paginated rows answer (params.at k)).items.length < params.limit) :
    rows.length ≤ (k + 1) * params.limit := by
  have hlen : min params.limit (answer.length - k * params.limit) < params.limit :=
    (length_page params.limit (k * params.limit) answer) ▸ h
  rw [hx.perm.length_eq] at hlen
  rw [Nat.succ_mul]
  omega

/-- The hub goes on between the pages, and each query orders ties as it likes. A reader of a
list that filters by fixed columns, who stops at a page that is not full, has been shown
every delivery of the list that was there at the start, unless a page ended between it and
another one created at the same time. -/
theorem walk_misses_nothing (settings : Settings) (hubs : Nat → Hub) (f : DeliveryFilters)
    (params : PaginationParams) (answers : Nat → List (Delivery × Partner)) (n : Nat)
    (hfixed : f.Fixed)
    (hrun : ∀ k, Leads (Hub.step settings) KeepsPublicIds (hubs k) (hubs (k + 1)))
    (hx : ∀ k, Answers deliveryCreated ((hubs k).db.tables.filteredDeliveries f) (answers k))
    (hlast : ∃ k < n, (paginated ((hubs k).db.tables.filteredDeliveries f) (answers k)
      (params.at k)).items.length < params.limit) :
    ∀ row ∈ (hubs 0).db.tables.filteredDeliveries f,
      (∀ k < n, ¬ Straddles deliveryCreated ((hubs k).db.tables.filteredDeliveries f)
        ((k + 1) * params.limit) row) →
      ∃ item ∈ shown (fun k => (hubs k).db.tables.filteredDeliveries f) answers params n,
        item.1.publicId = row.1.publicId := by
  intro row hrow hcut
  have hkey : ∀ r, listedCreated (listed r) = deliveryCreated r := fun _ => rfl
  have hend : ∃ k < n, (((hubs k).db.tables.filteredDeliveries f).map listed).length ≤
      (k + 1) * params.limit := by
    obtain ⟨k, hk, hshort⟩ := hlast
    exact ⟨k, hk, by rw [List.length_map]; exact reaches_end (hx k) hshort⟩
  obtain ⟨k, hk, hmem⟩ := shown_of_grows
    (fun k => ((listsGrow_leads (hrun k)).filtered hfixed).subperm)
    (fun k => (hx k).map hkey) (List.mem_map_of_mem hrow)
    (fun k hk => mt (straddles_map hkey _ row).mp (hcut k hk)) hend
  rw [← map_page] at hmem
  obtain ⟨item, hitem, he⟩ := List.mem_map.mp hmem
  refine ⟨item, List.mem_flatMap.mpr ⟨k, List.mem_range.mpr hk, hitem⟩, ?_⟩
  exact congrArg (fun x => x.1.publicId) he

/-- One delivery, and the hub after another one is accepted a second later. -/
def acceptedHub : Hub :=
  { Hub.init newGroup with
    db := ((Db.empty.apply {} (.putPartner acme)).apply {} (.putEndpoint acmeEndpoint)).apply {}
      (.enqueue acme [acmeEndpoint] (acmeRequest "a")) }

def laterRequest : EnqueueRequest :=
  { acmeRequest "b" with createdAt := 1, publicIds := fun i => BitVec.ofNat 128 (20 + i) }

def growingHub (k : Nat) : Hub :=
  if k = 0 then acceptedHub
  else
    { acceptedHub with db := acceptedHub.db.apply {} (.enqueue acme [acmeEndpoint] laterRequest) }

theorem growingHub_leads (k : Nat) :
    Leads (Hub.step {}) KeepsPublicIds (growingHub k) (growingHub (k + 1)) := by
  cases k with
  | zero =>
    exact Leads.single (a := .operation (.enqueue acme [acmeEndpoint] laterRequest)) trivial rfl
  | succ k => exact Leads.refl _

/-- With one item a page, the older delivery is on the second one. -/
theorem walk_misses_nothing_growing :
    ∃ item ∈ shown (fun k => (growingHub k).db.tables.filteredDeliveries {})
      (fun k => ordered deliveryCreated ((growingHub k).db.tables.filteredDeliveries {}))
      { limit := 1 } 3, item.1.publicId = 10 := by
  obtain ⟨row, hrow, hid, hcut⟩ : ∃ row ∈ (growingHub 0).db.tables.filteredDeliveries {},
      row.1.publicId = 10 ∧ ∀ k < 3, ¬ Straddles deliveryCreated
        ((growingHub k).db.tables.filteredDeliveries {}) ((k + 1) * 1) row := by
    decide +kernel
  rw [← hid]
  exact walk_misses_nothing {} growingHub {} { limit := 1 }
    (fun k => ordered deliveryCreated ((growingHub k).db.tables.filteredDeliveries {})) 3 ⟨rfl, rfl⟩
    growingHub_leads (fun k => answers_ordered _ _) (by decide +kernel) row hrow hcut

end PartnerHub.Outbound
