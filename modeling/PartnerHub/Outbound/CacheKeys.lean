import PartnerHub.Outbound.AcceptPathDict

/-!
# What an invalidation removes

`invalidate_partner`, `invalidate_partner_endpoints` and `invalidate_schema` on the one
dictionary of the accept path. The endpoints of a partner are found by the beginning of
their keys, and the parts of a key are not escaped.
-/
namespace PartnerHub.Outbound

open PartnerHub.Domain PartnerHub.Lib

/-- The beginning of the keys `_invalidate_endpoints_for_partner` deletes. -/
def endpointsPrefix (partnerId : Nat) : String := "endpoints:" ++ (Nat.repr partnerId ++ ":")

namespace CacheDict

/-- `_invalidate_endpoints_for_partner`. -/
def invalidatePartnerEndpoints (c : CacheDict) (partnerId : Nat) : CacheDict :=
  c.eraseAll fun key => (endpointsPrefix partnerId).toList <+: key.toList

/-- The id `invalidate_partner` takes from the entry, whether or not that has expired. -/
def partnerIdAt (c : CacheDict) (publicId : Uuid) : Option Nat :=
  match c (partnerCacheKey publicId) with
  | some (_, .partner p) => some p.id
  | _ => none

def invalidatePartner (c : CacheDict) (publicId : Uuid) : CacheDict :=
  let dropped := c.erase (partnerCacheKey publicId)
  match c.partnerIdAt publicId with
  | none => dropped
  | some partnerId => invalidatePartnerEndpoints dropped partnerId

def invalidateSchema (c : CacheDict) (eventType : String) : CacheDict :=
  c.erase (schemaCacheKey eventType)

end CacheDict

variable {c : CacheDict}

/-- The digits of an id end at the colon, so no other partner's keys begin alike, whatever
the event types contain. -/
theorem startsWith_endpointsPrefix {n : Nat} {key : String} :
    (endpointsPrefix n).toList <+: key.toList ↔
      ∃ eventType, key = endpointsCacheKey n eventType := by
  have hkey : ∀ eventType, (endpointsCacheKey n eventType).toList =
      (endpointsPrefix n).toList ++ eventType.toList := by
    intro eventType
    simp only [endpointsCacheKey, endpointsPrefix, String.toList_append, List.append_assoc]
  constructor
  · rintro ⟨rest, hrest⟩
    refine ⟨String.ofList rest, String.toList_inj.mp ?_⟩
    rw [hkey, String.toList_ofList, hrest]
  · rintro ⟨eventType, rfl⟩
    exact ⟨eventType.toList, (hkey eventType).symm⟩

theorem startsWith_endpoints {m n : Nat} {eventType : String} :
    (endpointsPrefix m).toList <+: (endpointsCacheKey n eventType).toList ↔ n = m := by
  rw [startsWith_endpointsPrefix]
  constructor
  · rintro ⟨eventType', he⟩
    exact (endpointsCacheKey_injective he).1
  · rintro rfl
    exact ⟨eventType, rfl⟩

theorem not_startsWith_partner {n : Nat} {i : Uuid} :
    ¬ (endpointsPrefix n).toList <+: (partnerCacheKey i).toList := by
  rw [startsWith_endpointsPrefix]
  rintro ⟨eventType, he⟩
  exact partnerCacheKey_ne_endpointsCacheKey he

theorem not_startsWith_schema {n : Nat} {eventType : String} :
    ¬ (endpointsPrefix n).toList <+: (schemaCacheKey eventType).toList := by
  rw [startsWith_endpointsPrefix]
  rintro ⟨eventType', he⟩
  exact schemaCacheKey_ne_endpointsCacheKey he

theorem invalidatePartnerEndpoints_endpoints (m n : Nat) (eventType : String) :
    c.invalidatePartnerEndpoints m (endpointsCacheKey n eventType) =
      if n = m then none else c (endpointsCacheKey n eventType) := by
  simp only [CacheDict.invalidatePartnerEndpoints, ExpiringCache.eraseAll, startsWith_endpoints]

theorem invalidatePartnerEndpoints_partner (n : Nat) (i : Uuid) :
    c.invalidatePartnerEndpoints n (partnerCacheKey i) = c (partnerCacheKey i) :=
  if_neg not_startsWith_partner

theorem invalidatePartnerEndpoints_schema (n : Nat) (eventType : String) :
    c.invalidatePartnerEndpoints n (schemaCacheKey eventType) = c (schemaCacheKey eventType) :=
  if_neg not_startsWith_schema

theorem removes_invalidatePartnerEndpoints (c : CacheDict) (n : Nat) :
    ExpiringCache.Removes (fun key => ∃ eventType, key = endpointsCacheKey n eventType) c
      (c.invalidatePartnerEndpoints n) :=
  (ExpiringCache.removes_eraseAll c _).congr fun _ => startsWith_endpointsPrefix

/-- Erasing the partner's own entry first leaves its endpoints to be found. -/
theorem removes_invalidatePartner (c : CacheDict) (i : Uuid) :
    ExpiringCache.Removes (fun key => key = partnerCacheKey i ∨
        ∃ n ∈ c.partnerIdAt i, ∃ eventType, key = endpointsCacheKey n eventType) c
      (c.invalidatePartner i) := by
  have hdrop := ExpiringCache.removes_erase c (partnerCacheKey i)
  unfold CacheDict.invalidatePartner
  cases hid : c.partnerIdAt i with
  | none => exact hdrop.congr fun key => by simp
  | some n =>
    refine (hdrop.trans (removes_invalidatePartnerEndpoints _ n)).congr ?_
    intro key
    simp

/-- Each key function is injective and no two of them meet. -/
structure KeysApart : Prop where
  partner : ∀ i j, partnerCacheKey i = partnerCacheKey j → i = j
  schema : ∀ a b, schemaCacheKey a = schemaCacheKey b → a = b
  endpoints : ∀ m n a b, endpointsCacheKey m a = endpointsCacheKey n b → m = n ∧ a = b
  partner_schema : ∀ i a, partnerCacheKey i ≠ schemaCacheKey a
  partner_endpoints : ∀ i n a, partnerCacheKey i ≠ endpointsCacheKey n a
  schema_endpoints : ∀ a n b, schemaCacheKey a ≠ endpointsCacheKey n b

theorem keysApart : KeysApart where
  partner _ _ := partnerCacheKey_injective
  schema _ _ := schemaCacheKey_injective
  endpoints _ _ _ _ := endpointsCacheKey_injective
  partner_schema _ _ := partnerCacheKey_ne_schemaCacheKey
  partner_endpoints _ _ _ := partnerCacheKey_ne_endpointsCacheKey
  schema_endpoints _ _ _ := schemaCacheKey_ne_endpointsCacheKey

/-- Over every dictionary, whatever the ids and event types in its keys: an invalidation
removes the entries it names and no other. -/
theorem invalidation_removes_exactly :
    KeysApart ∧ ∀ c : CacheDict,
      (∀ p q eventType, c.invalidatePartnerEndpoints p (endpointsCacheKey q eventType) =
        if q = p then none else c (endpointsCacheKey q eventType)) ∧
      (∀ p i, c.invalidatePartnerEndpoints p (partnerCacheKey i) = c (partnerCacheKey i)) ∧
      (∀ p eventType, c.invalidatePartnerEndpoints p (schemaCacheKey eventType) =
        c (schemaCacheKey eventType)) ∧
      (∀ eventType, ExpiringCache.Removes (· = schemaCacheKey eventType) c
        (c.invalidateSchema eventType)) ∧
      ∀ i, ExpiringCache.Removes (fun key => key = partnerCacheKey i ∨
          ∃ p ∈ c.partnerIdAt i, ∃ eventType, key = endpointsCacheKey p eventType) c
        (c.invalidatePartner i) := by
  refine ⟨keysApart, fun c => ⟨?_, ?_, ?_, ?_, ?_⟩⟩
  · exact invalidatePartnerEndpoints_endpoints
  · exact invalidatePartnerEndpoints_partner
  · exact invalidatePartnerEndpoints_schema
  · exact fun eventType => ExpiringCache.removes_erase c (schemaCacheKey eventType)
  · exact removes_invalidatePartner c

/-! ## The three maps behind the dictionary -/

namespace CacheDict

/-- The dictionary read by family; a value of another kind under a key is passed over. -/
def view (c : CacheDict) : AcceptPathCache where
  partners i :=
    match c (partnerCacheKey i) with
    | some (expiresAt, .partner p) => some (expiresAt, p)
    | _ => none
  schemas eventType :=
    match c (schemaCacheKey eventType) with
    | some (expiresAt, .schema row) => some (expiresAt, some row)
    | some (expiresAt, .schemaAbsent) => some (expiresAt, none)
    | _ => none
  endpoints n eventType :=
    match c (endpointsCacheKey n eventType) with
    | some (expiresAt, .endpoints es) => some (expiresAt, es)
    | _ => none

end CacheDict

theorem view_invalidatePartnerEndpoints (c : CacheDict) (m : Nat) :
    (c.invalidatePartnerEndpoints m).view = c.view.invalidatePartnerEndpoints m := by
  simp only [CacheDict.view, AcceptPathCache.invalidatePartnerEndpoints,
    invalidatePartnerEndpoints_endpoints, invalidatePartnerEndpoints_partner,
    invalidatePartnerEndpoints_schema, AcceptPathCache.mk.injEq, true_and]
  funext n eventType
  by_cases hn : n = m
  · rw [hn, Function.update_self]
    simp
  · rw [Function.update_of_ne hn]
    simp [hn]

theorem view_erase_partner (c : CacheDict) (i : Uuid) :
    CacheDict.view (c.erase (partnerCacheKey i)) =
      { c.view with partners := Function.update c.view.partners i none } := by
  have hother : ∀ key, key ≠ partnerCacheKey i → c.erase (partnerCacheKey i) key = c key :=
    fun key => (ExpiringCache.removes_erase c (partnerCacheKey i) key).2
  simp only [CacheDict.view, hother _ partnerCacheKey_ne_schemaCacheKey.symm,
    hother _ partnerCacheKey_ne_endpointsCacheKey.symm, AcceptPathCache.mk.injEq, and_true]
  funext j
  by_cases hj : j = i
  · rw [hj, Function.update_self, (ExpiringCache.removes_erase c (partnerCacheKey i) _).1 rfl]
  · rw [Function.update_of_ne hj, hother _ fun he => hj (partnerCacheKey_injective he)]

/-- Invalidating in the dictionary is invalidating in the maps. -/
theorem view_invalidatePartner (c : CacheDict) (i : Uuid) :
    (c.invalidatePartner i).view = c.view.invalidatePartner i := by
  have hid : c.partnerIdAt i = (c.view.partners i).map fun x => x.2.id := by
    simp only [CacheDict.partnerIdAt, CacheDict.view]
    split <;> rfl
  rw [CacheDict.invalidatePartner, AcceptPathCache.invalidatePartner, hid]
  cases c.view.partners i with
  | none => exact view_erase_partner c i
  | some x =>
    simp only [Option.map_some]
    rw [view_invalidatePartnerEndpoints, view_erase_partner]

theorem view_invalidateSchema (c : CacheDict) (eventType : String) :
    (c.invalidateSchema eventType).view = c.view.invalidateSchema eventType := by
  have hother : ∀ key, key ≠ schemaCacheKey eventType →
      c.invalidateSchema eventType key = c key :=
    fun key => (ExpiringCache.removes_erase c (schemaCacheKey eventType) key).2
  simp only [CacheDict.view, AcceptPathCache.invalidateSchema,
    hother _ partnerCacheKey_ne_schemaCacheKey, hother _ schemaCacheKey_ne_endpointsCacheKey.symm,
    AcceptPathCache.mk.injEq, true_and, and_true]
  funext e
  by_cases he : e = eventType
  · rw [he, Function.update_self]
    have hgone : c.invalidateSchema eventType (schemaCacheKey eventType) = none :=
      (ExpiringCache.removes_erase c (schemaCacheKey eventType) _).1 rfl
    rw [hgone]
  · rw [Function.update_of_ne he, hother _ fun h => he (schemaCacheKey_injective h)]

end PartnerHub.Outbound
