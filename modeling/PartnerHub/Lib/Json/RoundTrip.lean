import PartnerHub.Lib.Json.Quote

/-!
# What `json.dumps` writes, `json.loads` reads

The text of a value is ASCII and is read back as the value, with its keys in the order and its
floats in the spelling of the encoder. So the text is the same for two values exactly when they
agree up to that order and spelling.
-/
namespace PartnerHub.Lib.Json

section Members

theorem setMember_of_not_mem {members : List (Text × Value)} {key : Text} (v : Value)
    (h : key ∉ members.map Prod.fst) : setMember members key v = members ++ [(key, v)] := by
  have hany : ¬members.any (·.1 = key) = true := by
    intro hmem
    obtain ⟨m, hm, hkey⟩ := List.any_eq_true.mp hmem
    exact h (List.mem_map.mpr ⟨m, hm, by simpa using hkey⟩)
  rw [setMember, if_neg hany]

/-- Pairs with different keys are the dict as they stand. -/
theorem dictOf_of_nodup {pairs : List (Text × Value)} (h : (pairs.map Prod.fst).Nodup) :
    dictOf pairs = pairs := by
  induction pairs using List.reverseRecOn with
  | nil => rfl
  | append_singleton pairs pair ih =>
    rw [List.map_append, List.map_singleton, List.nodup_append] at h
    rw [dictOf, List.foldl_append, List.foldl_cons, List.foldl_nil, ← dictOf, ih h.1]
    exact setMember_of_not_mem pair.2 fun hmem => h.2.2 _ hmem _ (List.mem_singleton_self _) rfl

end Members

section Values

variable {α : Type} {lim : Limits} {floats : FloatText} {style : Style} {depth : Nat} {v : Value}
  {text : Text}

theorem mapM_ok {β ε : Type} {f : α → Except ε β} {xs : List α} {ys : List β}
    (h : xs.mapM f = .ok ys) : List.Forall₂ (fun x y => f x = .ok y) xs ys := by
  induction xs generalizing ys with
  | nil =>
    rw [List.mapM_nil] at h
    obtain rfl := Except.ok.inj h
    exact .nil
  | cons x xs ih =>
    rw [List.mapM_cons] at h
    cases hx : f x with
    | error e => simp [hx, bind, Except.bind] at h
    | ok y =>
      cases hxs : xs.mapM f with
      | error e => simp [hx, hxs, bind, Except.bind] at h
      | ok ys' =>
        simp only [hx, hxs, bind, Except.bind] at h
        obtain rfl := Except.ok.inj h
        exact .cons hx (ih hxs)

theorem exists_of_forall₂ {β : Type} {r : α → β → Prop} {xs : List α} {ys : List β} {y : β}
    (h : List.Forall₂ r xs ys) (hy : y ∈ ys) : ∃ x ∈ xs, r x y := by
  induction h with
  | nil => cases hy
  | @cons x y' xs ys hr hrest ih =>
    rcases List.mem_cons.mp hy with rfl | hy
    · exact ⟨x, List.mem_cons_self, hr⟩
    · obtain ⟨x', hx', hr'⟩ := ih hy
      exact ⟨x', List.mem_cons_of_mem _ hx', hr'⟩

/-- What is joined with the separator is what the grammar has inside brackets. -/
theorem bracketed_intercalate (style : Style) {means : Text → α → Prop} {texts : List Text} {xs : List α}
    (h : List.Forall₂ means texts xs) :
    Bracketed means (style.itemSeparator.intercalate texts) xs := by
  have hitems : ∀ {text x texts xs}, means text x → List.Forall₂ means texts xs →
      Items means (style.itemSeparator.intercalate (text :: texts)) (x :: xs) := by
    intro text x texts xs hx hrest
    induction hrest generalizing text x with
    | nil =>
      rw [List.intercalate_singleton, ← List.append_nil text]
      exact .last hx (by simp [Whitespace])
    | @cons text' x' texts xs hx' hrest ih =>
      have hmore := Items.more (w := []) hx (by simp [Whitespace]) style.item_whitespace (ih hx')
      rw [List.intercalate_cons_cons]
      simpa [Style.itemSeparator] using hmore
  cases h with
  | nil => exact .empty (by simp [Whitespace])
  | cons hx hrest => exact .items (w := []) (by simp [Whitespace]) (hitems hx hrest)

theorem asciiText_bracket {texts : List Text} {opening closing : Char}
    (ho : 0 < opening.toNat ∧ opening.toNat < 128) (hc : 0 < closing.toNat ∧ closing.toNat < 128)
    (h : ∀ t ∈ texts, AsciiText t) : AsciiText (bracket style opening closing texts) := by
  have hseparator : AsciiText style.itemSeparator :=
    asciiText_cons.mpr ⟨by decide, asciiText_whitespace style.item_whitespace⟩
  refine asciiText_cons.mpr ⟨ho, asciiText_append.mpr ⟨?_, by simpa [AsciiText] using hc⟩⟩
  induction texts with
  | nil => simp [AsciiText]
  | cons t texts ih =>
    have htail := ih fun u hu => h u (List.mem_cons_of_mem _ hu)
    cases texts with
    | nil =>
      rw [List.intercalate_singleton]
      exact h t List.mem_cons_self
    | cons u texts =>
      rw [List.intercalate_cons_cons]
      exact asciiText_append.mpr ⟨asciiText_append.mpr ⟨h t List.mem_cons_self, hseparator⟩, htail⟩

/-- What the encoder writes: a scalar the scanner reads back, or brackets around what it
writes for the parts. -/
theorem encodeOnce_cases (hv : Valid v) (h : encodeOnce lim floats style depth v = .ok text) :
    (Scalar text (canonical floats style v) ∧ AsciiText text ∧ ∀ array object,
      Reads (scanValue lim array object) text (canonical floats style v)) ∨
    (∃ n items texts, depth = n + 1 ∧ v = .array items ∧ text = bracket style '[' ']' texts ∧
      List.Forall₂ (fun x t => encodeOnce lim floats style n x = .ok t) items texts) ∨
    ∃ n members texts, depth = n + 1 ∧ v = .object members ∧
      text = bracket style '{' '}' texts ∧
      List.Forall₂ (fun m t => encodeMember style (encodeOnce lim floats style n) m = .ok t)
        (style.order members) texts := by
  cases hv with
  | null =>
    have hname : (textOf "null", Value.null) ∈ constants := by simp [constants]
    rw [encodeOnce] at h
    obtain rfl := Except.ok.inj h
    exact .inl ⟨.constant hname, asciiText_constant hname, fun array object r _ =>
      scanValue_constant lim array object hname r⟩
  | bool b =>
    have hname : (text, Value.bool b) ∈ constants := by
      cases b <;> rw [encodeOnce] at h <;> simp [← Except.ok.inj h, constants]
    exact .inl ⟨.constant hname, asciiText_constant hname, fun array object r _ =>
      scanValue_constant lim array object hname r⟩
  | int n =>
    rw [encodeOnce] at h
    obtain ⟨hnumber, hreads⟩ := number_intText h
    refine .inl ⟨.number hnumber, asciiText_number hnumber, fun array object r hr => ?_⟩
    rw [canonical, scanValue_number lim array object hnumber r]
    exact hreads r hr
  | @float t ht =>
    rw [encodeOnce] at h
    obtain rfl := Except.ok.inj h
    rw [canonical]
    rcases floats.literal t ht with hname | hnumber
    · exact .inl ⟨.constant hname, asciiText_constant hname, fun array object r _ =>
        scanValue_constant lim array object hname r⟩
    · refine .inl ⟨.number hnumber, asciiText_number hnumber, fun array object r hr => ?_⟩
      rw [scanValue_number lim array object hnumber r]
      exact reads_float hnumber r hr
  | @string s hs =>
    rw [encodeOnce] at h
    obtain rfl := Except.ok.inj h
    have hunits := units_escape hs.1
    have hjoin := joinSurrogates_unitsOf hs
    have hscalar := Scalar.string hunits
    rw [hjoin] at hscalar
    refine .inl ⟨hscalar, asciiText_quote s, fun array object r _ => ?_⟩
    have hscan := scanValue_string lim array object hunits r
    rwa [hjoin] at hscan
  | @array items hitems =>
    cases depth with
    | zero => cases h
    | succ n =>
      rw [encodeOnce] at h
      cases htexts : items.mapM (encodeOnce lim floats style n) with
      | error e => simp [htexts, bind, Except.bind] at h
      | ok texts =>
        simp only [htexts, bind, Except.bind] at h
        obtain rfl := Except.ok.inj h
        exact .inr (.inl ⟨n, items, texts, rfl, rfl, rfl, mapM_ok htexts⟩)
  | @object members hkeys hpaired hmembers =>
    cases depth with
    | zero => cases h
    | succ n =>
      rw [encodeOnce] at h
      cases htexts : (style.order members).mapM
          (encodeMember style (encodeOnce lim floats style n)) with
      | error e => simp [htexts, bind, Except.bind] at h
      | ok texts =>
        simp only [htexts, bind, Except.bind] at h
        obtain rfl := Except.ok.inj h
        exact .inr (.inr ⟨n, members, texts, rfl, rfl, rfl, mapM_ok htexts⟩)

theorem asciiText_encodeOnce (hv : Valid v) (h : encodeOnce lim floats style depth v = .ok text) :
    AsciiText text := by
  induction depth generalizing v text with
  | zero =>
    rcases encodeOnce_cases hv h with ⟨-, hascii, -⟩ | ⟨n, -, -, hn, -⟩ | ⟨n, -, -, hn, -⟩
    · exact hascii
    · cases hn
    · cases hn
  | succ depth ih =>
    rcases encodeOnce_cases hv h with ⟨-, hascii, -⟩ | ⟨n, items, texts, hn, rfl, rfl, hparts⟩ |
      ⟨n, members, texts, hn, rfl, rfl, hparts⟩
    · exact hascii
    · obtain rfl : depth = n := Nat.succ.inj hn
      refine asciiText_bracket (by decide) (by decide) fun t ht => ?_
      obtain ⟨w, hw, hwt⟩ := exists_of_forall₂ hparts ht
      exact ih (hv.of_array w hw) hwt
    · obtain rfl : depth = n := Nat.succ.inj hn
      refine asciiText_bracket (by decide) (by decide) fun t ht => ?_
      obtain ⟨m, hm, hmt⟩ := exists_of_forall₂ hparts ht
      cases hvalue : encodeOnce lim floats style depth m.2 with
      | error e => simp [encodeMember, hvalue, bind, Except.bind] at hmt
      | ok value =>
        simp only [encodeMember, hvalue, bind, Except.bind] at hmt
        obtain rfl := Except.ok.inj hmt
        have hkey : AsciiText style.keySeparator :=
          asciiText_cons.mpr ⟨by decide, asciiText_whitespace style.key_whitespace⟩
        exact asciiText_append.mpr ⟨asciiText_append.mpr ⟨asciiText_quote m.1, hkey⟩,
          ih (hv.of_object.2.2 m (mem_order.mp hm)) hvalue⟩

variable (lim floats style) in
/-- The texts the encoder writes, with the values they are read back as. -/
def Written (depth : Nat) (text : Text) (v : Value) : Prop :=
  ∃ w, Valid w ∧ encodeOnce lim floats style depth w = .ok text ∧ v = canonical floats style w

theorem starts_written : Starts (Written lim floats style depth) := by
  intro text v h
  obtain ⟨w, hw, htext, rfl⟩ := h
  rcases encodeOnce_cases hw htext with ⟨hscalar, -, -⟩ | ⟨n, items, texts, -, -, rfl, -⟩ |
    ⟨n, members, texts, -, -, rfl, -⟩
  · exact scalar_opens hscalar
  · exact ⟨_, _, rfl, by decide⟩
  · exact ⟨_, _, rfl, by decide⟩

theorem written_items {items : List Value} {texts : List Text} (hitems : ∀ v ∈ items, Valid v)
    (h : List.Forall₂ (fun x t => encodeOnce lim floats style depth x = .ok t) items texts) :
    List.Forall₂ (Written lim floats style depth) texts (items.map (canonical floats style)) := by
  induction h with
  | nil => exact .nil
  | cons htext hrest ih =>
    rw [List.map_cons]
    exact .cons ⟨_, hitems _ List.mem_cons_self, htext, rfl⟩
      (ih fun v hv => hitems v (List.mem_cons_of_mem _ hv))

theorem written_members {members : List (Text × Value)} {texts : List Text}
    (hpaired : ∀ m ∈ members, WellPaired m.1) (hmembers : ∀ m ∈ members, Valid m.2)
    (h : List.Forall₂ (fun m t => encodeMember style (encodeOnce lim floats style depth) m = .ok t)
      members texts) :
    List.Forall₂ (Member (Written lim floats style depth)) texts
      (members.map fun m => (m.1, canonical floats style m.2)) := by
  induction h with
  | nil => exact .nil
  | @cons m text members texts htext hrest ih =>
    rw [List.map_cons]
    refine .cons ?_ (ih (fun m hm => hpaired m (List.mem_cons_of_mem _ hm))
      fun m hm => hmembers m (List.mem_cons_of_mem _ hm))
    have hkey := hpaired m List.mem_cons_self
    cases hvalue : encodeOnce lim floats style depth m.2 with
    | error e => simp [encodeMember, hvalue, bind, Except.bind] at htext
    | ok value =>
      simp only [encodeMember, hvalue, bind, Except.bind] at htext
      obtain rfl := Except.ok.inj htext
      have hwritten : Written lim floats style depth value (canonical floats style m.2) :=
        ⟨m.2, hmembers m List.mem_cons_self, hvalue, rfl⟩
      have hmember := Member.mk (w := []) (units_escape hkey.1) (by simp [Whitespace])
        style.key_whitespace hwritten
      rw [joinSurrogates_unitsOf hkey] at hmember
      simpa [quote, Style.keySeparator] using hmember

/-- The scanner meets none of its limits on what the encoder wrote within them. -/
theorem scanOnce_written (depth : Nat) :
    CompleteFor (fun _ => False) (scanOnce lim depth) (Written lim floats style depth) := by
  induction depth with
  | zero =>
    intro text v r h hr
    obtain ⟨w, hw, htext, rfl⟩ := h
    rcases encodeOnce_cases hw htext with ⟨-, -, hreads⟩ | ⟨n, -, -, hn, -⟩ | ⟨n, -, -, hn, -⟩
    · exact .inl (hreads _ _ r hr)
    · cases hn
    · cases hn
  | succ depth ih =>
    intro text v r h hr
    obtain ⟨w, hw, htext, rfl⟩ := h
    rcases encodeOnce_cases hw htext with ⟨-, -, hreads⟩ | ⟨n, items, texts, hn, rfl, rfl, hparts⟩ |
      ⟨n, members, texts, hn, rfl, rfl, hparts⟩
    · exact .inl (hreads _ _ r hr)
    · obtain rfl : depth = n := Nat.succ.inj hn
      have hbody := bracketed_intercalate style (written_items hw.of_array hparts)
      have hscan := scanBracketed_complete ih starts_written (.inl rfl) hbody r
      rw [canonical, canonicalItems_eq, bracket, List.cons_append, List.append_assoc]
      exact hscan.map fun x => (Value.array x.1, x.2)
    · obtain rfl : depth = n := Nat.succ.inj hn
      obtain ⟨hkeys, hpaired, hmembers⟩ := hw.of_object
      have hbody := bracketed_intercalate style (written_members
        (fun m hm => hpaired m (mem_order.mp hm)) (fun m hm => hmembers m (mem_order.mp hm)) hparts)
      have hscan := scanBracketed_complete (scanMember_complete ih starts_written) member_starts
        (.inr rfl) hbody r
      have hdict : dictOf ((style.order members).map fun m => (m.1, canonical floats style m.2)) =
          (style.order members).map fun m => (m.1, canonical floats style m.2) := by
        apply dictOf_of_nodup
        rw [List.map_map]
        exact ((perm_order style members).map Prod.fst).nodup_iff.mpr hkeys
      rw [canonical, canonicalMembers_eq, order_map, ← hdict, bracket, List.cons_append,
        List.append_assoc]
      exact hscan.map fun x => (Value.object (dictOf x.1), x.2)

/-- The text that is written for a value is read back as the value. -/
theorem decodeText_dumps (hv : Valid v) (h : dumps lim floats style v = .ok text) :
    decodeText lim text = .ok (canonical floats style v) := by
  have hwritten : Written lim floats style lim.depth text (canonical floats style v) :=
    ⟨v, hv, h, rfl⟩
  have hend : Follow [] := fun c hc => by cases hc
  have hskip := starts_append starts_written hwritten (r := []) (w := []) (by simp [Whitespace])
  rw [List.nil_append, List.append_nil] at hskip
  rcases scanOnce_written lim.depth text _ [] hwritten hend with hok | ⟨e, hfalse, -⟩
  · rw [List.append_nil] at hok
    simp only [decodeText, hskip, hok, bind, Except.bind]
    exact if_pos rfl
  · exact hfalse.elim

end Values

section Canonical

variable {lim : Limits} {floats : FloatText} {style : Style} {v w : Value} {text : Text}

theorem mapM_map_congr {α β γ ε : Type} {f : α → β} {g : β → Except ε γ} {g' : α → Except ε γ}
    {xs : List α} (h : ∀ x ∈ xs, g (f x) = g' x) : (xs.map f).mapM g = xs.mapM g' := by
  induction xs with
  | nil => rfl
  | cons x xs ih =>
    rw [List.map_cons, List.mapM_cons, List.mapM_cons, h x List.mem_cons_self,
      ih fun y hy => h y (List.mem_cons_of_mem _ hy)]

/-- The canonical form of a value is written as the value is. -/
theorem encodeOnce_canonical (hv : Valid v) (depth : Nat) :
    encodeOnce lim floats style depth (canonical floats style v) =
      encodeOnce lim floats style depth v := by
  induction hv generalizing depth with
  | null => rfl
  | bool b => rfl
  | int n => rfl
  | string h => rfl
  | @float t ht => rw [canonical, encodeOnce, encodeOnce, floats.stable t ht]
  | @array items _ ih =>
    cases depth with
    | zero => rfl
    | succ depth =>
      have hitems : (items.map (canonical floats style)).mapM (encodeOnce lim floats style depth) =
          items.mapM (encodeOnce lim floats style depth) :=
        mapM_map_congr fun v hv => ih v hv depth
      rw [canonical, canonicalItems_eq, encodeOnce, encodeOnce, hitems]
  | @object members _ _ _ ih =>
    cases depth with
    | zero => rfl
    | succ depth =>
      have hmembers : ((style.order members).map fun m => (m.1, canonical floats style m.2)).mapM
            (encodeMember style (encodeOnce lim floats style depth)) =
          (style.order members).mapM (encodeMember style (encodeOnce lim floats style depth)) :=
        mapM_map_congr fun m hm => by
          rw [encodeMember, encodeMember, ih m (mem_order.mp hm) depth]
      rw [canonical, canonicalMembers_eq, encodeOnce, encodeOnce, order_order, order_map, hmembers]

/-- Two values have the same text exactly when they have the same canonical form. -/
theorem dumps_eq_iff (hv : Valid v) (hw : Valid w) (h : dumps lim floats style v = .ok text) :
    dumps lim floats style w = .ok text ↔ canonical floats style w = canonical floats style v := by
  constructor
  · intro hsame
    have hread := decodeText_dumps hw hsame
    rw [decodeText_dumps hv h] at hread
    exact (Except.ok.inj hread).symm
  · intro hsame
    rw [dumps, ← encodeOnce_canonical hw, hsame, encodeOnce_canonical hv]
    exact h

/-- With sorted keys the order in which two dicts were filled does not count. -/
theorem canonical_object_iff {members others : List (Text × Value)} (hsort : style.sortKeys = true)
    (hkeys : (others.map Prod.fst).Nodup) :
    canonical floats style (.object members) = canonical floats style (.object others) ↔
      (canonicalMembers floats style members).Perm (canonicalMembers floats style others) := by
  have hsorted : ∀ ms, (style.order ms).Pairwise fun m n => m.1 ≤ n.1 := by
    intro ms
    rw [Style.order, if_pos hsort]
    exact List.pairwise_insertionSort _ ms
  rw [canonical, canonical, Value.object.injEq]
  constructor
  · intro h
    have hperm := perm_order style (canonicalMembers floats style others)
    rw [← h] at hperm
    exact (perm_order style _).symm.trans hperm
  · intro h
    have hperm := (perm_order style _).trans (h.trans (perm_order style _).symm)
    refine hperm.eq_of_pairwise ?_ (hsorted _) (hsorted _)
    intro m n hm hn hle hge
    have hmem := h.mem_iff.mp (mem_order.mp hm)
    have hnodup : ((canonicalMembers floats style others).map Prod.fst).Nodup := by
      rw [canonicalMembers_eq, List.map_map]
      exact hkeys
    exact List.inj_on_of_nodup_map hnodup hmem (mem_order.mp hn) (le_antisymm hle hge)

end Canonical

end PartnerHub.Lib.Json
