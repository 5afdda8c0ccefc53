import Mathlib

/-!
# Guarded transition systems and their finite runs

A system is a step function `σ → α → Option σ`: an action that is not enabled
in a state has no successor. Runs are action lists executed from the left. The
rules below turn a fact about one step into a fact about every state of a run;
nothing here depends on what states and actions are.
-/
namespace PartnerHub.Lib.System

variable {σ α : Type*} {step : σ → α → Option σ}

/-- Execute the actions in order; `none` when one of them is not enabled. -/
def exec (step : σ → α → Option σ) (s : σ) : List α → Option σ
  | [] => some s
  | a :: as => (step s a).bind fun s' => exec step s' as

@[simp] theorem exec_nil (s : σ) : exec step s [] = some s := rfl

@[simp] theorem exec_cons (s : σ) (a : α) (as : List α) :
    exec step s (a :: as) = (step s a).bind fun s' => exec step s' as := rfl

theorem exec_append (s : σ) (as bs : List α) :
    exec step s (as ++ bs) = (exec step s as).bind fun t => exec step t bs := by
  induction as generalizing s with
  | nil => rfl
  | cons a as ih =>
    rw [List.cons_append, exec_cons, exec_cons, Option.bind_assoc]
    congr 1
    funext t
    exact ih t

/-- A state is reachable when some run from the initial state ends in it. -/
def Reachable (step : σ → α → Option σ) (init s : σ) : Prop :=
  ∃ as, exec step init as = some s

/-- Every step of the run meets `ok` in the state it is taken from. -/
def Along (step : σ → α → Option σ) (ok : σ → α → Prop) (s : σ) : List α → Prop
  | [] => True
  | a :: as => ok s a ∧ ∀ s', step s a = some s' → Along step ok s' as

instance Along.decidable {ok : σ → α → Prop} [∀ s a, Decidable (ok s a)] :
    ∀ (s : σ) (as : List α), Decidable (Along step ok s as)
  | _, [] => .isTrue trivial
  | s, a :: as =>
    match h : step s a with
    | none => decidable_of_iff (ok s a)
        ⟨fun hok => ⟨hok, fun t ht => by rw [h] at ht; cases ht⟩, fun hall => hall.1⟩
    | some t =>
      have : Decidable (Along step ok t as) := Along.decidable t as
      decidable_of_iff (ok s a ∧ Along step ok t as)
        ⟨fun hall => ⟨hall.1, fun u hu => Option.some.inj (h.symm.trans hu) ▸ hall.2⟩,
          fun hall => ⟨hall.1, hall.2 t h⟩⟩

theorem Along.cons {ok : σ → α → Prop} {s t : σ} {a : α} {as : List α} (hok : ok s a)
    (hs : step s a = some t) (h : Along step ok t as) : Along step ok s (a :: as) := by
  refine ⟨hok, ?_⟩
  intro u hu
  obtain rfl := Option.some.inj (hs.symm.trans hu)
  exact h

theorem along_of_forall {ok : σ → α → Prop} {s : σ} {as : List α}
    (h : ∀ a ∈ as, ∀ s, ok s a) : Along step ok s as := by
  induction as generalizing s with
  | nil => trivial
  | cons a as ih =>
    refine ⟨h a List.mem_cons_self s, ?_⟩
    intro t _
    exact ih fun b hb => h b (List.mem_cons_of_mem _ hb)

theorem Along.and {p q : σ → α → Prop} {s : σ} {as : List α} (hp : Along step p s as)
    (hq : Along step q s as) : Along step (fun s a => p s a ∧ q s a) s as := by
  induction as generalizing s with
  | nil => trivial
  | cons a as ih => exact ⟨⟨hp.1, hq.1⟩, fun t ht => ih (hp.2 t ht) (hq.2 t ht)⟩

/-- The invariant rule for runs whose steps all meet `ok`. -/
theorem exec_invariant {ok : σ → α → Prop} (I : σ → Prop)
    (hstep : ∀ s a s', I s → ok s a → step s a = some s' → I s')
    {s s' : σ} {as : List α} (h0 : I s) (hok : Along step ok s as)
    (hrun : exec step s as = some s') : I s' := by
  induction as generalizing s with
  | nil =>
    obtain rfl := Option.some.inj hrun
    exact h0
  | cons a as ih =>
    obtain ⟨t, hst, hrest⟩ := Option.bind_eq_some_iff.mp hrun
    exact ih (hstep s a t h0 hok.1 hst) (hok.2 t hst) hrest

/-- What an invariant says about each step holds along the whole run. -/
theorem along_of_invariant {ok Q : σ → α → Prop} (I : σ → Prop)
    (hstep : ∀ s a s', I s → ok s a → step s a = some s' → I s')
    (hq : ∀ s a, I s → ok s a → Q s a) {s : σ} {as : List α} (h0 : I s)
    (hok : Along step ok s as) : Along step Q s as := by
  induction as generalizing s with
  | nil => trivial
  | cons a as ih =>
    refine ⟨hq s a h0 hok.1, ?_⟩
    intro t ht
    exact ih (hstep s a t h0 hok.1 ht) (hok.2 t ht)

/-- Two step conditions that agree under an invariant which the first of them keeps
hold along the same runs. -/
theorem along_iff_along {ok Q : σ → α → Prop} (I : σ → Prop)
    (hkeep : ∀ s a s', I s → Q s a → step s a = some s' → I s')
    (hiff : ∀ s a, I s → (Q s a ↔ ok s a)) {s : σ} {as : List α} (h0 : I s) :
    Along step Q s as ↔ Along step ok s as := by
  induction as generalizing s with
  | nil => exact Iff.rfl
  | cons a as ih =>
    constructor
    · rintro ⟨hq, hrest⟩
      exact ⟨(hiff s a h0).mp hq, fun t ht => (ih (hkeep s a t h0 hq ht)).mp (hrest t ht)⟩
    · rintro ⟨hok, hrest⟩
      have hq := (hiff s a h0).mpr hok
      exact ⟨hq, fun t ht => (ih (hkeep s a t h0 hq ht)).mpr (hrest t ht)⟩

/-- The same rule for unrestricted reachability. -/
theorem Reachable.invariant (I : σ → Prop)
    (hstep : ∀ s a s', I s → step s a = some s' → I s')
    {init s : σ} (h : Reachable step init s) (h0 : I init) : I s := by
  obtain ⟨as, has⟩ := h
  have hok : Along step (fun _ _ => True) init as := along_of_forall fun _ _ _ => trivial
  exact exec_invariant I (fun s a s' hi _ hs => hstep s a s' hi hs) h0 hok has

theorem Along.append {ok : σ → α → Prop} {s t : σ} {as bs : List α} (h : Along step ok s as)
    (hrun : exec step s as = some t) (h' : Along step ok t bs) : Along step ok s (as ++ bs) := by
  induction as generalizing s with
  | nil =>
    obtain rfl := Option.some.inj hrun
    exact h'
  | cons a as ih =>
    obtain ⟨u, hu, hrest⟩ := Option.bind_eq_some_iff.mp hrun
    exact .cons h.1 hu (ih (h.2 u hu) hrest)

theorem along_append {ok : σ → α → Prop} {s : σ} {as bs : List α}
    (h : Along step ok s (as ++ bs)) :
    Along step ok s as ∧ ∀ s', exec step s as = some s' → Along step ok s' bs := by
  induction as generalizing s with
  | nil =>
    refine ⟨trivial, ?_⟩
    intro s' hs
    obtain rfl := Option.some.inj hs
    exact h
  | cons a as ih =>
    refine ⟨⟨h.1, fun t ht => (ih (h.2 t ht)).1⟩, ?_⟩
    intro s' hs
    obtain ⟨t, ht, hrest⟩ := Option.bind_eq_some_iff.mp hs
    exact (ih (h.2 t ht)).2 s' hrest

/-- `P` holds in every state the run visits, the first one included. -/
def Throughout (step : σ → α → Option σ) (P : σ → Prop) (s : σ) : List α → Prop
  | [] => P s
  | a :: as => P s ∧ ∀ s', step s a = some s' → Throughout step P s' as

theorem Throughout.head {P : σ → Prop} {s : σ} {as : List α}
    (h : Throughout step P s as) : P s := by
  cases as with
  | nil => exact h
  | cons a as => exact h.1

theorem Throughout.last {P : σ → Prop} {s s' : σ} {as : List α}
    (h : Throughout step P s as) (hrun : exec step s as = some s') : P s' := by
  induction as generalizing s with
  | nil =>
    obtain rfl := Option.some.inj hrun
    exact h
  | cons a as ih =>
    obtain ⟨t, hst, hrest⟩ := Option.bind_eq_some_iff.mp hrun
    exact ih (h.2 t hst) hrest

/-- The states a run visits are those its prefixes end in. -/
theorem throughout_iff_splits {P : σ → Prop} {s : σ} {as : List α} :
    Throughout step P s as ↔
      ∀ bs cs t, as = bs ++ cs → exec step s bs = some t → P t := by
  induction as generalizing s with
  | nil =>
    constructor
    · intro h bs cs t heq hrun
      obtain ⟨rfl, -⟩ := List.append_eq_nil_iff.mp heq.symm
      exact h.last hrun
    · intro h
      exact h [] [] s rfl rfl
  | cons a as ih =>
    constructor
    · intro h bs cs t heq hrun
      cases bs with
      | nil =>
        obtain rfl := Option.some.inj hrun
        exact h.head
      | cons b bs =>
        obtain ⟨rfl, rfl⟩ := List.cons.inj heq
        obtain ⟨u, hu, hrest⟩ := Option.bind_eq_some_iff.mp hrun
        exact ih.mp (h.2 u hu) bs cs t rfl hrest
    · intro h
      refine ⟨h [] _ s rfl rfl, ?_⟩
      intro u hu
      refine ih.mpr ?_
      intro bs cs t heq hrun
      refine h (a :: bs) cs t (by rw [heq, List.cons_append]) ?_
      rw [exec_cons, hu]
      exact hrun

theorem throughout_of_invariant {ok : σ → α → Prop} {P : σ → Prop} (I : σ → Prop)
    (hstep : ∀ s a s', I s → ok s a → step s a = some s' → I s') (hp : ∀ s, I s → P s)
    {s : σ} {as : List α} (h0 : I s) (hok : Along step ok s as) : Throughout step P s as := by
  induction as generalizing s with
  | nil => exact hp s h0
  | cons a as ih =>
    refine ⟨hp s h0, ?_⟩
    intro t ht
    exact ih (hstep s a t h0 hok.1 ht) (hok.2 t ht)

/-- A property that, given an invariant of the steps that meet `ok`, survives a step
exactly when the step meets `ok`, holds throughout a run exactly when all steps of the
run meet `ok`. -/
theorem throughout_iff_along {ok : σ → α → Prop} {I P : σ → Prop}
    (hkeep : ∀ s a s', I s → ok s a → step s a = some s' → I s')
    (hexact : ∀ s a s', I s → P s → step s a = some s' → (P s' ↔ ok s a))
    (hidle : ∀ s a, I s → P s → step s a = none → ok s a)
    {s : σ} {as : List α} (hi : I s) (hp : P s) :
    Throughout step P s as ↔ Along step ok s as := by
  induction as generalizing s with
  | nil => exact ⟨fun _ => trivial, fun _ => hp⟩
  | cons a as ih =>
    cases hs : step s a with
    | none =>
      refine ⟨fun _ => ⟨hidle s a hi hp hs, ?_⟩, fun _ => ⟨hp, ?_⟩⟩
      all_goals
        intro t ht
        rw [hs] at ht
        cases ht
    | some t =>
      constructor
      · rintro ⟨_, hrest⟩
        have ht := hrest t hs
        have hok := (hexact s a t hi hp hs).mp ht.head
        refine ⟨hok, ?_⟩
        intro u hu
        obtain rfl := Option.some.inj (hs.symm.trans hu)
        exact (ih (hkeep s a t hi hok hs) ht.head).mp ht
      · rintro ⟨hok, hrest⟩
        refine ⟨hp, ?_⟩
        intro u hu
        obtain rfl := Option.some.inj (hs.symm.trans hu)
        exact (ih (hkeep s a t hi hok hs) ((hexact s a t hi hp hs).mpr hok)).mpr (hrest t hs)

/-- Some run whose steps all meet `ok` ends in `s'`. -/
def Leads (step : σ → α → Option σ) (ok : σ → α → Prop) (s s' : σ) : Prop :=
  ∃ as, Along step ok s as ∧ exec step s as = some s'

section Leads

variable {ok : σ → α → Prop} {s t u : σ} {a : α}

theorem Leads.refl (s : σ) : Leads step ok s s := ⟨[], trivial, rfl⟩

theorem Leads.head (hok : ok s a) (hs : step s a = some t) (h : Leads step ok t u) :
    Leads step ok s u := by
  obtain ⟨as, hall, hrun⟩ := h
  refine ⟨a :: as, hall.cons hok hs, ?_⟩
  rw [exec_cons, hs]
  exact hrun

theorem Leads.single (hok : ok s a) (hs : step s a = some t) : Leads step ok s t :=
  (Leads.refl t).head hok hs

theorem Leads.trans (h : Leads step ok s t) (h' : Leads step ok t u) : Leads step ok s u := by
  obtain ⟨as, hall, hrun⟩ := h
  induction as generalizing s with
  | nil =>
    obtain rfl := Option.some.inj hrun
    exact h'
  | cons a as ih =>
    obtain ⟨v, hsv, hrest⟩ := Option.bind_eq_some_iff.mp hrun
    exact (ih (hall.2 v hsv) hrest).head hall.1 hsv

/-- What every step that meets `ok` keeps holds where the run leads. -/
theorem Leads.invariant (I : σ → Prop)
    (hstep : ∀ s a s', I s → ok s a → step s a = some s' → I s') (h : Leads step ok s t)
    (h0 : I s) : I t := by
  obtain ⟨as, hall, hrun⟩ := h
  exact exec_invariant I hstep h0 hall hrun

theorem Leads.reachable {init : σ} (h : Leads step ok s t) (hr : Reachable step init s) :
    Reachable step init t := by
  obtain ⟨as, -, hrun⟩ := h
  obtain ⟨bs, hbs⟩ := hr
  refine ⟨bs ++ as, ?_⟩
  rw [exec_append, hbs]
  exact hrun

end Leads

end PartnerHub.Lib.System
