import PartnerHub.Outbound.ReplayDesk

/-!
# Deciding a replay approval

`approve_replay_approval` checks that the approval it read is PENDING, commits the replay
and only then, in a second transaction, the decision; `reject_replay_approval` decides on
what it read as well. An approval is decided once, with one replay for an approved one, in
every state of a run exactly when no approve call gets as far as its replay and every
rejection finds the row still PENDING: in the state between the two commits of an approve
call the replay is there and the decision is not.
-/
namespace PartnerHub.Outbound

open PartnerHub.Domain PartnerHub.Lib PartnerHub.Lib.Slots PartnerHub.Lib.System

/-- At most one call on the approval has succeeded, and the delivery was replayed on its
behalf once if it is APPROVED and not at all otherwise. -/
def DecidedOnce (s : Desk) : Prop :=
  ∀ r ∈ s.approvals, s.history.decided.count r.id ≤ 1 ∧
    s.history.onBehalf.count r.id = if r.status = .approved then 1 else 0

/-- A step moves an approval out of PENDING or leaves its status. -/
def DecisionStands (settings : Settings) (s : Desk) (a : DeskAction) : Prop :=
  ∀ s', s.step settings a = some s' → ∀ r ∈ s.approvals, ∀ r' ∈ s'.approvals, r'.id = r.id →
    r'.status = r.status ∨ (r.status = .pending ∧ r'.status ≠ .pending)

/-- The condition on a step: an approve call that read PENDING does not find the delivery
it read FAILED, so that it stops before its replay, and a reject call that read PENDING
commits while the row is still PENDING. -/
def DecidesPending (s : Desk) : DeskAction → Prop
  | .proceed c _ _ =>
    (∀ approval row, s.calls c = some (.approve approval row) → approval.status = .pending →
      row.1.status ≠ .failed) ∧
    ∀ approval publicId, s.calls c = some (.reject approval publicId) →
      approval.status = .pending → ∀ r ∈ s.approvals, r.id = approval.id → r.status = .pending
  | _ => True

/-- The approval a call is about. -/
def Call.approval : Call → Option ReplayApproval
  | .approve approval _ => some approval
  | .approved approval _ => some approval
  | .reject approval _ => some approval
  | _ => none

/-- A call in its first phase on a stored approval. -/
def Call.Starts (s : Desk) (call : Call) : Prop :=
  (∀ approval publicId, call ≠ .approved approval publicId) ∧
    ∀ approval, call.approval = some approval → ∃ r ∈ s.approvals, r.id = approval.id

/-- Everything a step does to approvals and to the calls about them. -/
inductive ApprovalStep (s : Desk) (a : DeskAction) (s' : Desk) : Prop
  | kept (hok : DecidesPending s a) (hr : s'.approvals = s.approvals)
      (hd : s'.history.decided = s.history.decided)
      (hb : s'.history.onBehalf = s.history.onBehalf)
      (hc : ∀ c call, s'.calls c = some call → s.calls c = some call ∨ call.Starts s)
  | created {r : ReplayApproval} (hok : DecidesPending s a) (hnew : ∀ x ∈ s.approvals, x.id ≠ r.id)
      (hp : r.status = .pending) (hr : s'.approvals = s.approvals ++ [r])
      (hd : s'.history.decided = s.history.decided)
      (hb : s'.history.onBehalf = s.history.onBehalf) (hc : s'.calls = s.calls)
  | replayed {c : Nat} {approval : ReplayApproval} {row : Delivery × Partner}
      (hnot : ¬ DecidesPending s a) (hcall : s.calls c = some (.approve approval row))
      (hr : s'.approvals = s.approvals)
      (hb : s'.history.onBehalf = s.history.onBehalf ++ [approval.id])
  | approved {c : Nat} {approval : ReplayApproval} {publicId : Uuid}
      (hcall : s.calls c = some (.approved approval publicId))
  | rejected {c : Nat} {args : CallArgs} {gate : Gate} {approval : ReplayApproval}
      {publicId : Uuid} (ha : a = .proceed c args gate)
      (hcall : s.calls c = some (.reject approval publicId)) (hp : approval.status = .pending)
      (hr : s'.approvals = decideApproval .rejected args.actorId approval.id s.approvals)
      (hd : s'.history.decided = s.history.decided ++ [approval.id])
      (hb : s'.history.onBehalf = s.history.onBehalf)
      (hc : ∀ c call, s'.calls c = some call → s.calls c = some call)

/-- A call on a FAILED row it read as PENDING goes on to its replay. -/
theorem approve_ok_iff {approval : ReplayApproval} {row : Delivery × Partner} {args : CallArgs} :
    (∃ sess, approveReplayApproval approval row args = .ok sess) ↔
      approval.status = .pending ∧ row.1.status = .failed := by
  constructor
  · rintro ⟨sess, h⟩
    obtain ⟨hp, hr⟩ := approve_cases h
    exact ⟨hp, hr.failed⟩
  · rintro ⟨hp, hf⟩
    obtain ⟨loaded, partner⟩ := row
    simp only at hf
    simp [approveReplayApproval, hp, replayDelivery, hf, transition, canTransition,
      validTransitions]

theorem setCall_calls {s : Desk} {c c' : Nat} {call : Call}
    (h : (s.setCall c none).calls c' = some call) : s.calls c' = some call :=
  (update_none_some h).1

theorem approvalStep_proceed {s : Desk} {c : Nat} {call : Call} (hcall : s.calls c = some call)
    (args : CallArgs) (gate : Gate) (failures : List Nat) :
    ApprovalStep s (.proceed c args gate) ((s.proceed c args gate call).note failures) := by
  have hother : (∀ approval row, call ≠ .approve approval row) →
      (∀ approval publicId, call ≠ .reject approval publicId) →
      DecidesPending s (.proceed c args gate) := by
    intro ha hr
    refine ⟨fun approval row h => ?_, fun approval publicId h => ?_⟩
    · exact absurd (Option.some.inj (hcall.symm.trans h)) (ha approval row)
    · exact absurd (Option.some.inj (hcall.symm.trans h)) (hr approval publicId)
  cases call with
  | replay caller row =>
    have hok := hother (by simp) (by simp)
    simp only [Desk.proceed]
    split <;> exact .kept hok rfl rfl rfl fun c' call' h => .inl (setCall_calls h)
  | approve approval row =>
    simp only [Desk.proceed]
    split
    · rename_i e he
      refine .kept ⟨?_, ?_⟩ rfl rfl rfl fun c' call' h => .inl (setCall_calls h)
      · intro approval' row' h hp hf
        obtain ⟨rfl, rfl⟩ := Call.approve.inj (Option.some.inj (hcall.symm.trans h))
        obtain ⟨sess, hok⟩ := approve_ok_iff.mpr ⟨hp, hf⟩
        rw [he] at hok
        cases hok
      · intro approval' publicId h
        cases hcall.symm.trans h
    · rename_i sess hs
      obtain ⟨hp, hf⟩ := approve_ok_iff.mp ⟨sess, hs⟩
      exact .replayed (fun hok => hok.1 approval row hcall hp hf) hcall rfl rfl
  | approved approval publicId => exact .approved hcall
  | reject approval publicId =>
    simp only [Desk.proceed]
    split
    · rename_i hp
      refine .kept ⟨?_, ?_⟩ rfl rfl rfl fun c' call' h => .inl (setCall_calls h)
      · intro approval' row h
        cases hcall.symm.trans h
      · intro approval' publicId' h hp'
        obtain ⟨rfl, rfl⟩ := Call.reject.inj (Option.some.inj (hcall.symm.trans h))
        exact absurd hp' hp
    · rename_i hp
      exact .rejected rfl hcall (not_not.mp hp) rfl rfl rfl fun c' call' h => setCall_calls h
  | acknowledge deadLetter publicId =>
    have hok := hother (by simp) (by simp)
    simp only [Desk.proceed]
    split <;> exact .kept hok rfl rfl rfl fun c' call' h => .inl (setCall_calls h)
  | purge deadLetter =>
    exact .kept (hother (by simp) (by simp)) rfl rfl rfl fun c' call' h => .inl (setCall_calls h)

/-- A call enters in its first phase, on an approval it found. -/
theorem enter_calls {s : Desk} {c : Nat} {call : Call} (hs : call.Starts s) {c' : Nat}
    {call' : Call} (h : Function.update s.calls c (some call) c' = some call') :
    s.calls c' = some call' ∨ call'.Starts s := by
  rcases update_some_cases h with ⟨-, he⟩ | ⟨-, hold⟩
  · obtain rfl := Option.some.inj he
    exact .inr hs
  · exact .inl hold

theorem approvalStep_of_step {settings : Settings} {s s' : Desk} {a : DeskAction}
    (h : s.step settings a = some s') : ApprovalStep s a s' := by
  obtain ⟨t, ht, rfl⟩ := Option.map_eq_some_iff.mp h
  cases a with
  | putPartner | putEndpoint | enqueue | abort =>
    cases ht
    exact .kept trivial rfl rfl rfl fun c call hc => .inl hc
  | createApproval id i actorId reason =>
    simp only [Desk.act] at ht
    split at ht
    · cases ht
    rename_i hfresh
    split at ht
    · cases ht
      exact .kept trivial rfl rfl rfl fun c call hc => .inl hc
    · rename_i t' hcreate
      cases ht
      unfold Desk.createReplayApproval at hcreate
      split at hcreate
      · cases hcreate
      split at hcreate
      · cases hcreate
      cases hcreate
      exact .created trivial (fun x hx he => hfresh ⟨x, hx, he⟩) rfl rfl rfl rfl rfl
  | read w i =>
    simp only [Desk.act] at ht
    split at ht
    · cases ht
      exact .kept trivial rfl rfl rfl fun c call hc => .inl hc
    · cases ht
  | commit w input =>
    simp only [Desk.act] at ht
    split at ht
    · cases ht
    · cases ht
      exact .kept trivial rfl rfl rfl fun c call hc => .inl hc
  | readReplay c caller i =>
    simp only [Desk.act] at ht
    split at ht
    · split at ht
      · cases ht
        exact .kept trivial rfl rfl rfl fun c' call hc =>
          enter_calls ⟨by simp, by simp [Call.approval]⟩ hc
      · cases ht
    · cases ht
  | readApprove c id | readReject c id =>
    simp only [Desk.act] at ht
    split at ht
    · rename_i approval row hn hrow
      cases ht
      obtain ⟨hmem, -⟩ := fetchApproval_some hrow
      refine .kept trivial rfl rfl rfl fun c' call hc => enter_calls ⟨by simp, ?_⟩ hc
      intro r hr
      obtain rfl := Option.some.inj hr
      exact ⟨_, hmem, rfl⟩
    · cases ht
  | readAcknowledge c id | readPurge c id =>
    simp only [Desk.act] at ht
    split at ht
    · cases ht
      exact .kept trivial rfl rfl rfl fun c' call hc =>
        enter_calls ⟨by simp, by simp [Call.approval]⟩ hc
    · cases ht
  | proceed c args gate =>
    simp only [Desk.act] at ht
    obtain ⟨call, hcall, rfl⟩ := Option.map_eq_some_iff.mp ht
    exact approvalStep_proceed hcall args gate _
  | crash c =>
    cases ht
    exact .kept trivial rfl rfl rfl fun c' call hc => .inl (setCall_calls hc)

/-- The invariant of runs that meet the condition: nothing was replayed on behalf of an
approval, no call is between its two commits, and a row is PENDING and undecided or
REJECTED by one call. -/
structure NoneApproved (s : Desk) : Prop where
  unique : (s.approvals.map (·.id)).Nodup
  row : ∀ r ∈ s.approvals, (r.status = .pending ∧ s.history.decided.count r.id = 0) ∨
    (r.status = .rejected ∧ s.history.decided.count r.id = 1)
  onBehalf : s.history.onBehalf = []
  known : ∀ i ∈ s.history.decided, ∃ r ∈ s.approvals, r.id = i
  calls : ∀ c call, s.calls c = some call → call.Starts s

theorem noneApproved_init : NoneApproved Desk.init := by
  constructor <;> simp [Desk.init]

theorem NoneApproved.decidedOnce {s : Desk} (h : NoneApproved s) : DecidedOnce s := by
  intro r hr
  rcases h.row r hr with ⟨hst, hc⟩ | ⟨hst, hc⟩ <;> simp [hst, hc, h.onBehalf]

theorem Call.Starts.mono {s s' : Desk} {call : Call} (h : call.Starts s)
    (hr : ∀ r ∈ s.approvals, ∃ r' ∈ s'.approvals, r'.id = r.id) : call.Starts s' := by
  refine ⟨h.1, ?_⟩
  intro approval ha
  obtain ⟨r, hmem, hid⟩ := h.2 approval ha
  obtain ⟨r', hmem', hid'⟩ := hr r hmem
  exact ⟨r', hmem', hid'.trans hid⟩

theorem decideApproval_ids (status : ReplayApprovalStatus) (actorId : String) (id : Uuid)
    (approvals : List ReplayApproval) :
    (decideApproval status actorId id approvals).map (·.id) = approvals.map (·.id) :=
  Table.map_modify _ _ _ _ _ fun _ => rfl

theorem noneApproved_created {s s' : Desk} {r : ReplayApproval} (h : NoneApproved s)
    (hnew : ∀ x ∈ s.approvals, x.id ≠ r.id) (hp : r.status = .pending)
    (hr : s'.approvals = s.approvals ++ [r]) (hd : s'.history.decided = s.history.decided)
    (hb : s'.history.onBehalf = s.history.onBehalf) (hc : s'.calls = s.calls) :
    NoneApproved s' := by
  have hold : ∀ x ∈ s.approvals, x ∈ s'.approvals := by
    intro x hx
    rw [hr]
    exact List.mem_append_left _ hx
  refine ⟨?_, ?_, hb.trans h.onBehalf, ?_, ?_⟩
  · rw [hr, List.map_append]
    refine List.nodup_append.mpr ⟨h.unique, List.nodup_singleton _, ?_⟩
    intro a ha b hb hab
    obtain ⟨x, hx, rfl⟩ := List.mem_map.mp ha
    rw [List.map_singleton, List.mem_singleton] at hb
    exact hnew x hx (hab.trans hb)
  · intro x hx
    rw [hr] at hx
    rw [hd]
    rcases List.mem_append.mp hx with hin | hlast
    · exact h.row x hin
    · obtain rfl := List.mem_singleton.mp hlast
      refine .inl ⟨hp, List.count_eq_zero.mpr ?_⟩
      intro hin
      obtain ⟨y, hy, he⟩ := h.known _ hin
      exact hnew y hy he
  · intro i hi
    rw [hd] at hi
    obtain ⟨x, hx, he⟩ := h.known i hi
    exact ⟨x, hold x hx, he⟩
  · intro c call hcall
    rw [hc] at hcall
    exact (h.calls c call hcall).mono fun x hx => ⟨x, hold x hx, rfl⟩

/-- A rejection of a row that is still PENDING. -/
theorem noneApproved_rejected {s s' : Desk} {actorId : String} {approval : ReplayApproval}
    (h : NoneApproved s) (hmem : ∃ r ∈ s.approvals, r.id = approval.id)
    (hp : ∀ r ∈ s.approvals, r.id = approval.id → r.status = .pending)
    (hr : s'.approvals = decideApproval .rejected actorId approval.id s.approvals)
    (hd : s'.history.decided = s.history.decided ++ [approval.id])
    (hb : s'.history.onBehalf = s.history.onBehalf)
    (hc : ∀ c call, s'.calls c = some call → s.calls c = some call) : NoneApproved s' := by
  have hids : s'.approvals.map (·.id) = s.approvals.map (·.id) := by
    rw [hr, decideApproval_ids]
  have hkept : ∀ r ∈ s.approvals, ∃ r' ∈ s'.approvals, r'.id = r.id := by
    intro r hin
    rw [← List.mem_map (f := fun r : ReplayApproval => r.id), hids]
    exact List.mem_map_of_mem hin
  refine ⟨hids ▸ h.unique, ?_, hb.trans h.onBehalf, ?_, ?_⟩
  · intro r' hr'
    rw [hr] at hr'
    obtain ⟨r, hin, rfl⟩ := Table.mem_modify.mp hr'
    rw [hd]
    split
    · rename_i hid
      have hzero : s.history.decided.count r.id = 0 := by
        rcases h.row r hin with ⟨-, hz⟩ | ⟨hst, -⟩
        · exact hz
        · rw [hp r hin hid] at hst
          cases hst
      refine .inr ⟨rfl, ?_⟩
      change (s.history.decided ++ [approval.id]).count r.id = 1
      rw [List.count_append, hzero, hid, List.count_singleton_self]
    · rename_i hid
      rw [List.count_append, List.count_singleton, beq_false_of_ne (Ne.symm hid)]
      exact h.row r hin
  · intro i hi
    rw [hd] at hi
    rcases List.mem_append.mp hi with hin | hlast
    · obtain ⟨r, hr₀, he⟩ := h.known i hin
      obtain ⟨r', hr', he'⟩ := hkept r hr₀
      exact ⟨r', hr', he'.trans he⟩
    · obtain ⟨r, hr₀, he⟩ := hmem
      obtain ⟨r', hr', he'⟩ := hkept r hr₀
      exact ⟨r', hr', (he'.trans he).trans (List.mem_singleton.mp hlast).symm⟩
  · exact fun c call hcall => (h.calls c call (hc c call hcall)).mono hkept

theorem noneApproved_step {settings : Settings} {s s' : Desk} {a : DeskAction}
    (h : NoneApproved s) (hok : DecidesPending s a) (hs : s.step settings a = some s') :
    NoneApproved s' := by
  cases approvalStep_of_step hs with
  | kept _ hr hd hb hc =>
    refine ⟨hr ▸ h.unique, ?_, hb.trans h.onBehalf, ?_, ?_⟩
    · rw [hr, hd]
      exact h.row
    · rw [hr, hd]
      exact h.known
    · intro c call hcall
      have hsame : ∀ r ∈ s.approvals, ∃ r' ∈ s'.approvals, r'.id = r.id :=
        fun r hin => ⟨r, hr ▸ hin, rfl⟩
      rcases hc c call hcall with hold | hnew
      · exact (h.calls c call hold).mono hsame
      · exact hnew.mono hsame
  | created _ hnew hp hr hd hb hc => exact noneApproved_created h hnew hp hr hd hb hc
  | replayed hnot => exact absurd hok hnot
  | approved hcall => exact absurd rfl ((h.calls _ _ hcall).1 _ _)
  | rejected ha hcall hp hr hd hb hc =>
    subst ha
    exact noneApproved_rejected h ((h.calls _ _ hcall).2 _ rfl) (hok.2 _ _ hcall hp) hr hd hb hc

/-- A step that does not meet the condition leaves an approval with a replay and without
the approval, or decided twice. -/
theorem decided_once_step {settings : Settings} {s s' : Desk} {a : DeskAction}
    (h : NoneApproved s) (hs : s.step settings a = some s') :
    DecidedOnce s' ↔ DecidesPending s a := by
  refine ⟨?_, fun hok => (noneApproved_step h hok hs).decidedOnce⟩
  intro hp
  cases approvalStep_of_step hs with
  | kept hok | created hok => exact hok
  | replayed hnot hcall hr hb =>
    obtain ⟨r, hin, hid⟩ := (h.calls _ _ hcall).2 _ rfl
    have hcount := (hp r (hr ▸ hin)).2
    rw [hb, h.onBehalf, hid] at hcount
    rcases h.row r hin with ⟨hst, -⟩ | ⟨hst, -⟩ <;> simp [hst] at hcount
  | approved hcall => exact absurd rfl ((h.calls _ _ hcall).1 _ _)
  | @rejected c args gate approval publicId ha hcall hpend hr hd hb hc =>
    subst ha
    refine ⟨?_, ?_⟩
    · intro approval' row hcall'
      cases hcall.symm.trans hcall'
    · intro approval' publicId' hcall' _ r hin hid
      obtain ⟨rfl, rfl⟩ := Call.reject.inj (Option.some.inj (hcall.symm.trans hcall'))
      rcases h.row r hin with ⟨hst, -⟩ | ⟨-, hone⟩
      · exact hst
      · have hmem : { r with status := .rejected, approvedBy := some args.actorId } ∈ s'.approvals := by
          rw [hr]
          exact Table.mem_modify_of_eq hin hid
        have htwice : s'.history.decided.count r.id ≤ 1 := (hp _ hmem).1
        rw [hd, List.count_append, hone, hid, List.count_singleton_self] at htwice
        omega

theorem decision_stands_step {settings : Settings} {s : Desk} {a : DeskAction}
    (h : NoneApproved s) (hok : DecidesPending s a) : DecisionStands settings s a := by
  intro s' hs r hr r' hr' hid
  have hsame : s'.approvals = s.approvals → r'.status = r.status := by
    intro he
    rw [Table.eq_of_unique h.unique (he ▸ hr') hr hid]
  cases approvalStep_of_step hs with
  | kept _ happ => exact .inl (hsame happ)
  | created _ hnew hp happ =>
    rw [happ] at hr'
    rcases List.mem_append.mp hr' with hin | hlast
    · exact .inl (by rw [Table.eq_of_unique h.unique hin hr hid])
    · rw [List.mem_singleton.mp hlast] at hid
      exact absurd hid.symm (hnew r hr)
  | replayed _ _ happ => exact .inl (hsame happ)
  | approved hcall => exact absurd rfl ((h.calls _ _ hcall).1 _ _)
  | rejected ha hcall hpend happ =>
    subst ha
    rw [happ] at hr'
    obtain ⟨r₀, hr₀, rfl⟩ := Table.mem_modify.mp hr'
    split at hid <;> rename_i he
    · obtain rfl := Table.eq_of_unique h.unique hr₀ hr hid
      rw [if_pos he]
      exact .inr ⟨hok.2 _ _ hcall hpend r₀ hr he, by simp⟩
    · rw [if_neg he]
      obtain rfl := Table.eq_of_unique h.unique hr₀ hr hid
      exact .inl rfl

/-- Over every interleaving of approve, reject, replay and processing transactions, with
crashes between any two commits, every approval is decided once and authorises exactly its
replays in every state exactly when no approve call reaches its replay and every rejection
finds the row still PENDING. -/
theorem approval_decided_once_iff (settings : Settings) (as : List DeskAction) :
    (Throughout (Desk.step settings) DecidedOnce Desk.init as ∧
      Along (Desk.step settings) (DecisionStands settings) Desk.init as) ↔
    Along (Desk.step settings) DecidesPending Desk.init as := by
  have hiff : Throughout (Desk.step settings) DecidedOnce Desk.init as ↔
      Along (Desk.step settings) DecidesPending Desk.init as := by
    apply throughout_iff_along (I := NoneApproved)
    · exact fun s a s' h hok hs => noneApproved_step h hok hs
    · exact fun s a s' h _ hs => decided_once_step h hs
    · intro s a _ _ hs
      cases a with
      | proceed c args gate =>
        have hnone : s.calls c = none := by
          cases hc : s.calls c with
          | none => rfl
          | some call => simp [Desk.step, Desk.act, hc] at hs
        simp [DecidesPending, hnone]
      | _ => trivial
    · exact noneApproved_init
    · exact noneApproved_init.decidedOnce
  constructor
  · exact fun h => hiff.mp h.1
  · intro hok
    refine ⟨hiff.mpr hok, ?_⟩
    exact along_of_invariant NoneApproved (fun _ _ _ h hok hs => noneApproved_step h hok hs)
      (fun _ _ h hok => decision_stands_step h hok) noneApproved_init hok

/-- The worker that approves dies between its two commits. -/
def approveCrashRun : List DeskAction :=
  failedDesk ++ [.createApproval 30 10 "operator" "please", .readApprove 0 30,
    .proceed 0 opsArgs freeGate, .crash 0]

theorem replayed_but_pending :
    ¬ (Throughout (Desk.step {}) DecidedOnce Desk.init approveCrashRun ∧
      Along (Desk.step {}) (DecisionStands {}) Desk.init approveCrashRun) := by
  rintro ⟨h, -⟩
  obtain ⟨s, hs, r, hr, hst, hone⟩ : ∃ s, exec (Desk.step {}) Desk.init approveCrashRun = some s ∧
      ∃ r ∈ s.approvals, r.status = .pending ∧ s.history.onBehalf.count r.id = 1 :=
    ⟨_, rfl, by decide +kernel⟩
  have hcount := (h.last hs r hr).2
  rw [hone, hst] at hcount
  simp at hcount

end PartnerHub.Outbound
