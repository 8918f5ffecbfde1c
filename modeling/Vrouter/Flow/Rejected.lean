import Vrouter.Flow.Steps

/-! # Rejected requests

`vr_flow_set` checks a request first, and releases the lock when it finds the request invalid; a
request refused there has no effect.  It then counts the request, takes memory, writes the entry
and schedules the transition, and an error that comes up on the way leaves what was done: a deletion
whose transition cannot be scheduled has already dropped the flow.  So a rejected request leaves the
flow table as it was exactly if it is one of the checks that refused it. -/

namespace Vrouter.Flow

open Vrouter.Htable Vrouter.Lib

variable {env : Env} {s s' : FlowSys} {i : ℕ} {o : Oracle} {req : FlowReq} {e : Errno}

/-- `vr_flow_set_req_is_invalid` refuses the request. -/
def Invalid (env : Env) (s : FlowSys) (req : FlowReq) (fe : Option ℕ) : Prop :=
  ∃ err, flowSetReqIsInvalid env s req fe = some (.error err)

/-- A flow cannot be added: its family is unknown, it exists, or there is no free entry. -/
def AddRefused (env : Env) (s : FlowSys) (req : FlowReq) : Prop :=
  req.frKey.flowFamily = .other ∨ (∃ i, findFlow env s req.frKey = some (some i)) ∨
    flowTableGetFreeEntry env s req.frKey = none

/-- A check refuses the request.  A forced eviction is only ever refused by one. -/
def Refused (env : Env) (s : FlowSys) (req : FlowReq) : Prop :=
  if req.forceEvict then True
  else
    match flowGetEntry env s req.frIndex with
    | some i => (s.entry i).feFlags.unlocked = false ∨
        Invalid env (flowStartModify s i) req (some i)
    | none => Invalid env s req none ∨ req.frFlags.active = false ∨ AddRefused env s req

/-- The flow entries, the bitmap of the link local ports and the counters are the same. -/
structure SameFlows (s s' : FlowSys) : Prop where
  entry : ∀ i, s'.entry i = s.entry i
  ports : s'.vrLinkLocalPorts = s.vrLinkLocalPorts
  infop : s'.infop = s.infop

/-- A step changed nothing if `p`, and what the agent sees of the flow table if not. -/
def NothingIf (p : Prop) (s s' : FlowSys) : Prop := p ∧ s' = s ∨ ¬ p ∧ ¬ SameFlows s s'

/-! ### What stays of an error -/

theorem incr64_ne (n : ℕ) : incr64 n ≠ n := by
  unfold incr64
  omega

theorem countReq_ne : (countReq s req i).infop ≠ s.infop := by
  intro heq
  unfold countReq at heq
  dsimp only at heq
  split_ifs at heq
  · exact incr64_ne _ (congrArg FlowTableInfo.vftiActionCount heq)
  · exact incr64_ne _ (congrArg FlowTableInfo.vftiChanged heq)

theorem countReq_entry : (countReq s req i).entry i = s.entry i := by
  unfold countReq
  dsimp only
  split_ifs <;> rfl

theorem transition_infop {index : ℕ} {flags : FlowFlags} {r : Option Errno × FlowSys}
    (hr : (flowScheduleTransition env (o.sched 0) s i index flags none).map
      (scheduleRet (o.sched 0)) = some r) : r.2.infop = s.infop := by
  obtain ⟨⟨ok, s₁⟩, hs, rfl⟩ := Option.map_eq_some_iff.1 hr
  obtain ⟨l, rfl, -⟩ := flowScheduleTransition_scheduled hs
  rfl

/-- Putting a flow on hold touches neither of the two counters. -/
theorem flowSetEntry_counters (rindex : ℤ) (newFlow : Bool) :
    (flowSetEntry env o s req i rindex newFlow).infop.vftiChanged = s.infop.vftiChanged ∧
      (flowSetEntry env o s req i rindex newFlow).infop.vftiAdded = s.infop.vftiAdded := by
  rw [flowSetEntry_infop]
  unfold countHold
  dsimp only
  split_ifs <;> exact ⟨rfl, rfl⟩

/-- Setting the flow does not undo the counting of the request. -/
theorem flowSetEntry_counted {rindex : ℤ} {newFlow : Bool}
    (ha : (s'.entry i).feAction = (s.entry i).feAction) (hc : s'.infop = (countReq s req i).infop) :
    (flowSetEntry env o s' req i rindex newFlow).infop ≠ s.infop := by
  intro heq
  by_cases hhold : (s.entry i).feAction = .hold
  · -- a flow on hold is not put on hold again
    rw [flowSetEntry_infop_of_not fun h => h.2.1 (ha.trans hhold), hc] at heq
    exact countReq_ne heq
  · have hcount : s'.infop.vftiChanged = incr64 s.infop.vftiChanged := by
      rw [hc, countReq]
      dsimp only
      rw [if_neg fun h => hhold h.1]
    have hset := (@flowSetEntry_counters env s' i o req rindex newFlow).1
    rw [heq, hcount] at hset
    exact incr64_ne _ hset.symm

/-- A deletion that was found valid is counted. -/
theorem flowDelete_counted {r : Option Errno × FlowSys} (hr : flowDelete env o
      { s' with infop := { s'.infop with vftiDeleted := incr64 s'.infop.vftiDeleted } } req i = some r)
    (hc : s' = countReq s req i) : r.2.infop ≠ s.infop := by
  intro heq
  have hmark := (transition_infop hr).trans flowDeleteMark_infop
  have hdel : s'.infop.vftiDeleted = s.infop.vftiDeleted := by
    rw [hc, countReq]
    dsimp only
    split_ifs <;> rfl
  rw [heq] at hmark
  have hcount := congrArg FlowTableInfo.vftiDeleted hmark
  dsimp only at hcount
  rw [hdel] at hcount
  exact incr64_ne _ hcount.symm

/-- A request for a flow that exists is counted as soon as it is found valid. -/
theorem flowSetFound_error (hu : (s.entry i).feFlags.unlocked = true)
    (hr : flowSetFound env o (flowStartModify s i) req i = some (some e, s')) :
    NothingIf (Invalid env (flowStartModify s i) req (some i)) s s' := by
  have hstop : flowStopModify (flowStartModify s i) i = s :=
    flowStopModify_startModify (FlowFlags.unlocked_iff.1 hu).1
  have hinfop : (flowStartModify s i).infop = s.infop := rfl
  generalize flowStartModify s i = s₁ at hr hstop hinfop ⊢
  unfold flowSetFound at hr
  split at hr
  · cases hr
  · next herr =>
      cases hr
      exact Or.inl ⟨⟨_, herr⟩, hstop⟩
  · next rindex hok =>
      refine Or.inr ⟨?_, fun h => absurd (h.infop.trans hinfop.symm) ?_⟩
      · rintro ⟨err, herr⟩
        rw [hok] at herr
        cases herr
      dsimp only at hr
      by_cases ha : (!req.frFlags.active) = true
      · rw [if_pos ha] at hr
        exact flowDelete_counted hr rfl
      rw [if_neg ha] at hr
      by_cases hq : (needQueue req ((countReq s₁ req i).entry i) && !o.queueOk) = true
      · rw [if_pos hq] at hr
        cases hr
        exact countReq_ne
      · rw [if_neg hq] at hr
        obtain ⟨r, hset, hr⟩ := Option.map_eq_some_iff.1 hr
        obtain ⟨-, rfl⟩ := Prod.mk.inj hr
        rw [show (flowStopModify r.2 i).infop = r.2.infop from rfl, transition_infop hset]
        refine flowSetEntry_counted ?_ ?_
        · split_ifs
          · rw [entry_setEntry_same, countReq_entry]
          · rw [countReq_entry]
        · split_ifs <;> rfl

/-! ### Additions -/

theorem Table.modify_payload {π : Type} {t : Table π} {i : ℕ} {f : Hentry π → Hentry π}
    (hf : ∀ e, (f e).payload = e.payload) (j : ℕ) :
    ((t.modify i f).hentry j).payload = (t.hentry j).payload := by
  by_cases hji : j = i
  · rw [hji, Table.modify_same, hf]
  · rw [Table.modify_ne _ hji]

theorem findFreeHentry_payload {π : Type} {g : Geometry} {t t' : Table π} {hash x : ℕ}
    (h : findFreeHentry g t hash = some (x, t')) (j : ℕ) :
    (t'.hentry j).payload = (t.hentry j).payload := by
  unfold findFreeHentry linkOentry at h
  dsimp only at h
  split at h
  · cases h
    dsimp only
    refine Table.modify_payload ?_ j
    exact fun _ => rfl
  · split_ifs at h
    cases hfree : getFreeOentry t with
    | none =>
      rw [hfree] at h
      cases h
    | some p =>
      rw [hfree] at h
      cases h
      dsimp only
      refine (Table.modify_payload ?_ j).trans ((Table.modify_payload ?_ j).trans ?_)
      · exact fun _ => rfl
      · exact fun _ => rfl
      · unfold getFreeOentry at hfree
        split at hfree
        · cases hfree
        · cases hfree
          dsimp only
          refine Table.modify_payload ?_ j
          exact fun _ => rfl

/-- An entry that is taken and given up again has another generation. -/
theorem flowResetEntry_taken {x : ℕ} {key : FlowKey}
    (h : flowTableGetFreeEntry env s key = some (x, s')) :
    (flowResetEntry env o s' x).entry x ≠ s.entry x := by
  unfold flowTableGetFreeEntry at h
  split at h
  · cases h
  · next t hfree =>
      cases h
      intro heq
      have hpayload := findFreeHentry_payload hfree x
      generalize hs₁ : ({ s with table := { s.table with tbl := t } } : FlowSys) = s₁ at heq
      have hs : s₁.entry x = s.entry x := by
        rw [← hs₁]
        exact hpayload
      have hreset := (releaseHentry_entries env.g o.notReady (o.hSched x)
        ((s₁.setEntry x FlowEntry.take).setEntry x
          fun e => { e.reset with feStats := {}, feType := .null, feFlags := {} }).table x).2.2 x
      have hgen := congrArg FlowEntry.feGenId (hreset.symm.trans heq)
      rw [← FlowSys.entry, entry_setEntry_same, entry_setEntry_same, hs] at hgen
      have htake : (s.entry x).take.feGenId = ((s.entry x).feGenId + 1) % 2 ^ 8 := by
        unfold FlowEntry.take FlowEntry.takeFlags
        dsimp only
        split_ifs <;> rfl
      have hkept : (s.entry x).take.feGenId = (s.entry x).feGenId := hgen
      omega

theorem flowTableGetFreeEntry_infop {x : ℕ} {key : FlowKey}
    (h : flowTableGetFreeEntry env s key = some (x, s')) : s'.infop = s.infop := by
  unfold flowTableGetFreeEntry at h
  split at h
  · cases h
  · cases h
    rfl

/-- An addition that none of its checks refuses takes an entry; without memory for the queue it is
given up again. -/
theorem addFlowReq_traces {res : Except Errno ℕ} (hr : addFlowReq env o s req = some (res, s')) :
    AddRefused env s req ∧ (∃ e, res = .error e) ∧ s' = s ∨
      ¬ AddRefused env s req ∧ ((∃ e, res = .error e) ∧ (∃ x, s'.entry x ≠ s.entry x) ∨
        (∃ x, res = .ok x) ∧ s'.infop = s.infop) := by
  unfold addFlowReq at hr
  by_cases hfam : req.frKey.flowFamily = .other
  · rw [if_pos hfam] at hr
    cases hr
    exact Or.inl ⟨Or.inl hfam, ⟨_, rfl⟩, rfl⟩
  rw [if_neg hfam] at hr
  dsimp only at hr
  split at hr
  · cases hr
  · next hfound =>
      cases hr
      exact Or.inl ⟨Or.inr (Or.inl ⟨_, hfound⟩), ⟨_, rfl⟩, rfl⟩
  · next hfound =>
      unfold flowGetFreeEntry at hr
      cases hfree : flowTableGetFreeEntry env s req.frKey with
      | none =>
        simp only [hfree] at hr
        cases hr
        exact Or.inl ⟨Or.inr (Or.inr hfree), ⟨_, rfl⟩, rfl⟩
      | some p =>
        have hinfop : p.2.infop = s.infop := flowTableGetFreeEntry_infop hfree
        simp only [hfree] at hr
        refine Or.inr ⟨?_, ?_⟩
        · rintro (h | ⟨i, h⟩ | h)
          · exact hfam h
          · rw [hfound] at h
            cases h
          · rw [hfree] at h
            cases h
        · by_cases hq : (decide (req.frAction = .hold) && !o.queueOk) = true
          · simp only [if_pos hq] at hr
            cases hr
            exact Or.inl ⟨⟨_, rfl⟩, p.1, flowResetEntry_taken hfree⟩
          · simp only [if_neg hq] at hr
            cases hr
            exact Or.inr ⟨⟨_, rfl⟩, hinfop⟩

/-- A request for a flow that does not exist leaves a trace as soon as an entry was taken. -/
theorem flowSetAbsent_error (hr : flowSetAbsent env o s req = some (some e, s')) :
    NothingIf (Invalid env s req none ∨ req.frFlags.active = false ∨ AddRefused env s req) s s' := by
  unfold flowSetAbsent at hr
  split at hr
  · cases hr
  · next herr =>
      cases hr
      exact Or.inl ⟨Or.inl ⟨_, herr⟩, rfl⟩
  · next rindex hok =>
      cases ha : req.frFlags.active with
      | false =>
        rw [ha] at hr
        cases hr
        exact Or.inl ⟨Or.inr (Or.inl rfl), rfl⟩
      | true =>
        simp only [ha, Bool.not_true, Bool.false_eq_true, if_false] at hr
        have hchecks : Invalid env s req none ∨ true = false ∨ AddRefused env s req →
            AddRefused env s req := by
          rintro (⟨err, herr⟩ | h | h)
          · rw [hok] at herr
            cases herr
          · cases h
          · exact h
        cases hadd : addFlowReq env o s req with
        | none =>
          simp only [hadd] at hr
          cases hr
        | some r =>
          obtain ⟨res, s₁⟩ := r
          simp only [hadd] at hr
          obtain ⟨hrefused, ⟨err, rfl⟩, rfl⟩ | ⟨hrefused, hchange⟩ := addFlowReq_traces hadd
          · cases hr
            exact Or.inl ⟨Or.inr (Or.inr hrefused), rfl⟩
          · refine Or.inr ⟨fun h => hrefused (hchecks h), fun h => ?_⟩
            obtain ⟨⟨err, rfl⟩, x, hx⟩ | ⟨⟨x, rfl⟩, hinfop⟩ := hchange
            · cases hr
              exact hx (h.entry x)
            · have hset := (congrArg FlowTableInfo.vftiAdded (transition_infop hr)).trans
                (flowSetEntry_counters rindex true).2
              rw [h.infop, ← hinfop] at hset
              exact incr64_ne _ hset.symm

theorem flowForceEvict_error (hr : flowForceEvict env o s req = some (some e, s')) : s' = s := by
  unfold flowForceEvict at hr
  split at hr
  · cases hr
    rfl
  · split_ifs at hr
    · cases hr
      rfl
    · obtain ⟨r, -, hr⟩ := Option.map_eq_some_iff.1 hr
      cases hr

/-- **A rejected request has no effect** exactly if a check refused it: the flow table, the link
local ports and the counters are then what they were, and otherwise they are not. -/
theorem flowSet_rejected (h : flowSet env o s req = some (some e, s')) :
    (SameFlows s s' ↔ Refused env s req) ∧ (Refused env s req → s' = s) := by
  have hcases : NothingIf (Refused env s req) s s' := by
    unfold flowSet at h
    unfold Refused
    by_cases hf : req.forceEvict = true
    · rw [if_pos hf] at h ⊢
      exact Or.inl ⟨trivial, flowForceEvict_error h⟩
    rw [if_neg hf] at h ⊢
    cases hget : flowGetEntry env s req.frIndex with
    | none =>
      rw [hget] at h
      exact flowSetAbsent_error h
    | some i =>
      rw [hget] at h
      dsimp only at h ⊢
      cases hu : (s.entry i).feFlags.unlocked with
      | false =>
        rw [hu] at h
        cases h
        exact Or.inl ⟨Or.inl rfl, rfl⟩
      | true =>
        simp only [hu, Bool.not_true, Bool.false_eq_true, if_false, Bool.true_eq_false,
          false_or] at h ⊢
        exact flowSetFound_error hu h
  rcases hcases with ⟨hrefused, rfl⟩ | ⟨hrefused, hchange⟩
  · exact ⟨⟨fun _ => hrefused, fun _ => ⟨fun _ => rfl, rfl, rfl⟩⟩, fun _ => rfl⟩
  · exact ⟨⟨fun hs => absurd hs hchange, fun hr => absurd hr hrefused⟩,
      fun hr => absurd hr hrefused⟩

/-- A flow is put on hold and set to forward. -/
def forwardRun : List FlowEvent :=
  [.packet (tcpPacket 1 false) {}, .request (setReq 0 1 1 .forward) {}, .work 0 {}, .callback 0 {}]

/-- Deleting it under a generation that it does not have. -/
theorem flowSet_rejected_generation :
    ∃ s s', runWhen (flowStep smallEnv) (fun _ _ => True) forwardRun (FlowSys.init smallEnv) =
        some s ∧ flowSet smallEnv { sched := fun _ => { mdOk := false } } s (deleteReq 0 7 1) =
        some (some .ebadf, s') ∧ SameFlows s s' := by
  have hrun : ((runWhen (flowStep smallEnv) (fun _ _ => True) forwardRun
      (FlowSys.init smallEnv)).map fun s =>
        ((flowSet smallEnv { sched := fun _ => { mdOk := false } } s (deleteReq 0 7 1)).map Prod.fst,
          flowGetEntry smallEnv s 0,
          flowSetReqIsInvalid smallEnv (flowStartModify s 0) (deleteReq 0 7 1) (some 0))) =
      some (some (some .ebadf), some 0, some (.error .ebadf)) := by
    decide +kernel
  obtain ⟨s, hs, hv⟩ := Option.map_eq_some_iff.1 hrun
  obtain ⟨hset, hentry, hinvalid⟩ : _ ∧ _ ∧ _ := by simpa only [Prod.mk.injEq] using hv
  obtain ⟨⟨e, s'⟩, hset, rfl⟩ := Option.map_eq_some_iff.1 hset
  refine ⟨s, s', hs, hset, (flowSet_rejected hset).1.mpr ?_⟩
  unfold Refused
  rw [if_neg (by decide), show (deleteReq 0 7 1).frIndex = 0 from rfl, hentry]
  exact Or.inr ⟨_, hinvalid⟩

/-- Deleting it without memory for the work item: the request is rejected, the flow is dropped,
locked and marked for deletion, and the deletion is counted. -/
theorem flowSet_rejected_changes :
    ∃ s s', runWhen (flowStep smallEnv) (fun _ _ => True) forwardRun (FlowSys.init smallEnv) =
        some s ∧ flowSet smallEnv { sched := fun _ => { mdOk := false } } s (deleteReq 0 1 1) =
        some (some .enomem, s') ∧
      (s.entry 0).feAction = .forward ∧ (s'.entry 0).feAction = .drop ∧
      (s.entry 0).feFlags.deleteMarked = false ∧ (s'.entry 0).feFlags.deleteMarked = true ∧
      s.infop.vftiDeleted = 0 ∧ s'.infop.vftiDeleted = 1 := by
  have hrun : ((runWhen (flowStep smallEnv) (fun _ _ => True) forwardRun
      (FlowSys.init smallEnv)).map fun s =>
        ((flowSet smallEnv { sched := fun _ => { mdOk := false } } s (deleteReq 0 1 1)).map
          fun r => (r.1, decide ((s.entry 0).feAction = .forward ∧ (r.2.entry 0).feAction = .drop ∧
            (s.entry 0).feFlags.deleteMarked = false ∧
            (r.2.entry 0).feFlags.deleteMarked = true ∧ s.infop.vftiDeleted = 0 ∧
            r.2.infop.vftiDeleted = 1)))) = some (some (some .enomem, true)) := by
    decide +kernel
  obtain ⟨s, hs, hv⟩ := Option.map_eq_some_iff.1 hrun
  obtain ⟨⟨e, s'⟩, hset, he⟩ := Option.map_eq_some_iff.1 hv
  simp only [Prod.mk.injEq, decide_eq_true_eq] at he
  obtain ⟨rfl, he⟩ := he
  exact ⟨s, s', hs, hset, he⟩

end Vrouter.Flow
