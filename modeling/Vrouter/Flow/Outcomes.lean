import Vrouter.Flow.Lifecycle

/-! # What a request of the agent does

`ReqOutcome` lists what can come of a request: it is rejected, it forces an eviction, deletes a
flow, sets one, adds one, or gives up an entry that it had taken.  `flowSet_outcome` says that the
list is complete. -/

namespace Vrouter.Flow

open Vrouter.Htable Vrouter.Lib

variable {env : Env} {s s' s'' : FlowSys} {i j r x index : ℕ} {o : Oracle} {req : FlowReq}
  {out : SchedOutcome} {ok : Bool}

/-! ### Counters -/

/-- The counters that `vr_flow_table_hold_count` reads are the same. -/
structure SameCounts (s s' : FlowSys) : Prop where
  holdCount : s'.infop.vftiHoldCount = s.infop.vftiHoldCount
  actionCount : s'.infop.vftiActionCount = s.infop.vftiActionCount

/-- One more flow was put on hold on the CPU `cpu`. -/
structure CountedHold (cpu : ℕ) (s s' : FlowSys) : Prop where
  holdCount : s'.infop.vftiHoldCount = (countHold cpu s.infop).vftiHoldCount
  actionCount : s'.infop.vftiActionCount = (countHold cpu s.infop).vftiActionCount

/-- One flow on hold was acted on. -/
structure CountedAction (s s' : FlowSys) : Prop where
  holdCount : s'.infop.vftiHoldCount = s.infop.vftiHoldCount
  actionCount : s'.infop.vftiActionCount = incr64 s.infop.vftiActionCount

/-! ### Scheduling for a request -/

/-- The items that a request schedules for the flow `i`: one, unless that fails. -/
def Scheduled (out : SchedOutcome) (i stamp : ℕ) (flags : FlowFlags) (evict : Bool)
    (l : List FlowMd) : Prop :=
  (∃ d, DeferShape (!flags.active) evict d ∧ l = [⟨i, flags, d, stamp, none⟩]) ∨
  (l = [] ∧ (out.mdOk = true → out.workOk = false))

theorem flowScheduleTransition_scheduled {flags : FlowFlags}
    (h : flowScheduleTransition env out s i index flags none = some (ok, s')) :
    ∃ l, s' = { s with works := s.works ++ l } ∧
      Scheduled out index s.clock flags (evictFlowSet env s i) l := by
  obtain ⟨-, -, -, d, hd, rfl⟩ | ⟨-, hfail, rfl⟩ := flowScheduleTransition_cases h
  · exact ⟨_, rfl, .inl ⟨d, hd, rfl⟩⟩
  · exact ⟨[], by simp, .inr ⟨rfl, hfail⟩⟩

theorem evictFlowSet_of_not_cand (h : (s.entry i).feFlags.evictCandidate = false) :
    evictFlowSet env s i = false := by
  unfold evictFlowSet
  dsimp only
  rw [h, Bool.false_and]

variable {c : Core} {l : List FlowMd} {e : Option Errno} {rindex : ℤ} {newFlow : Bool}
  {infop : FlowTableInfo}

theorem Scheduled.rewrites {flags : FlowFlags}
    (h : flowScheduleTransition env out s' i index flags none = some (ok, s''))
    (hr : Rewrites env s i c [] s') :
    ∃ l, Scheduled out index s.clock flags (evictFlowSet env s' i) l ∧ Rewrites env s i c l s'' ∧
      s''.infop = s'.infop := by
  obtain ⟨l, rfl, hl⟩ := flowScheduleTransition_scheduled h
  rw [hr.clock] at hl
  exact ⟨l, hl, hr.schedule l, rfl⟩

theorem Scheduled.of_request {k : ℕ} (hidx : req.frIndex.toNat = k)
    (hr : Rewrites env s i c [] s') (hc : c.flags.evictCandidate = false)
    (h : (flowScheduleTransition env (o.sched 0) s' i req.frIndex.toNat req.frFlags none).map
      (scheduleRet (o.sched 0)) = some (e, s'')) :
    ∃ l, Scheduled (o.sched 0) k s.clock req.frFlags false l ∧ Rewrites env s i c l s'' ∧
      s''.infop = s'.infop := by
  obtain ⟨⟨ok, s₁⟩, hs, hs'⟩ := Option.map_eq_some_iff.1 h
  cases hs'
  rw [hidx] at hs
  obtain ⟨l, hl, hrw, hinf⟩ := Scheduled.rewrites hs hr
  rw [evictFlowSet_of_not_cand ((congrArg (·.flags.evictCandidate) hr.core).trans hc)] at hl
  exact ⟨l, hl, hrw, hinf⟩

section

variable (h : Rewrites env s i c l s')
include h

theorem Rewrites.setFlags (f : FlowFlags → FlowFlags) :
    Rewrites env s i { c with flags := f c.flags } l
      (s'.setEntry i fun e => { e with feFlags := f e.feFlags }) :=
  h.setEntry (fun e => { e with feFlags := f e.feFlags }) (fun c => { c with flags := f c.flags })
    fun _ => ⟨rfl, rfl, rfl⟩

theorem Rewrites.startModify :
    Rewrites env s i { c with flags := { c.flags with modified := true } } l
      (flowStartModify s' i) :=
  h.setFlags fun f => { f with modified := true }

theorem Rewrites.stopModify :
    Rewrites env s i { c with flags := { c.flags with modified := false } } l
      (flowStopModify s' i) :=
  h.setFlags fun f => { f with modified := false }

theorem Rewrites.quietIf (b : Bool) (hq : Quiet env s' s'') :
    Rewrites env s i c l (if b then s'' else s') := by
  cases b with
  | true => exact h.quiet hq
  | false => exact h

end

/-! ### Forced eviction -/

/-- The core of a flow that is forced out. -/
def forceCore (c : Core) : Core :=
  { c with
    flags := { c.flags with
      modified := c.flags.modified || c.flags.unlocked
      rflowValid := false
      evictCandidate := true }
    rflow := -1 }

theorem flowForceMark_rewrites (ha : (s.entry i).feFlags.active = true) :
    Rewrites env s i (forceCore (s.entry i).core) [] (flowForceMark s i) := by
  have h1 : Rewrites env s i { (s.entry i).core with
      flags := { (s.entry i).core.flags with modified :=
        (s.entry i).core.flags.modified || (s.entry i).core.flags.unlocked } } []
      (if (s.entry i).feFlags.unlocked then flowStartModify s i else s) := by
    cases hu : (s.entry i).feFlags.unlocked with
    | true =>
      rw [show (s.entry i).core.flags.unlocked = true from hu, Bool.or_true]
      exact (Rewrites.refl env s i).startModify
    | false =>
      rw [show (s.entry i).core.flags.unlocked = false from hu, Bool.or_false]
      exact Rewrites.refl env s i
  unfold flowForceMark
  dsimp only
  generalize (if (s.entry i).feFlags.unlocked then flowStartModify s i else s) = s₁ at h1
  have h2 := h1.setEntry
    (fun e => { e with feFlags := { e.feFlags with rflowValid := false }, feRflow := -1 })
    (fun c => { c with flags := { c.flags with rflowValid := false }, rflow := -1 })
    fun _ => ⟨rfl, rfl, rfl⟩
  generalize (s₁.setEntry i fun e =>
    { e with feFlags := { e.feFlags with rflowValid := false }, feRflow := -1 }) = s₂ at h2
  have hact : (s₂.entry i).feFlags.active = true := (congrArg (·.flags.active) h2.core).trans ha
  have hmark : (if (s₂.entry i).feFlags.evictCandidate then s₂ else (flowMarkCandidate s₂ i).2) =
      s₂.setEntry i fun e => { e with feFlags := { e.feFlags with evictCandidate := true } } := by
    split_ifs with hc
    · refine (setEntry_eq_self _ ?_).symm
      have : { (s₂.entry i).feFlags with evictCandidate := true } = (s₂.entry i).feFlags := by
        rw [← hc]
      simp only [this]
    · unfold flowMarkCandidate
      rw [if_pos hact]
  rw [hmark]
  exact h2.setFlags fun f => { f with evictCandidate := true }

theorem flowForceMark_infop : (flowForceMark s i).infop = s.infop := by
  unfold flowForceMark flowMarkCandidate
  dsimp only
  split_ifs <;> rfl

/-- What `vr_flow_force_evict` did to a flow that it accepted. -/
structure Forced (env : Env) (s : FlowSys) (req : FlowReq) (o : Oracle) (i : ℕ) (l : List FlowMd)
    (s' : FlowSys) : Prop where
  force : req.forceEvict = true
  index : flowGetEntry env s req.frIndex = some i
  evictable : forceEvictable (s.entry i) = true
  scheduled : Scheduled (o.sched 0) i s.clock (forceCore (s.entry i).core).flags true l
  rewrites : Rewrites env s i (forceCore (s.entry i).core) l s'
  counts : SameCounts s s'

theorem toNat_of_flowGetEntry {index : ℤ} (h : flowGetEntry env s index = some i) :
    index.toNat = i := by
  rw [(flowGetEntry_eq_some.1 h).1, Int.toNat_natCast]

theorem flowForceEvict_cases (hf : req.forceEvict = true)
    (h : flowForceEvict env o s req = some (e, s')) :
    s' = s ∨ ∃ i l, Forced env s req o i l s' := by
  unfold flowForceEvict at h
  split at h
  · cases h
    exact .inl rfl
  · next i hi =>
      by_cases hfe : forceEvictable (s.entry i) = true
      swap
      · rw [if_pos (by simpa using hfe)] at h
        cases h
        exact .inl rfl
      rw [if_neg (by simpa using hfe)] at h
      have hact : (s.entry i).feFlags.active = true := by
        unfold forceEvictable at hfe
        simp only [Bool.and_eq_true] at hfe
        exact hfe.2
      have hrw : Rewrites env s i _ [] (flowForceMark s i) := flowForceMark_rewrites hact
      obtain ⟨⟨ok, s₁⟩, hs, hs'⟩ := Option.map_eq_some_iff.1 h
      cases hs'
      rw [toNat_of_flowGetEntry hi] at hs
      obtain ⟨l, hl, hrw', hinf⟩ := Scheduled.rewrites hs hrw
      have hflags : ((flowForceMark s i).entry i).feFlags = (forceCore (s.entry i).core).flags :=
        congrArg Core.flags hrw.core
      have hrf : ((flowForceMark s i).entry i).feRflow = -1 := congrArg Core.rflow hrw.core
      have hev : evictFlowSet env (flowForceMark s i) i = true := by
        unfold evictFlowSet
        dsimp only
        rw [hflags, hrf]
        rfl
      rw [hflags, hev] at hl
      refine .inr ⟨i, l, hf, hi, hfe, hl, hrw', ?_, ?_⟩
      · rw [hinf, flowForceMark_infop]
      · rw [hinf, flowForceMark_infop]

/-! ### Deletion -/

/-- The core of a flow that is being deleted. -/
def deleteCore (c : Core) : Core :=
  { c with
    flags := { c.flags with modified := true, deleteMarked := true, mirror := false }
    action := .drop }

theorem writeLinkLocalPort_infop (proto port : ℕ) (v : Bool) :
    (s.writeLinkLocalPort env proto port v).infop = s.infop := by
  unfold FlowSys.writeLinkLocalPort
  split <;> rfl

theorem flowDeleteMark_rewrites (h : Rewrites env s i c [] s') :
    Rewrites env s i { c with
      flags := { c.flags with deleteMarked := true, mirror := false }, action := .drop } []
      (flowDeleteMark env s' i) := by
  have h1 := h.setFlags fun f => { f with deleteMarked := true }
  unfold flowDeleteMark
  dsimp only
  generalize (s'.setEntry i fun e =>
    { e with feFlags := { e.feFlags with deleteMarked := true } }) = s₁ at h1
  have h2 : Rewrites env s i { c with flags := { c.flags with deleteMarked := true } } []
      (if (s₁.entry i).feFlags.linkLocal then
        s₁.writeLinkLocalPort env (s₁.entry i).feKey.flowProto (s₁.entry i).feKey.linkLocalPort false
      else s₁) := by
    split_ifs
    · exact h1.quiet (quiet_writeLinkLocalPort _ _ _)
    · exact h1
  exact h2.setEntry (fun e => { e with feAction := .drop }.resetMirror)
    (fun c => { c with flags := { c.flags with mirror := false }, action := .drop })
    fun _ => ⟨rfl, rfl, rfl⟩

theorem flowDeleteMark_infop : (flowDeleteMark env s i).infop = s.infop := by
  unfold flowDeleteMark
  dsimp only
  split_ifs
  · exact writeLinkLocalPort_infop _ _ _
  · rfl

/-- What `vr_flow_delete` did to a flow. -/
structure Deleted (env : Env) (s : FlowSys) (req : FlowReq) (o : Oracle) (i : ℕ) (l : List FlowMd)
    (s' : FlowSys) : Prop where
  notForce : req.forceEvict = false
  index : flowGetEntry env s req.frIndex = some i
  unlocked : (s.entry i).feFlags.unlocked = true
  notMarked : (s.entry i).feFlags.deleteMarked = false
  notActive : req.frFlags.active = false
  scheduled : Scheduled (o.sched 0) i s.clock req.frFlags false l
  rewrites : Rewrites env s i (deleteCore (s.entry i).core) l s'
  leave : (s.entry i).feAction = .hold → CountedAction s s'
  stay : (s.entry i).feAction ≠ .hold → SameCounts s s'

/-! ### Setting -/

/-- The core of a flow that a request set. -/
def setCore (env : Env) (o : Oracle) (req : FlowReq) (rindex : ℤ) (c : Core) : Core :=
  { c with
    flags := { c.flags.dpBitsOrMask req.frFlags with newFlow := false }
    action :=
      if req.frAction = .hold ∧ c.action ≠ .hold then
        if env.vrNumCpus ≤ o.cpu then c.action else .hold
      else req.frAction
    rflow :=
      if req.frFlags.rflowValid then rindex else if 0 ≤ c.rflow then -1 else c.rflow }

/-- A flow that goes on hold gets a queue. -/
def queuedCore (req : FlowReq) (c : Core) : Core :=
  { c with
    holdList :=
      if req.frAction = .hold ∧ c.action ≠ .hold ∧ c.holdList = none then some {}
      else c.holdList }

/-- The core after `FlowEntry.applyReq`. -/
def applyCore (req : FlowReq) (rindex : ℤ) (c : Core) : Core :=
  { c with
    flags :=
      if !req.frFlags.mirror && c.flags.mirror then { c.flags with mirror := false } else c.flags
    rflow :=
      if req.frFlags.rflowValid then rindex else if 0 ≤ c.rflow then -1 else c.rflow }

theorem applyReq_core (e : FlowEntry) (rindex : ℤ) :
    (e.applyReq env req rindex).core = applyCore req rindex e.core := by
  unfold FlowEntry.applyReq FlowEntry.setMirror FlowEntry.core applyCore
  cases req.frFlags.mirror with
  | true => rfl
  | false =>
    cases e.feFlags.mirror with
    | true => rfl
    | false => rfl

theorem Rewrites.applyReq (h : Rewrites env s i c [] s') (req : FlowReq) (rindex : ℤ) :
    Rewrites env s i (applyCore req rindex c) []
      ((flowUpdateLinkLocalPort env s' req i).setEntry i fun e => e.applyReq env req rindex) :=
  (h.quiet (quiet_flowUpdateLinkLocalPort req)).setEntry _ _ fun e =>
    ⟨applyReq_core e rindex, by rw [applyReq_core]; exact ⟨rfl, rfl⟩⟩

theorem flowEntrySetHold_rewrites {burst : Bool} (h : Rewrites env s i c [] s') :
    Rewrites env s i { c with action := if env.vrNumCpus ≤ o.cpu then c.action else .hold } []
      (flowEntrySetHold env o s' i burst) := by
  unfold flowEntrySetHold
  dsimp only
  split_ifs
  · exact h
  all_goals
    exact (h.setEntry (fun e => { e with feAction := .hold }) (fun c => { c with action := .hold })
      fun _ => ⟨rfl, rfl, rfl⟩).infop _

theorem setCore_eq (env : Env) (o : Oracle) (c : Core) (rindex : ℤ) :
    ({ applyCore req rindex c with
      flags := { (applyCore req rindex c).flags.dpBitsOrMask req.frFlags with newFlow := false }
      action := (setCore env o req rindex c).action } : Core) = setCore env o req rindex c := by
  have hf : (applyCore req rindex c).flags.dpBitsOrMask req.frFlags =
      c.flags.dpBitsOrMask req.frFlags := by
    unfold applyCore FlowFlags.dpBitsOrMask
    dsimp only
    split_ifs <;> rfl
  rw [hf]
  rfl

theorem flowSetEntry_rewrites (h : Rewrites env s i c [] s') :
    Rewrites env s i (setCore env o req rindex c) []
      (flowSetEntry env o s' req i rindex newFlow) := by
  have h1 := h.applyReq req rindex
  unfold flowSetEntry
  dsimp only
  generalize (flowUpdateLinkLocalPort env s' req i).setEntry i
    (fun e => e.applyReq env req rindex) = s₁ at h1
  have hact : (s₁.entry i).feAction = c.action := congrArg Core.action h1.core
  rw [hact]
  have h2 : Rewrites env s i
      { applyCore req rindex c with action := (setCore env o req rindex c).action } []
      (if req.frAction = .hold ∧ c.action ≠ .hold then flowEntrySetHold env o s₁ i false
      else s₁.setEntry i fun e => { e with feAction := req.frAction }) := by
    unfold setCore
    dsimp only
    by_cases hh : req.frAction = .hold ∧ c.action ≠ .hold
    · rw [if_pos hh, if_pos hh]
      exact flowEntrySetHold_rewrites h1
    · rw [if_neg hh, if_neg hh]
      exact h1.setEntry (fun e => { e with feAction := req.frAction })
        (fun c => { c with action := req.frAction }) fun _ => ⟨rfl, rfl, rfl⟩
  generalize (if req.frAction = .hold ∧ c.action ≠ .hold then flowEntrySetHold env o s₁ i false
      else s₁.setEntry i fun e => { e with feAction := req.frAction }) = s₂ at h2
  have h3 := h2.setEntry (fun e => e.applyReqFlags req)
    (fun c => { c with flags := c.flags.dpBitsOrMask req.frFlags }) fun _ => ⟨rfl, rfl, rfl⟩
  generalize s₂.setEntry i (fun e => e.applyReqFlags req) = s₃ at h3
  have h4 := h3.quietIf newFlow (quiet_flowSetNewFlow (i := i))
  have h5 := h4.setEntry (fun e => e.finishReq env req)
    (fun c => { c with flags := { c.flags with newFlow := false } }) fun _ => ⟨rfl, rfl, rfl⟩
  exact setCore_eq env o c rindex ▸ h5

theorem flowUpdateLinkLocalPort_infop : (flowUpdateLinkLocalPort env s req i).infop = s.infop := by
  unfold flowUpdateLinkLocalPort
  dsimp only
  split_ifs <;> simp only [writeLinkLocalPort_infop]

theorem flowSetNewFlow_infop : (flowSetNewFlow env s i).infop = s.infop := by
  unfold flowSetNewFlow
  dsimp only
  split <;> rfl

/-- A request puts a flow on hold, if there is a counter for the CPU. -/
def EntersHold (env : Env) (o : Oracle) (req : FlowReq) (a : FlowAction) : Prop :=
  req.frAction = .hold ∧ a ≠ .hold ∧ o.cpu < env.vrNumCpus

theorem flowEntrySetHold_infop : (flowEntrySetHold env o s i false).infop =
    if env.vrNumCpus ≤ o.cpu then s.infop else countHold o.cpu s.infop := by
  unfold flowEntrySetHold
  by_cases h : env.vrNumCpus ≤ o.cpu
  · rw [if_pos h, if_pos h]
  · rw [if_neg h, if_neg h]
    rfl

theorem flowSetEntry_infop :
    (flowSetEntry env o s req i rindex newFlow).infop =
      if req.frAction = .hold ∧ (s.entry i).feAction ≠ .hold then
        if env.vrNumCpus ≤ o.cpu then s.infop else countHold o.cpu s.infop
      else s.infop := by
  have h1 := (Rewrites.refl env s i).applyReq req rindex
  have hinf : ((flowUpdateLinkLocalPort env s req i).setEntry i
      fun e => e.applyReq env req rindex).infop = s.infop := flowUpdateLinkLocalPort_infop
  unfold flowSetEntry
  dsimp only
  generalize (flowUpdateLinkLocalPort env s req i).setEntry i
    (fun e => e.applyReq env req rindex) = s₁ at h1 hinf
  have hact : (s₁.entry i).feAction = (s.entry i).feAction := congrArg Core.action h1.core
  rw [hact, setEntry_infop]
  have hnew : ∀ t : FlowSys, (if newFlow then flowSetNewFlow env t i else t).infop = t.infop := by
    intro t
    cases newFlow with
    | true => exact flowSetNewFlow_infop
    | false => rfl
  rw [hnew, setEntry_infop, ← hinf, ← flowEntrySetHold_infop]
  split_ifs <;> rfl

theorem flowSetEntry_infop_of_enters (h : EntersHold env o req (s.entry i).feAction) :
    (flowSetEntry env o s req i rindex newFlow).infop = countHold o.cpu s.infop := by
  rw [flowSetEntry_infop, if_pos ⟨h.1, h.2.1⟩, if_neg (by have := h.2.2; omega)]

theorem flowSetEntry_infop_of_not (h : ¬ EntersHold env o req (s.entry i).feAction) :
    (flowSetEntry env o s req i rindex newFlow).infop = s.infop := by
  rw [flowSetEntry_infop]
  split_ifs with h1 h2
  · rfl
  · exact absurd ⟨h1.1, h1.2, by omega⟩ h
  · rfl

/-- What `vr_flow_set` did to the flow `i`. -/
structure SetDone (env : Env) (s : FlowSys) (req : FlowReq) (o : Oracle) (i : ℕ) (rindex : ℤ)
    (l : List FlowMd) (s' : FlowSys) : Prop where
  notForce : req.forceEvict = false
  active : req.frFlags.active = true
  scheduled : Scheduled (o.sched 0) i s.clock req.frFlags false l
  rewrites : Rewrites env s i (setCore env o req rindex (queuedCore req (s.entry i).core)) l s'
  leave : (s.entry i).feAction = .hold → req.frAction ≠ .hold → CountedAction s s'
  enter : EntersHold env o req (s.entry i).feAction → CountedHold o.cpu s s'
  stay : ¬ EntersHold env o req (s.entry i).feAction →
    ¬ ((s.entry i).feAction = .hold ∧ req.frAction ≠ .hold) → SameCounts s s'

/-- **The outcomes of a request.** -/
inductive ReqOutcome (env : Env) (s : FlowSys) (req : FlowReq) (o : Oracle) : FlowSys → Prop
  | quiet {s' : FlowSys} : Quiet env s s' → ReqOutcome env s req o s'
  | forced {s' : FlowSys} {i : ℕ} {l : List FlowMd} : Forced env s req o i l s' →
      ReqOutcome env s req o s'
  | deleted {s' : FlowSys} {i : ℕ} {l : List FlowMd} : Deleted env s req o i l s' →
      ReqOutcome env s req o s'
  | set {s' : FlowSys} {i : ℕ} {rindex : ℤ} {l : List FlowMd} :
      flowGetEntry env s req.frIndex = some i → (s.entry i).feFlags.unlocked = true →
      (s.entry i).feFlags.deleteMarked = false → SetDone env s req o i rindex l s' →
      ReqOutcome env s req o s'
  | givenUp {s' : FlowSys} {x : ℕ} : s.valid x = false →
      Frees env s x (resetCore (s.entry x).core) s' → ReqOutcome env s req o s'
  | added {s₁ s₂ s' : FlowSys} {needHold : Bool} {x : ℕ} {rindex : ℤ} {l : List FlowMd} :
      flowGetEntry env s req.frIndex = none → findFlow env s req.frKey = some none →
      Created env s req.frKey needHold x s₁ → Quiet env s₁ s₂ →
      SetDone env s₂ req o x rindex l s' → ReqOutcome env s req o s'

/-! ### The list is complete -/

theorem countReq_eq (s : FlowSys) (req : FlowReq) (i : ℕ) :
    ∃ infop : FlowTableInfo, countReq s req i = { s with infop := infop } ∧
      infop.vftiHoldCount = s.infop.vftiHoldCount ∧
      infop.vftiActionCount =
        if (s.entry i).feAction = .hold ∧ (req.frAction ≠ .hold ∨ req.frFlags.active = false) then
          incr64 s.infop.vftiActionCount
        else s.infop.vftiActionCount := by
  unfold countReq
  dsimp only
  by_cases h : (s.entry i).feAction = .hold
  · rw [h]
    simp only [true_and, Bool.not_eq_true']
    split_ifs
    · exact ⟨_, rfl, rfl, rfl⟩
    · exact ⟨_, rfl, rfl, rfl⟩
  · rw [if_neg fun hh => h hh.1, if_neg fun hh => h hh.1]
    exact ⟨_, rfl, rfl, rfl⟩

theorem flowDelete_done (hc : (s.entry i).feFlags.evictCandidate = false)
    (hidx : req.frIndex.toNat = i)
    (h : flowDelete env o { flowStartModify s i with infop := infop } req i = some (e, s'')) :
    ∃ l, Scheduled (o.sched 0) i s.clock req.frFlags false l ∧
      Rewrites env s i (deleteCore (s.entry i).core) l s'' ∧ s''.infop = infop := by
  have h1 : Rewrites env s i _ [] { flowStartModify s i with infop := infop } :=
    (Rewrites.refl env s i).startModify.infop infop
  obtain ⟨l, hl, hrw, hinf⟩ := Scheduled.of_request hidx (flowDeleteMark_rewrites h1) hc h
  exact ⟨l, hl, hrw, hinf.trans flowDeleteMark_infop⟩

theorem flowSetReqIsInvalid_ok (h : flowSetReqIsInvalid env s req (some i) = some (.ok rindex)) :
    (s.entry i).feFlags.deleteMarked = false := by
  unfold flowSetReqIsInvalid at h
  by_contra hd
  have : reqEntryError s req (some i) = some .einval := by
    unfold reqEntryError
    dsimp only
    rw [if_pos (by simpa using hd)]
  rw [this] at h
  cases h

theorem setCore_unlock (hm : c.flags.modified = false) :
    ({ setCore env o req rindex
        (queuedCore req { c with flags := { c.flags with modified := true } }) with
      flags := { (setCore env o req rindex (queuedCore req
        { c with flags := { c.flags with modified := true } })).flags with modified := false } } :
      Core) = setCore env o req rindex (queuedCore req c) := by
  unfold setCore queuedCore FlowFlags.dpBitsOrMask
  dsimp only
  rw [hm]

theorem flowSetFound_set (hg : Good env s) (hf : req.forceEvict = false)
    (ha : req.frFlags.active = true) (hidx : req.frIndex.toNat = i)
    (hu : (s.entry i).feFlags.unlocked = true) (hhold : infop.vftiHoldCount = s.infop.vftiHoldCount)
    (hact : infop.vftiActionCount =
      if (s.entry i).feAction = .hold ∧ req.frAction ≠ .hold then incr64 s.infop.vftiActionCount
      else s.infop.vftiActionCount)
    (hr : Rewrites env s i (queuedCore req { (s.entry i).core with
      flags := { (s.entry i).core.flags with modified := true } }) [] s') (hinf : s'.infop = infop)
    (h : (flowSetApply env o s' req i rindex false).map
      (fun r => (r.1, flowStopModify r.2 i)) = some (e, s'')) :
    ∃ l, SetDone env s req o i rindex l s'' := by
  obtain ⟨⟨e', s₁⟩, happ, hs⟩ := Option.map_eq_some_iff.1 h
  cases hs
  obtain ⟨hm, -, -⟩ := FlowFlags.unlocked_iff.1 hu
  have hcand : (s.entry i).feFlags.evictCandidate = false := hg.not_cand hu
  obtain ⟨l, hl, hrw, hinf'⟩ := Scheduled.of_request hidx (flowSetEntry_rewrites hr) hcand happ
  have hact' : (s'.entry i).feAction = (s.entry i).feAction := congrArg Core.action hr.core
  have hrw' := hrw.stopModify
  rw [setCore_unlock hm] at hrw'
  have hi : (flowStopModify s₁ i).infop = s₁.infop := rfl
  refine ⟨l, hf, ha, hl, hrw', fun h1 h2 => ?_, fun hen => ?_, fun hen hlv => ?_⟩
  · rw [flowSetEntry_infop_of_not fun hen => h2 hen.1, hinf] at hinf'
    rw [if_pos ⟨h1, h2⟩] at hact
    exact ⟨by rw [hi, hinf', hhold], by rw [hi, hinf', hact]⟩
  · rw [flowSetEntry_infop_of_enters (by rw [hact']; exact hen), hinf] at hinf'
    rw [if_neg fun hh => hen.2.1 hh.1] at hact
    constructor
    all_goals
      rw [hi, hinf', countHold, countHold]
      dsimp only
      rw [hhold, hact]
      split_ifs <;> rfl
  · rw [if_neg hlv] at hact
    rw [flowSetEntry_infop_of_not (by rw [hact']; exact hen), hinf] at hinf'
    exact ⟨by rw [hi, hinf', hhold], by rw [hi, hinf', hact]⟩

theorem needQueue_iff {e : FlowEntry} : needQueue req e = true ↔
    req.frAction = .hold ∧ e.core.action ≠ .hold ∧ e.core.holdList = none := by
  unfold needQueue FlowEntry.core
  simp only [Bool.and_eq_true, decide_eq_true_eq, Option.isNone_iff_eq_none, and_assoc]

theorem Rewrites.queued (h : Rewrites env s i c [] s') : Rewrites env s i (queuedCore req c) []
    (if needQueue req (s'.entry i) then s'.setEntry i fun e => { e with feHoldList := some {} }
    else s') := by
  simp only [needQueue_iff, h.core, queuedCore]
  split_ifs
  · exact h.setEntry (fun e => { e with feHoldList := some {} })
      (fun c => { c with holdList := some {} }) fun _ => ⟨rfl, rfl, rfl⟩
  · exact h

theorem flowSetFound_outcome (hg : Good env s) (hf : req.forceEvict = false)
    (hi : flowGetEntry env s req.frIndex = some i) (hu : (s.entry i).feFlags.unlocked = true)
    (h : flowSetFound env o (flowStartModify s i) req i = some (e, s')) :
    ReqOutcome env s req o s' := by
  obtain ⟨hm, -, -⟩ := FlowFlags.unlocked_iff.1 hu
  have hstop := flowStopModify_startModify hm
  have hact : ((flowStartModify s i).entry i).feAction = (s.entry i).feAction := by
    unfold flowStartModify; rw [entry_setEntry_same]
  unfold flowSetFound at h
  split at h
  · cases h
  · cases h
    rw [hstop]
    exact .quiet (.refl env s)
  · next rindex hok =>
      have hdm : (s.entry i).feFlags.deleteMarked = false := by
        have := flowSetReqIsInvalid_ok hok
        unfold flowStartModify at this
        rwa [entry_setEntry_same] at this
      obtain ⟨infop, hcount, hh, ha⟩ := countReq_eq (flowStartModify s i) req i
      rw [hcount] at h
      rw [hact] at ha
      dsimp only at h
      cases hactive : req.frFlags.active with
      | false =>
        simp only [hactive, Bool.not_false, if_true] at h
        obtain ⟨l, hl, hrw, hinf⟩ :=
          flowDelete_done (hg.not_cand hu) (toNat_of_flowGetEntry hi) h
        refine .deleted ⟨hf, hi, hu, hdm, hactive, hl, hrw, fun h1 => ?_, fun h1 => ?_⟩
        · rw [if_pos ⟨h1, .inr hactive⟩] at ha
          exact ⟨by rw [hinf]; exact hh, by rw [hinf]; exact ha⟩
        · rw [if_neg fun hc => h1 hc.1] at ha
          exact ⟨by rw [hinf]; exact hh, by rw [hinf]; exact ha⟩
      | true =>
        simp only [hactive, Bool.not_true, Bool.false_eq_true, if_false] at h
        rw [hactive] at ha
        simp only [Bool.true_eq_false, or_false] at ha
        have hrw : Rewrites env s i _ [] { flowStartModify s i with infop := infop } :=
          (Rewrites.refl env s i).startModify.infop infop
        have hcore := hrw.core
        generalize hs₁ : ({ flowStartModify s i with infop := infop } : FlowSys) = s₁ at h hrw hcore
        by_cases hq : (needQueue req (s₁.entry i) && !o.queueOk) = true
        · -- without memory for the queue only the counters differ
          rw [if_pos hq] at h
          cases h
          simp only [Bool.and_eq_true, needQueue_iff, hcore] at hq
          have he : flowStopModify s₁ i = { s with infop := infop } := by
            rw [← hs₁]
            conv_rhs => rw [← hstop]
            rfl
          rw [he]
          rw [if_neg fun hc => hq.1.2.1 hc.1] at ha
          exact .quiet (quiet_infop hh ha)
        · rw [if_neg hq] at h
          obtain ⟨l, hset⟩ := flowSetFound_set hg hf hactive (toNat_of_flowGetEntry hi) hu hh ha
            hrw.queued (by rw [← hs₁]; split_ifs <;> rfl) h
          exact .set hi hu hdm hset

theorem addFlowReq_cases {res : Except Errno ℕ} (hp : Placed env s)
    (h : addFlowReq env o s req = some (res, s')) :
    (∃ x, res = .ok x ∧ findFlow env s req.frKey = some none ∧
      Created env s req.frKey (decide (req.frAction = .hold)) x s') ∨
    (∃ err, res = .error err) ∧
      (s' = s ∨ ∃ x, s.valid x = false ∧ Frees env s x (resetCore (s.entry x).core) s') := by
  unfold addFlowReq at h
  by_cases hfam : req.frKey.flowFamily = .other
  · rw [if_pos hfam] at h
    cases h
    exact .inr ⟨⟨_, rfl⟩, .inl rfl⟩
  rw [if_neg hfam] at h
  dsimp only at h
  split at h
  · cases h
  · cases h
    exact .inr ⟨⟨_, rfl⟩, .inl rfl⟩
  · next hfind =>
      split at h
      · next s₁ hfree =>
          cases h
          exact .inr ⟨⟨_, rfl⟩, flowGetFreeEntry_none hp hfree⟩
      · next x s₁ hfree =>
          cases h
          exact .inl ⟨x, rfl, hfind, flowGetFreeEntry_created hp hfree⟩

theorem Created.core_new {key : FlowKey} {needHold : Bool} (hg : Good env s)
    (h : Created env s key needHold x s') :
    (s'.entry x).feAction = .drop ∧ (s'.entry x).feFlags.active = true ∧
    (s'.entry x).feFlags.evicted = false ∧ (s'.entry x).feFlags.newFlow = true ∧
    (s'.entry x).feFlags.modified = false ∧ (s'.entry x).feFlags.evictCandidate = false := by
  have hb := hg.blank x h.fresh
  have hact : (s'.entry x).feAction = (s.entry x).core.action := congrArg Core.action h.core
  have hfl : (s'.entry x).feFlags = (newCore (s.entry x).core x key needHold).flags :=
    congrArg Core.flags h.core
  rw [hact, hfl]
  refine ⟨hb.action, ?_⟩
  unfold newCore
  dsimp only
  cases ha : (s.entry x).core.flags.active with
  | false => simp
  | true => simp [hb.evicted ha, hb.modified, hb.cand]

theorem queuedCore_new (c : Core) (x : ℕ) (key : FlowKey) :
    queuedCore req (newCore c x key (decide (req.frAction = .hold))) =
      newCore c x key (decide (req.frAction = .hold)) := by
  unfold queuedCore newCore
  dsimp only
  by_cases hh : req.frAction = .hold
  · simp [hh]
  · simp [hh]

theorem flowSetAbsent_outcome (hg : Good env s) (hf : req.forceEvict = false)
    (hidx : flowGetEntry env s req.frIndex = none) (h : flowSetAbsent env o s req = some (e, s')) :
    ReqOutcome env s req o s' := by
  unfold flowSetAbsent at h
  split at h
  · cases h
  · cases h
    exact .quiet (.refl env _)
  · next rindex hok =>
      cases hactive : req.frFlags.active with
      | false =>
        simp only [hactive, Bool.not_false, if_true] at h
        cases h
        exact .quiet (.refl env _)
      | true =>
        simp only [hactive, Bool.not_true, Bool.false_eq_true, if_false] at h
        split at h
        · cases h
        · next err s₁ hadd =>
            cases h
            obtain ⟨x, hx, -⟩ | ⟨-, rfl | ⟨x, hx, hfr⟩⟩ := addFlowReq_cases hg.placed hadd
            · cases hx
            · exact .quiet (.refl env _)
            · exact .givenUp hx hfr
        · next x s₁ hadd =>
            obtain ⟨x', hx, hfind, hcr⟩ | ⟨⟨err, hx⟩, -⟩ := addFlowReq_cases hg.placed hadd
            swap
            · cases hx
            cases hx
            obtain ⟨hdrop, -, -, -, -, hcand⟩ := hcr.core_new hg
            generalize hs₂ : ({ s₁ with infop := { s₁.infop with
              vftiAdded := incr64 s₁.infop.vftiAdded } } : FlowSys) = s₂ at h
            have hq : Quiet env s₁ s₂ := hs₂ ▸ quiet_infop rfl rfl
            have hcore : (s₂.entry x).core = newCore (s.entry x).core x req.frKey
                (decide (req.frAction = .hold)) := (hq.core x).trans hcr.core
            have hdrop₂ : (s₂.entry x).feAction = .drop := (hq.action x).trans hdrop
            obtain ⟨l, hl, hrw, hinf⟩ := Scheduled.of_request (Int.toNat_natCast x)
              (flowSetEntry_rewrites (.refl env s₂ x)) ((congrArg (·.evictCandidate) (hq.flags x)).trans hcand) h
            have hqc : queuedCore req (s₂.entry x).core = (s₂.entry x).core := by
              rw [hcore, queuedCore_new]
            refine .added hidx hfind hcr hq ⟨hf, hactive, hl, by rw [hqc]; exact hrw, ?_, ?_, ?_⟩
            · intro hh
              rw [hdrop₂] at hh
              cases hh
            · intro hen
              have hinf := hinf.trans (flowSetEntry_infop_of_enters hen)
              exact ⟨by rw [hinf], by rw [hinf]⟩
            · intro hen _
              have hinf := hinf.trans (flowSetEntry_infop_of_not hen)
              exact ⟨by rw [hinf], by rw [hinf]⟩

/-- **A request has one of the listed outcomes.** -/
theorem flowSet_outcome (hg : Good env s) (h : flowSet env o s req = some (e, s')) :
    ReqOutcome env s req o s' := by
  unfold flowSet at h
  cases hf : req.forceEvict with
  | true =>
    rw [hf, if_pos rfl] at h
    obtain rfl | ⟨i, l, hforced⟩ := flowForceEvict_cases hf h
    · exact .quiet (.refl env _)
    · exact .forced hforced
  | false =>
    simp only [hf, Bool.false_eq_true, if_false] at h
    split at h
    · next hidx => exact flowSetAbsent_outcome hg hf hidx h
    · next i hi =>
        cases hu : (s.entry i).feFlags.unlocked with
        | false =>
          simp only [hu, Bool.not_false, if_true] at h
          cases h
          exact .quiet (.refl env _)
        | true =>
          simp only [hu, Bool.not_true, Bool.false_eq_true, if_false] at h
          exact flowSetFound_outcome hg hf hi hu h

end Vrouter.Flow
