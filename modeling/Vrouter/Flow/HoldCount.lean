import Mathlib.Algebra.BigOperators.Ring.Finset
import Mathlib.Algebra.Order.BigOperators.Group.Finset
import Vrouter.Flow.Steps
import Vrouter.Lib.Sum

/-! # The number of flows on hold

`vr_flow_table_hold_count` computes the number of flows on hold from a counter per CPU, of the flows
that were put on hold there, and one counter of the flows that were acted on.  The counters per CPU
together are the flows acted on and those on hold (`Counted`), also when a counter overflows and is
rebalanced, as long as no flow on hold is reset or evicted: those ways out of hold are not counted.

A flow is refused on account of the limit when more flows are on hold than it allows, and the burst
tokens are used up. -/

namespace Vrouter.Flow

open Vrouter.Htable Vrouter.Lib Function

variable {env : Env} {s s' : FlowSys} {i j x : ℕ} {o : Oracle} {req : FlowReq}

/-! ### Counting -/

/-- The number of entries whose action is hold. -/
def holdFlows (env : Env) (s : FlowSys) : ℕ :=
  ((Finset.range env.g.total).filter fun i => (s.entry i).feAction = .hold).card

def onHold (a : FlowAction) : ℕ := if a = .hold then 1 else 0

theorem holdFlows_eq_sum (env : Env) (s : FlowSys) :
    holdFlows env s = ∑ i ∈ Finset.range env.g.total, onHold (s.entry i).feAction :=
  Finset.card_filter _ _

theorem holdFlows_congr (h : ∀ i, (s'.entry i).feAction = (s.entry i).feAction) :
    holdFlows env s' = holdFlows env s := by
  rw [holdFlows_eq_sum, holdFlows_eq_sum]
  exact Finset.sum_congr rfl fun i _ => by rw [h i]

variable {c : Core} {l : List FlowMd} {cpu : ℕ}

theorem Changes.holdFlows_add (env : Env) (h : Changes s i c l s') (hi : i < env.g.total) :
    holdFlows env s' + onHold (s.entry i).feAction = holdFlows env s + onHold c.action := by
  have hc : (s'.entry i).feAction = c.action := congrArg Core.action h.core
  rw [holdFlows_eq_sum, holdFlows_eq_sum, ← hc]
  exact sum_change (fun j => onHold (s.entry j).feAction) (fun j => onHold (s'.entry j).feAction)
    (Finset.mem_range.2 hi)
    fun j hj => congrArg onHold (congrArg Core.action (h.others j hj))

/-- An entry that is not on hold is left out of the count. -/
theorem holdFlows_lt (hi : i < env.g.total) (ha : (s.entry i).feAction ≠ .hold) :
    holdFlows env s < env.g.total := by
  have hsub : (Finset.range env.g.total).filter (fun i => (s.entry i).feAction = .hold) ⊂
      Finset.range env.g.total := by
    refine Finset.filter_ssubset.2 ⟨i, Finset.mem_range.2 hi, ha⟩
  calc holdFlows env s < (Finset.range env.g.total).card := Finset.card_lt_card hsub
    _ = env.g.total := Finset.card_range _

theorem holdFlows_le (env : Env) (s : FlowSys) : holdFlows env s ≤ env.g.total := by
  calc holdFlows env s ≤ (Finset.range env.g.total).card := Finset.card_filter_le _ _
    _ = env.g.total := Finset.card_range _

/-- The flows that were put on hold, on all CPUs. -/
def sumHold (n : ℕ) (holdCount : ℕ → ℕ) : ℕ := ∑ c ∈ Finset.range n, holdCount c

/-- **Counted.**  The counters per CPU together are the flows acted on and those on hold. -/
structure Counted (env : Env) (s : FlowSys) : Prop where
  fits : ∀ c, s.infop.vftiHoldCount c < 2 ^ 32
  sum : sumHold env.vrNumCpus s.infop.vftiHoldCount =
    s.infop.vftiActionCount + holdFlows env s

theorem sumHold_update {n : ℕ} (v : ℕ) (holdCount : ℕ → ℕ) (hc : cpu < n) :
    sumHold n (update holdCount cpu v) + holdCount cpu = sumHold n holdCount + v := by
  have hs := sum_change (a := Finset.range n) holdCount (update holdCount cpu v)
    (Finset.mem_range.2 hc) fun j hj => update_of_ne hj _ _
  rw [update_self] at hs
  exact hs

theorem countHold_sum {n k : ℕ} {infop : FlowTableInfo} (hc : cpu < n)
    (hfits : ∀ c, infop.vftiHoldCount c < 2 ^ 32)
    (hsum : sumHold n infop.vftiHoldCount = infop.vftiActionCount + k) (hk : k < 2 ^ 32 - 1) :
    (∀ c, (countHold cpu infop).vftiHoldCount c < 2 ^ 32) ∧
    sumHold n (countHold cpu infop).vftiHoldCount =
      (countHold cpu infop).vftiActionCount + (k + 1) := by
  have hle : infop.vftiHoldCount cpu ≤ sumHold n infop.vftiHoldCount :=
    Finset.single_le_sum (fun _ _ => Nat.zero_le _) (Finset.mem_range.2 hc)
  have hf := hfits cpu
  have hupd : ∀ v, v < 2 ^ 32 → ∀ c, update infop.vftiHoldCount cpu v c < 2 ^ 32 := by
    intro v hv c
    by_cases hcc : c = cpu
    · rw [hcc, update_self]; exact hv
    · rw [update_of_ne hcc]; exact hfits c
  have hnew := fun v => sumHold_update v infop.vftiHoldCount hc
  unfold countHold
  dsimp only
  split_ifs with hov hact
  · refine ⟨hupd 1 (by norm_num), ?_⟩
    have := hnew 1
    dsimp only
    omega
  · -- the sum shows that some flow was acted on
    have hlt : infop.vftiHoldCount cpu - infop.vftiActionCount + 1 < 2 ^ 32 := by omega
    rw [Nat.mod_eq_of_lt hlt]
    refine ⟨hupd _ hlt, ?_⟩
    have := hnew (infop.vftiHoldCount cpu - infop.vftiActionCount + 1)
    dsimp only
    omega
  · have hlt : infop.vftiHoldCount cpu + 1 < 2 ^ 32 := by omega
    rw [Nat.mod_eq_of_lt hlt]
    refine ⟨hupd _ hlt, ?_⟩
    have := hnew (infop.vftiHoldCount cpu + 1)
    dsimp only
    omega

/-! ### The changes -/

section

variable (h : Counted env s)
include h

theorem Counted.same (hc : SameCounts s s')
    (hf : holdFlows env s' = holdFlows env s) : Counted env s' :=
  ⟨by rw [hc.holdCount]; exact h.fits, by rw [hc.holdCount, hc.actionCount, hf]; exact h.sum⟩

theorem Counted.kept (hk : Kept s s') : Counted env s' :=
  h.same ⟨hk.holdCount, hk.actionCount⟩ (holdFlows_congr hk.action)

theorem Counted.changes (hch : Changes s i c l s') (hi : i < env.g.total)
    (hc : SameCounts s s') (ha : onHold (s.entry i).feAction = onHold c.action) :
    Counted env s' := by
  have := hch.holdFlows_add env hi
  exact h.same hc (by omega)

theorem Counted.enter (htotal : env.g.total < 2 ^ 32) (hch : Changes s i c l s')
    (hi : i < env.g.total) (hc : CountedHold cpu s s') (hcpu : cpu < env.vrNumCpus)
    (ha : (s.entry i).feAction ≠ .hold) (ha' : c.action = .hold) : Counted env s' := by
  have hn := hch.holdFlows_add env hi
  rw [onHold, onHold, if_neg ha, if_pos ha'] at hn
  have hlt := holdFlows_lt hi ha
  obtain ⟨h1, h2⟩ := countHold_sum hcpu h.fits h.sum (by omega)
  refine ⟨by rw [hc.holdCount]; exact h1, ?_⟩
  rw [hc.holdCount, hc.actionCount, h2]
  omega

theorem Counted.sum_lt (hcpus : env.vrNumCpus ≤ 2 ^ 32) :
    sumHold env.vrNumCpus s.infop.vftiHoldCount < 2 ^ 64 := by
  calc sumHold env.vrNumCpus s.infop.vftiHoldCount
      ≤ (Finset.range env.vrNumCpus).card • (2 ^ 32 - 1) :=
        Finset.sum_le_card_nsmul _ _ _ fun c _ => Nat.le_sub_one_of_lt (h.fits c)
    _ = env.vrNumCpus * (2 ^ 32 - 1) := by rw [Finset.card_range]; rfl
    _ ≤ 2 ^ 32 * (2 ^ 32 - 1) := Nat.mul_le_mul_right _ hcpus
    _ < 2 ^ 64 := by decide

theorem Counted.leave (hcpus : env.vrNumCpus ≤ 2 ^ 32)
    (hch : Changes s i c l s') (hi : i < env.g.total) (hc : CountedAction s s')
    (ha : (s.entry i).feAction = .hold) (ha' : c.action ≠ .hold) : Counted env s' := by
  have hn := hch.holdFlows_add env hi
  rw [onHold, onHold, if_pos ha, if_neg ha'] at hn
  have hlt := h.sum_lt hcpus
  have hsum := h.sum
  refine ⟨by rw [hc.holdCount]; exact h.fits, ?_⟩
  rw [hc.holdCount, hc.actionCount, incr64, Nat.mod_eq_of_lt (by omega)]
  omega

end

theorem Frees.sameCounts (h : Frees env s i c s') : SameCounts s s' :=
  ⟨h.holdCount, h.actionCount⟩

theorem Counted.frees (h : Counted env s) (hf : Frees env s i c s') (hb : Blank c)
    (hi : i < env.g.total) (ha : (s.entry i).feAction ≠ .hold) : Counted env s' := by
  refine h.changes hf.changes hi hf.sameCounts ?_
  rw [onHold, onHold, if_neg ha, hb.action]
  rfl

theorem Counted.evicts (h : Counted env s) (he : Evicts env s i s') (hi : i < env.g.total)
    (ha : Evictable s i → (s.entry i).feAction ≠ .hold) : Counted env s' := by
  obtain ⟨-, rfl⟩ | ⟨hev, hf⟩ := he
  · exact h
  · exact h.frees hf (evictCore_blank _) hi (ha hev)

theorem Counted.set {rindex : ℤ} (h : Counted env s) (htotal : env.g.total < 2 ^ 32)
    (hcpus : env.vrNumCpus ≤ 2 ^ 32) (hi : i < env.g.total)
    (hs : SetDone env s req o i rindex l s') : Counted env s' := by
  have hch := hs.rewrites.changes
  by_cases hent : EntersHold env o req (s.entry i).feAction
  · refine h.enter htotal hch hi (hs.enter hent) hent.2.2 hent.2.1 ?_
    have hc : req.frAction = .hold ∧ (s.entry i).core.action ≠ .hold := ⟨hent.1, hent.2.1⟩
    exact (if_pos hc).trans (if_neg (by have := hent.2.2; omega))
  by_cases hlv : (s.entry i).feAction = .hold ∧ req.frAction ≠ .hold
  · refine h.leave hcpus hch hi (hs.leave hlv.1 hlv.2) hlv.1 ?_
    have hc : ¬ (req.frAction = .hold ∧ (s.entry i).core.action ≠ .hold) := fun hc => hlv.2 hc.1
    rw [show (setCore env o req rindex (queuedCore req (s.entry i).core)).action = req.frAction from
      if_neg hc]
    exact hlv.2
  · refine h.changes hch hi (hs.stay hent hlv) ?_
    by_cases hc : req.frAction = .hold ∧ (s.entry i).core.action ≠ .hold
    · -- without a counter for the CPU the flow is not put on hold
      rw [show (setCore env o req rindex (queuedCore req (s.entry i).core)).action =
        (s.entry i).feAction from (if_pos hc).trans (if_pos (not_lt.mp fun hlt => hent ⟨hc.1, hc.2, hlt⟩))]
    · rw [show (setCore env o req rindex (queuedCore req (s.entry i).core)).action =
        req.frAction from if_neg hc]
      unfold onHold
      by_cases ha : (s.entry i).feAction = .hold
      · rw [if_pos ha, if_pos (by_contra fun hr => hlv ⟨ha, hr⟩)]
      · rw [if_neg ha, if_neg fun hr => hc ⟨hr, ha⟩]

/-! ### Runs -/

/-- No work item or callback resets or evicts a flow on hold. -/
def NoHoldReset (env : Env) (s : FlowSys) : FlowEvent → Prop
  | .work n _ => ∀ md ∈ s.works[n]?, md.flmdDeferData.join.isNone = true →
      md.flmdFlags.active = false → (s.entry md.flmdIndex).feAction ≠ .hold
  | .callback n _ => ∀ cb ∈ s.cbs[n]?,
      (cb.data.vfddDelete = true → (s.entry cb.vfddFe).feAction ≠ .hold) ∧
      (cb.data.vfddDelete = false → cb.data.vfddEvictFlow = true →
        ∀ i ∈ evictTargets env s cb, Evictable s i → (s.entry i).feAction ≠ .hold)
  | _ => True

instance (env : Env) (s : FlowSys) (ev : FlowEvent) : Decidable (NoHoldReset env s ev) := by
  refine ev.casesOn ?_ ?_ ?_ ?_ ?_ ?_ ?_ ?_ ?_ <;> intros <;> unfold NoHoldReset <;> infer_instance

theorem keeps_counted (htotal : env.g.total < 2 ^ 32) (hcpus : env.vrNumCpus ≤ 2 ^ 32) :
    Keeps env (NoHoldReset env) (Counted env) where
  quiet := fun _ hi hq => hi.kept hq.kept
  offer := fun _ hi => hi.same ⟨rfl, rfl⟩ rfl
  created := by
    intro s s' ev key needHold x hg hi _ _ _ hc
    refine hi.changes hc.changes hc.lt ⟨hc.holdCount, hc.actionCount⟩ ?_
    rfl
  givenUp := by
    intro s s' x hg hi hx hf
    by_cases hlt : x < env.g.total
    · refine hi.frees hf (resetCore_blank _) hlt ?_
      have : (s.entry x).feAction = .drop := (hg.blank x hx).action
      rw [this]
      simp
    · refine hi.same hf.sameCounts ?_
      rw [holdFlows_eq_sum, holdFlows_eq_sum]
      refine Finset.sum_congr rfl fun j hj => ?_
      have hjx : j ≠ x := fun h => hlt (h ▸ Finset.mem_range.1 hj)
      exact congrArg onHold (congrArg Core.action (hf.others j hjx))
  hold := fun hg hi hv _ _ ha hcpu hr hc =>
    hi.enter htotal hr.changes (hg.lt _ hv) hc hcpu (by rw [ha]; simp) rfl
  enqueue := by
    intro s i vif o hg hi hv _ _ _
    obtain ⟨-, he⟩ | ⟨q, t, -, hr, hc, he⟩ := enqueueFlow_cases env o s i ⟨s.offered, vif⟩
    · rw [he]
      exact hi.same ⟨rfl, rfl⟩ rfl
    · rw [he]
      exact (hi.changes hr.changes (hg.lt _ hv) hc rfl).same ⟨rfl, rfl⟩ rfl
  mark := fun _ hi _ hm => hi.kept hm.kept
  markHbs := fun _ hi _ _ hm => hi.kept hm.kept
  forced := fun hg hi _ hf => hi.changes hf.rewrites.changes
    (flowGetEntry_eq_some.1 hf.index).2.1 hf.counts rfl
  deleted := by
    intro s s' req o i l hg hi _ hd
    have hlt := (flowGetEntry_eq_some.1 hd.index).2.1
    by_cases ha : (s.entry i).feAction = .hold
    · exact hi.leave hcpus hd.rewrites.changes hlt (hd.leave ha) ha (by simp [deleteCore])
    · refine hi.changes hd.rewrites.changes hlt (hd.stay ha) ?_
      rw [onHold, if_neg ha]
      rfl
  set := fun _ hi _ hidx _ _ hs => hi.set htotal hcpus (flowGetEntry_eq_some.1 hidx).2.1 hs
  added := fun _ _ hi _ _ _ hc _ hs => hi.set htotal hcpus hc.lt hs
  detach := fun _ hi _ _ _ _ => hi.same ⟨rfl, rfl⟩ (holdFlows_congr fun j => (detach_kept _ j).1)
  gone := fun _ hi _ _ => hi.same ⟨rfl, rfl⟩ rfl
  deferred := fun _ hi _ _ => hi.same ⟨rfl, rfl⟩ rfl
  undeferred := by
    intro s n o md q hg hi hw hd
    have hi₂ : Counted env (flowDefer env o s md md.flmdIndex q) := by
      refine flowDefer_keeps hg hw.valid hd hi (fun s₁ hu => ?_) fun ha s₁ s₂ hi₁ hkept hf => ?_
      · exact hi.kept hu.kept
      · refine hi₁.frees hf (resetCore_blank _) (hg.lt _ hw.valid) ?_
        obtain ⟨s₀, hp, hn, hflush⟩ := hw.start
        rw [hkept.action, (hflush.same _).1]
        exact hp md hn (by rw [hd]; rfl) ha
    exact hi₂.same ⟨rfl, rfl⟩ rfl
  called := by
    intro s n o cb hg hi hp hn
    obtain ⟨hpd, hpe⟩ := hp cb hn
    have hi' : Counted env (flowDeferFinish env o s cb) := by
      refine flowDeferFinish_keeps hg (List.mem_of_getElem? hn) hi
        (fun hd _ hlt hf => hi.frees hf (resetCore_blank _) hlt (hpd hd))
        fun hd he j hj s₁ s₂ hi₁ hlt _ hsame hev => hi₁.evicts hev hlt fun her => ?_
      obtain ⟨hev', hcore⟩ := hsame her
      rw [show (s₁.entry j).feAction = (s.entry j).feAction from congrArg Core.action hcore]
      exact hpe hd he j hj hev'
    exact hi'.same ⟨rfl, rfl⟩ rfl

theorem init_counted (env : Env) : Counted env (FlowSys.init env) := by
  refine ⟨fun c => by simp [FlowSys.init], ?_⟩
  have h : holdFlows env (FlowSys.init env) = 0 := by
    rw [holdFlows_eq_sum]
    exact Finset.sum_eq_zero fun i _ => by rw [init_entry]; rfl
  rw [h]
  simp [sumHold, FlowSys.init]

theorem Counted.holdCount_eq (h : Counted env s) (htotal : env.g.total < 2 ^ 32)
    (hcpus : env.vrNumCpus ≤ 2 ^ 32) :
    flowTableHoldCount env.vrNumCpus s.infop = holdFlows env s := by
  have hsum : ((List.range env.vrNumCpus).map s.infop.vftiHoldCount).sum =
      s.infop.vftiActionCount + holdFlows env s := by
    rw [← h.sum]
    rfl
  have hlt := h.sum_lt hcpus
  rw [h.sum] at hlt
  have hle := holdFlows_le env s
  unfold flowTableHoldCount
  dsimp only
  rw [hsum, Nat.mod_eq_of_lt hlt, if_pos (Nat.le_add_right _ _), Nat.add_sub_cancel_left,
    Nat.mod_eq_of_lt (by omega)]

/-- **The number of flows on hold.**  In a run in which no flow on hold is reset or evicted, the
computed number is the real one; and a new flow that nothing else forbids is refused exactly when
the limit is exceeded and the burst tokens are used up. -/
theorem holdCount_run (htotal : env.g.total < 2 ^ 32) (hcpus : env.vrNumCpus ≤ 2 ^ 32)
    (h : Reach (flowStep env) (NoHoldReset env) (FlowSys.init env) s) :
    flowTableHoldCount env.vrNumCpus s.infop = holdFlows env s ∧
    ∀ (o : Oracle) (type : VpType), (type = .ip → o.inetAllow = true) →
      o.vifDropsNewFlows = false →
      (flowAllowNewFlow env o s type = none ↔
        env.vrFlowHoldLimit ≠ 0 ∧ env.vrFlowHoldLimit < holdFlows env s ∧
          s.infop.vftiBurstTokens % 2 ^ 32 ≤ s.infop.vftiBurstUsed) := by
  obtain ⟨-, hi⟩ := (keeps_counted htotal hcpus).run (init_counted env) h
  have hcount := hi.holdCount_eq htotal hcpus
  refine ⟨hcount, fun o type hallow hvif => ?_⟩
  unfold flowAllowNewFlow
  rw [hcount, if_neg fun ht => by simp [hallow ht.1] at ht]
  simp only [hvif, Bool.false_eq_true, if_false, Bool.and_eq_true, decide_eq_true_eq, and_assoc]
  split_ifs with hc
  · exact ⟨fun _ => hc, fun _ => rfl⟩
  · exact ⟨fun hn => absurd hn (by simp), fun hn => absurd hn hc⟩

/-- Two flows on hold, one of which is then set to forward. -/
def actedRun : List FlowEvent :=
  [.packet (tcpPacket 1 false) {}, .packet (tcpPacket 2 false) { cpu := 1 },
    .request (setReq 0 1 1 .forward) {}, .work 0 {}]

theorem holdCount_run_acted :
    ∃ s, runWhen (flowStep smallEnv) (NoHoldReset smallEnv) actedRun (FlowSys.init smallEnv) =
        some s ∧ holdFlows smallEnv s = 1 ∧ flowTableHoldCount smallEnv.vrNumCpus s.infop = 1 ∧
      flowAllowNewFlow smallEnv {} s .ip ≠ none := by
  have hrun : ((runWhen (flowStep smallEnv) (NoHoldReset smallEnv) actedRun
      (FlowSys.init smallEnv)).map (holdFlows smallEnv)) = some 1 := by
    decide +kernel
  obtain ⟨s, hs, hv⟩ := Option.map_eq_some_iff.1 hrun
  obtain ⟨h1, h2⟩ := holdCount_run (by decide) (by decide) (Reach.of_runWhen .init hs)
  refine ⟨s, hs, hv, h1.trans hv, fun hn => ?_⟩
  have hlim := ((h2 {} .ip (fun _ => rfl) rfl).1 hn).2.1
  rw [hv] at hlim
  exact absurd hlim (by decide)

/-- Two flows are put on hold, with burst tokens left. -/
def burstRun : List FlowEvent :=
  [.setBurstParams (some 10) (some 10) (some 5) {}, .burstTimeout,
    .packet (tcpPacket 1 false) {}, .packet (tcpPacket 2 false) {}]

/-- A flow on hold is closed by a reset and forced out. -/
def forcedRun : List FlowEvent :=
  [.packet (tcpPacket 1 true) {}, .request (forceReq 0 1) {}, .work 0 {}, .callback 0 {}]

/-- More flows than the limit are on hold and a new one is allowed; and after the eviction of a flow
on hold the computed number is too large. -/
theorem holdCount_differs :
    (∃ s, runWhen (flowStep smallEnv) (fun _ _ => True) burstRun (FlowSys.init smallEnv) = some s ∧
      smallEnv.vrFlowHoldLimit < holdFlows smallEnv s ∧
      flowAllowNewFlow smallEnv {} s .ip = some true) ∧
    ∃ s, runWhen (flowStep smallEnv) (fun _ _ => True) forcedRun (FlowSys.init smallEnv) = some s ∧
      flowTableHoldCount smallEnv.vrNumCpus s.infop = 1 ∧ holdFlows smallEnv s = 0 :=
  ⟨exists_of_decide (by decide +kernel), exists_of_decide (by decide +kernel)⟩

end Vrouter.Flow
