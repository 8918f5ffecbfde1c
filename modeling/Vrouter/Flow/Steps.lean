import Vrouter.Flow.Outcomes
import Vrouter.Lib.Reach

/-! # Invariants of the flow table

A step of the flow table is made of a few kinds of changes.  `Keeps` asks of a property that each
kind of change keeps it, given what is known where the change takes place; `Keeps.step` concludes
that a step keeps it, and `Keeps.run` that it holds in every state that a run reaches.  What holds
in every run, `Good`, is proved along the way.

The condition `P` on the steps of a run is on the state before a step.  A change in the middle of a
step therefore comes with what connects it to that state. -/

namespace Vrouter.Flow

open Vrouter.Htable Vrouter.Lib

variable {env : Env} {s s' s'' : FlowSys} {i j r x : ℕ} {o : Oracle} {req : FlowReq}

/-! ### What holds in every run -/

variable {l : List FlowMd} {key : FlowKey} {cb : FlowDefer} {md : FlowMd} {q : Option FlowQueue}
  {needHold : Bool} {ev : FlowEvent}

section

variable (hg : Good env s)
include hg

theorem Good.created (h : Created env s key needHold x s') : Good env s' := by
  obtain ⟨-, ha, he, hn, -, -⟩ := h.core_new hg
  have hfl : (s'.entry x).feFlags = (newCore (s.entry x).core x key needHold).flags :=
    congrArg Core.flags h.core
  rw [hfl] at ha he hn
  refine hg.changes h.changes h.placed (fun _ => ⟨h.lt, ha, he⟩) (fun _ => .inr hn) fun hv => ?_
  simp [h.valid] at hv

theorem Good.forced (h : Forced env s req o i l s') : Good env s' := by
  obtain ⟨-, -, hv⟩ := flowGetEntry_eq_some.1 h.index
  obtain ⟨ha, he⟩ := hg.live i hv
  refine hg.rewrites h.rewrites hv ha he fun _ => ?_
  change ((s.entry i).feFlags.modified || (s.entry i).feFlags.unlocked) = true ∨
    (s.entry i).feFlags.newFlow = true
  unfold FlowFlags.unlocked
  rw [he]
  cases (s.entry i).feFlags.modified <;> cases (s.entry i).feFlags.newFlow <;> simp

theorem Good.deleted (h : Deleted env s req o i l s') : Good env s' := by
  obtain ⟨-, -, hv⟩ := flowGetEntry_eq_some.1 h.index
  obtain ⟨ha, he⟩ := hg.live i hv
  exact hg.rewrites h.rewrites hv ha he fun _ => .inl rfl

theorem Good.setDone {rindex : ℤ} (hv : s.valid i = true)
    (hc : (s.entry i).feFlags.evictCandidate = false) (h : SetDone env s req o i rindex l s') :
    Good env s' := by
  refine hg.rewrites h.rewrites hv h.active (hg.live i hv).2 fun hcand => ?_
  have : (s.entry i).feFlags.evictCandidate = true := hcand
  simp [hc] at this

/-! ### Work items and callbacks -/

theorem Good.offer : Good env { s with offered := s.offered + 1 } :=
  ⟨hg.placed.congr rfl, hg.lt, hg.live, hg.cand, hg.blank, hg.flushed⟩

theorem Good.deferred (hlt : cb.vfddFe < env.g.total)
    (hq : ∀ q, cb.data.vfddFlowQueue = some q → ∀ k, q.vfqPnodes k = none) (w : List FlowMd) :
    Good env { s with works := w, cbs := s.cbs ++ [cb] } := by
  refine ⟨hg.placed.congr rfl, hg.lt, hg.live, hg.cand, hg.blank, fun cb' hcb' => ?_⟩
  rcases List.mem_append.1 hcb' with h | h
  · exact hg.flushed cb' h
  · rw [List.mem_singleton] at h
    rw [h]
    exact ⟨hlt, hq⟩

theorem Good.cbs {c : List FlowDefer} (hc : ∀ cb ∈ c, cb ∈ s.cbs) : Good env { s with cbs := c } :=
  ⟨hg.placed.congr rfl, hg.lt, hg.live, hg.cand, hg.blank, fun cb h => hg.flushed cb (hc cb h)⟩

end

theorem Rewrites.resetEvict (hc : s' = flowResetEvict s i) :
    Rewrites env s i { (s.entry i).core with flags := { (s.entry i).core.flags with
      modified := false, evictCandidate := false } } [] s' := by
  rw [hc, flowResetEvict_eq]
  exact (Rewrites.refl env s i).setEntry FlowEntry.unmark (fun c => { c with
    flags := { c.flags with modified := false, evictCandidate := false } })
    fun _ => ⟨rfl, rfl, rfl⟩

theorem Good.resetEvict (hg : Good env s) (hv : s.valid i = true) :
    Good env (flowResetEvict s i) :=
  hg.rewrites (Rewrites.resetEvict rfl) hv (hg.live i hv).1 (hg.live i hv).2
    fun h => absurd h (by simp)

/-- The entries that a work item without deferred data unmarks. -/
def Unmarks (env : Env) (s : FlowSys) (i j : ℕ) : Prop :=
  j = i ∨ (s.entry i).feRflow ≠ 0 ∧ flowGetEntry env s (s.entry i).feRflow = some j

instance (env : Env) (s : FlowSys) (i j : ℕ) : Decidable (Unmarks env s i j) :=
  inferInstanceAs (Decidable (_ ∨ _))

/-- What unmarking a flow and its reverse flow does. -/
structure Unmarked (env : Env) (s : FlowSys) (i : ℕ) (s' : FlowSys) : Prop where
  entry : ∀ j, s'.entry j = if Unmarks env s i j then (s.entry j).unmark else s.entry j
  valid : ∀ j, s'.valid j = s.valid j
  works : s'.works = s.works
  cbs : s'.cbs = s.cbs
  clock : s'.clock = s.clock
  born : s'.born = s.born
  accepted : s'.accepted = s.accepted
  done : s'.done = s.done
  offered : s'.offered = s.offered
  infop : s'.infop = s.infop

theorem flowResetEvictPair_unmarked (env : Env) (s : FlowSys) (i : ℕ) :
    Unmarked env s i (flowResetEvictPair env s i) := by
  unfold flowResetEvictPair
  dsimp only
  have hone : ∀ t : FlowSys, ∀ k j, (flowResetEvict t k).entry j =
      if j = k then (t.entry j).unmark else t.entry j := by
    intro t k j
    rw [flowResetEvict_eq]
    split_ifs with h
    · rw [h, entry_setEntry_same]
    · rw [entry_setEntry_ne _ h]
  have hval : ∀ t : FlowSys, ∀ k j, (flowResetEvict t k).valid j = t.valid j := by
    intro t k j
    rw [flowResetEvict_eq, valid_setEntry]
  by_cases h0 : (s.entry i).feRflow ≠ 0
  · rw [if_pos h0]
    cases hr : flowGetEntry env s (s.entry i).feRflow with
    | none =>
      refine ⟨fun j => ?_, hval s i, rfl, rfl, rfl, rfl, rfl, rfl, rfl, rfl⟩
      rw [hone]
      simp [Unmarks, hr]
    | some r =>
      refine ⟨fun j => ?_, fun j => ?_, rfl, rfl, rfl, rfl, rfl, rfl, rfl, rfl⟩
      · have hu : Unmarks env s i j ↔ j = i ∨ j = r := by
          unfold Unmarks
          rw [hr, Option.some.injEq]
          exact ⟨fun h => h.imp id fun h => h.2.symm, fun h => h.imp id fun h => ⟨h0, h.symm⟩⟩
        rw [hone, hone]
        simp only [hu]
        by_cases hji : j = i
        · rw [if_pos hji, if_pos (Or.inl hji : j = i ∨ j = r)]
          split_ifs <;> rfl
        · rw [if_neg hji]
          by_cases hjr : j = r
          · rw [if_pos hjr, if_pos (Or.inr hjr)]
          · rw [if_neg hjr, if_neg (by tauto)]
      · rw [hval, hval]
  · rw [if_neg h0]
    refine ⟨fun j => ?_, hval s i, rfl, rfl, rfl, rfl, rfl, rfl, rfl, rfl⟩
    rw [hone]
    unfold Unmarks
    simp only [h0, false_and, or_false]

theorem Unmarked.kept (h : Unmarked env s i s') : Kept s s' := by
  refine ⟨fun j => ?_, fun j => ?_, fun j => ?_, h.valid, ⟨[], by rw [h.works, List.append_nil]⟩,
    h.cbs, h.clock, h.born, h.accepted, h.done, h.offered, by rw [h.infop], by rw [h.infop]⟩
  all_goals
    rw [h.entry j]
    split_ifs <;> rfl

theorem Good.resetEvictPair (hg : Good env s) (hv : s.valid i = true) :
    Good env (flowResetEvictPair env s i) := by
  unfold flowResetEvictPair
  dsimp only
  split_ifs
  · split
    · next r hr =>
        obtain ⟨-, -, hvr⟩ := flowGetEntry_eq_some.1 hr
        refine (hg.resetEvict hvr).resetEvict ?_
        rw [flowResetEvict_eq, valid_setEntry]
        exact hv
    · exact hg.resetEvict hv
  · exact hg.resetEvict hv

theorem Good.resetEntry (hg : Good env s) (hi : i < env.g.total) :
    Good env (flowResetEntry env o s i) :=
  hg.frees (flowResetEntry_frees (hg.placed.but i) hi o) (resetCore_blank _)

/-- The eviction of one flow by a callback. -/
def Evicts (env : Env) (s : FlowSys) (i : ℕ) (s' : FlowSys) : Prop :=
  (¬ Evictable s i ∧ s' = s) ∨
  (Evictable s i ∧ Frees env s i (evictCore (s.entry i).core) s')

theorem Good.evicts (hg : Good env s) (h : Evicts env s i s') : Good env s' := by
  obtain ⟨-, rfl⟩ | ⟨-, hf⟩ := h
  · exact hg
  · exact hg.frees hf (evictCore_blank _)

theorem Evicts.core_of_ne (h : Evicts env s i s') {j : ℕ} (hj : j ≠ i) :
    (s'.entry j).core = (s.entry j).core := by
  obtain ⟨-, rfl⟩ | ⟨-, hf⟩ := h
  · rfl
  · exact hf.others j hj

theorem Evicts.not_evictable (h : Evicts env s i s') : ¬ Evictable s' i := by
  obtain ⟨hn, rfl⟩ | ⟨-, hf⟩ := h
  · exact hn
  · intro he
    have hc : (s'.entry i).feFlags.evictCandidate = false :=
      congrArg (fun c : Core => c.flags.evictCandidate) hf.core
    simp [he.2] at hc

/-- What a callback does at its end: it resets its flow, evicts it with its reverse flow, or does
nothing. -/
inductive Finishes (env : Env) (s : FlowSys) (cb : FlowDefer) : FlowSys → Prop
  | reset {s' : FlowSys} : cb.data.vfddDelete = true →
      Frees env s cb.vfddFe (resetCore (s.entry cb.vfddFe).core) s' → Finishes env s cb s'
  | evictOne {s' : FlowSys} : cb.data.vfddDelete = false → cb.data.vfddEvictFlow = true →
      flowGetEntry env s (s.entry cb.vfddFe).feRflow = none → Evicts env s cb.vfddFe s' →
      Finishes env s cb s'
  | evictBoth {s₁ s' : FlowSys} {r : ℕ} : cb.data.vfddDelete = false →
      cb.data.vfddEvictFlow = true → flowGetEntry env s (s.entry cb.vfddFe).feRflow = some r →
      Evicts env s cb.vfddFe s₁ → Evicts env s₁ r s' → Finishes env s cb s'
  | nothing : cb.data.vfddDelete = false → cb.data.vfddEvictFlow = false → Finishes env s cb s

theorem flowDeferFinish_finishes (hg : Good env s) (hlt : cb.vfddFe < env.g.total) :
    Finishes env s cb (flowDeferFinish env o s cb) := by
  unfold flowDeferFinish
  cases hd : cb.data.vfddDelete with
  | true =>
    rw [if_pos rfl]
    exact .reset hd (flowResetEntry_frees (hg.placed.but _) hlt o)
  | false =>
    rw [if_neg (by simp)]
    cases he : cb.data.vfddEvictFlow with
    | false =>
      rw [if_neg (by simp)]
      exact .nothing hd he
    | true =>
      rw [if_pos rfl]
      have h1 : Evicts env s cb.vfddFe _ := flowEvictFlow_cases (hg.placed.but cb.vfddFe) hlt o
      dsimp only
      cases hr : flowGetEntry env s (s.entry cb.vfddFe).feRflow with
      | none => exact .evictOne hd he hr h1
      | some r =>
        exact .evictBoth hd he hr h1 (flowEvictFlow_cases ((hg.evicts h1).placed.but r)
          (flowGetEntry_eq_some.1 hr).2.1 o)

theorem Evicts.works (h : Evicts env s i s') : s'.works = s.works := by
  obtain ⟨-, rfl⟩ | ⟨-, hf⟩ := h
  · rfl
  · exact hf.works

theorem Finishes.works (h : Finishes env s cb s') : s'.works = s.works := by
  cases h with
  | reset _ hf => exact hf.works
  | evictOne _ _ _ he => exact he.works
  | evictBoth _ _ _ he he' => exact he'.works.trans he.works
  | nothing => rfl

/-- The entries that a callback may evict. -/
def evictTargets (env : Env) (s : FlowSys) (cb : FlowDefer) : List ℕ :=
  cb.vfddFe :: (flowGetEntry env s (s.entry cb.vfddFe).feRflow).toList

instance (s : FlowSys) (i : ℕ) : Decidable (Evictable s i) := inferInstanceAs (Decidable (_ ∧ _))

/-- A callback keeps what its reset and its evictions keep. -/
theorem flowDeferFinish_keeps {I : FlowSys → Prop} (hg : Good env s) (hcb : cb ∈ s.cbs) (hi : I s)
    (reset : cb.data.vfddDelete = true → ∀ s', cb.vfddFe < env.g.total →
      Frees env s cb.vfddFe (resetCore (s.entry cb.vfddFe).core) s' → I s')
    (evict : cb.data.vfddDelete = false → cb.data.vfddEvictFlow = true →
      ∀ j ∈ evictTargets env s cb, ∀ s₁ s₂, I s₁ → j < env.g.total → s₁.works = s.works →
      (Evictable s₁ j → Evictable s j ∧ (s₁.entry j).core = (s.entry j).core) →
      Evicts env s₁ j s₂ → I s₂) : I (flowDeferFinish env o s cb) := by
  have hlt := (hg.flushed cb hcb).1
  have hfin := flowDeferFinish_finishes (o := o) hg hlt
  generalize flowDeferFinish env o s cb = s' at hfin
  have hself : cb.vfddFe ∈ evictTargets env s cb := List.mem_cons_self
  cases hfin with
  | reset hd hf => exact reset hd s' hlt hf
  | evictOne hd he _ hev => exact evict hd he _ hself s s' hi hlt rfl (fun h => ⟨h, rfl⟩) hev
  | @evictBoth s₁ _ r hd he hr hev hev' =>
    refine evict hd he r (by simp [evictTargets, hr]) s₁ s'
      (evict hd he _ hself s s₁ hi hlt rfl (fun h => ⟨h, rfl⟩) hev)
      (flowGetEntry_eq_some.1 hr).2.1 hev.works (fun her => ?_) hev'
    have hcore := hev.core_of_ne fun hrf => hev.not_evictable (hrf ▸ her)
    refine ⟨?_, hcore⟩
    have hflags : (s₁.entry r).feFlags = (s.entry r).feFlags := congrArg Core.flags hcore
    unfold Evictable at her ⊢
    rwa [← hflags]
  | nothing => exact hi

theorem flowDeferCb_eq (hg : Good env s) (hm : cb ∈ s.cbs) (h : flowDeferCb env o s cb = some s') :
    s' = flowDeferFinish env o s cb := by
  unfold flowDeferCb at h
  split at h
  · exact (Option.some.inj h).symm
  · next q hq =>
      rw [flowFlushHoldQueue_empty ((hg.flushed cb hm).2 q hq)] at h
      exact (Option.some.inj h).symm

theorem flowDefer_none (hg : Good env s) (hv : s.valid md.flmdIndex = true)
    (hd : md.flmdDeferData.join = none) :
    ∃ s₁, Good env s₁ ∧
      (md.flmdFlags.evictCandidate = true → Unmarked env s md.flmdIndex s₁) ∧
      (md.flmdFlags.evictCandidate = false → s₁ = s) ∧
      (md.flmdFlags.active = false → Frees env s₁ md.flmdIndex
        (resetCore (s₁.entry md.flmdIndex).core) (flowDefer env o s md md.flmdIndex q)) ∧
      (md.flmdFlags.active = true → flowDefer env o s md md.flmdIndex q = s₁) := by
  have hlt := hg.lt _ hv
  unfold flowDefer
  rw [hd]
  dsimp only
  refine ⟨if md.flmdFlags.evictCandidate then flowResetEvictPair env s md.flmdIndex else s, ?_,
    fun hc => ?_, fun hc => ?_, fun ha => ?_, fun ha => ?_⟩
  · split_ifs
    · exact hg.resetEvictPair hv
    · exact hg
  · rw [if_pos hc]
    exact flowResetEvictPair_unmarked env s _
  · rw [if_neg (by simp [hc])]
  · rw [if_pos (show (!md.flmdFlags.active) = true by simp [ha])]
    refine flowResetEntry_frees (Placed.but ?_ _) hlt o
    split_ifs
    · exact (hg.resetEvictPair hv).placed
    · exact hg.placed
  · rw [if_neg (show ¬ (!md.flmdFlags.active) = true by simp [ha])]

/-- The end of a work item without deferred data keeps what the unmarking of its flows and the reset
of its flow keep. -/
theorem flowDefer_keeps {I : FlowSys → Prop} (hg : Good env s) (hv : s.valid md.flmdIndex = true)
    (hd : md.flmdDeferData.join = none) (hi : I s)
    (unmarked : ∀ s₁, Unmarked env s md.flmdIndex s₁ → I s₁)
    (reset : md.flmdFlags.active = false → ∀ s₁ s₂, I s₁ → Kept s s₁ →
      Frees env s₁ md.flmdIndex (resetCore (s₁.entry md.flmdIndex).core) s₂ → I s₂) :
    I (flowDefer env o s md md.flmdIndex q) := by
  obtain ⟨s₁, -, h1, h2, h3, h4⟩ := flowDefer_none (o := o) (q := q) hg hv hd
  obtain ⟨hi₁, hkept⟩ : I s₁ ∧ Kept s s₁ := by
    cases hc : md.flmdFlags.evictCandidate with
    | false => rw [h2 hc]; exact ⟨hi, (Quiet.refl env s).kept⟩
    | true => exact ⟨unmarked s₁ (h1 hc), (h1 hc).kept⟩
  cases ha : md.flmdFlags.active with
  | true => rw [h4 ha]; exact hi₁
  | false => exact reset ha s₁ _ hi₁ hkept (h3 ha)

theorem detach_kept (q : FlowQueue) (j : ℕ) :
    ((s.detach i q).entry j).feAction = (s.entry j).feAction ∧
      ((s.detach i q).entry j).feRflow = (s.entry j).feRflow ∧
      ((s.detach i q).entry j).feFlags = (s.entry j).feFlags := by
  by_cases hj : j = i
  · rw [hj, detach_entry_same]
    exact ⟨rfl, rfl, rfl⟩
  · rw [detach_entry_ne _ hj]
    exact ⟨rfl, rfl, rfl⟩

/-- The flush of a work item for the flow `i`: the queue stays where it is, or its packets are
processed. -/
inductive FlushStep (env : Env) (s : FlowSys) (i : ℕ) : FlowSys → Prop
  | kept : (s.entry i).feHoldList = none ∨ (s.entry i).feAction = .hold → FlushStep env s i s
  | flushed {q : FlowQueue} {s₁ : FlowSys} : (s.entry i).feHoldList = some q →
      (s.entry i).feAction ≠ .hold → Marks env (s.detach i q) s₁ → FlushStep env s i s₁

theorem FlushStep.same (h : FlushStep env s i s') (j : ℕ) :
    (s'.entry j).feAction = (s.entry j).feAction ∧
      (s'.entry j).feRflow = (s.entry j).feRflow ∧ s'.valid j = s.valid j := by
  cases h with
  | kept => exact ⟨rfl, rfl, rfl⟩
  | @flushed q _ _ _ hm =>
    exact ⟨(hm.kept.action j).trans (detach_kept q j).1,
      (hm.kept.rflow j).trans (detach_kept q j).2.1, (hm.kept.valid j).trans (detach_valid q j)⟩

/-- A work item finds no flow, or flushes the hold queue of its flow and comes to its end. -/
theorem flowWork_cases (hg : Good env s) (h : flowWork env o s md = some s') :
    (s.valid md.flmdIndex = false ∧ s' = s) ∨
    ∃ s₁ q, s.valid md.flmdIndex = true ∧ FlushStep env s md.flmdIndex s₁ ∧
      (∀ q', q = some q' → ∀ k, q'.vfqPnodes k = none) ∧
      s' = flowDefer env o s₁ md md.flmdIndex q := by
  unfold flowWork at h
  cases hget : flowGetEntry env s md.flmdIndex with
  | none =>
    simp only [hget, Option.some.injEq] at h
    refine .inl ⟨?_, h.symm⟩
    by_contra hv
    rw [hg.flowGetEntry.2 ⟨rfl, by simpa using hv⟩] at hget
    simp at hget
  | some i =>
    simp only [hget] at h
    obtain ⟨hidx, -, hv⟩ := flowGetEntry_eq_some.1 hget
    obtain rfl : i = md.flmdIndex := by exact_mod_cast hidx.symm
    obtain ⟨⟨q, s₁⟩, hfl, hs'⟩ := Option.map_eq_some_iff.1 h
    obtain ⟨rfl, rfl, hnone⟩ | ⟨q₀, hq₀, ha, rfl, hm⟩ := flushEntry_cases hg hv hfl
    · exact .inr ⟨s₁, none, hv, .kept hnone, fun q' hq' => absurd hq' (by simp), hs'.symm⟩
    · exact .inr ⟨s₁, _, hv, .flushed hq₀ ha hm,
        fun q' hq' k => by rw [← Option.some.inj hq']; rfl, hs'.symm⟩

/-! ### The rule -/

/-- The key under which an event may create a flow. -/
def Creates (env : Env) (s : FlowSys) : FlowEvent → FlowKey → Prop
  | .packet pkt _, key => pkt.relaxed = false ∧ key = pkt.key
  | .request req _, key => req.forceEvict = false ∧ req.frFlags.active = true ∧
      flowGetEntry env s req.frIndex = none ∧ key = req.frKey
  | _, _ => False

/-- The free entry that a new flow with the key would get meets `Q`. -/
def FreeEntry (env : Env) (s : FlowSys) (key : FlowKey) (Q : ℕ → Prop) : Prop :=
  findFlow env s key = some none →
    ∀ p ∈ findFreeHentry env.g s.table.tbl (env.hash (key, key.len)), Q p.1

instance (env : Env) (s : FlowSys) (key : FlowKey) (Q : ℕ → Prop) [DecidablePred Q] :
    Decidable (FreeEntry env s key Q) :=
  inferInstanceAs (Decidable (_ → ∀ p ∈ findFreeHentry env.g s.table.tbl _, Q p.1))

/-- An event that creates a flow does so in an entry that meets `Q`. -/
def CreatesIn (env : Env) (s : FlowSys) (Q : ℕ → Prop) : FlowEvent → Prop
  | .packet pkt _ => pkt.relaxed = false → FreeEntry env s pkt.key Q
  | .request req _ => req.forceEvict = false → req.frFlags.active = true →
      flowGetEntry env s req.frIndex = none → FreeEntry env s req.frKey Q
  | _ => True

instance (env : Env) (s : FlowSys) (Q : ℕ → Prop) [DecidablePred Q] (ev : FlowEvent) :
    Decidable (CreatesIn env s Q ev) := by
  cases ev <;> unfold CreatesIn <;> infer_instance

theorem CreatesIn.created {Q : ℕ → Prop} (hp : CreatesIn env s Q ev) (hc : Creates env s ev key)
    (hf : findFlow env s key = some none) (h : Created env s key needHold x s') : Q x := by
  obtain ⟨t, ht⟩ := h.taken
  cases ev with
  | packet pkt o =>
    obtain ⟨hrel, rfl⟩ := hc
    exact hp hrel hf _ ht
  | request req o =>
    obtain ⟨hforce, hact, hidx, rfl⟩ := hc
    exact hp hforce hact hidx hf _ ht
  | hbsPacket | work | callback | tableWork | tableDeferred | burstTimeout | setBurstParams =>
    exact hc.elim

/-- The flow that a packet from a host based service belongs to. -/
def hbsFlow (env : Env) (s : FlowSys) (index : ℕ) (fromVmi : Bool) : Option ℕ :=
  (flowGetEntry env s index).bind fun k =>
    if fromVmi then flowGetEntry env s (s.entry k).feRflow else some k

/-- The packet queue that a packet is put into, in the middle of a step. -/
def Offers (env : Env) (P : FlowSys → FlowEvent → Prop) (s : FlowSys) (i : ℕ) : Prop :=
  (∃ s₀ pkt o, P s₀ (.packet pkt o) ∧ findFlow env s₀ pkt.key = some (some i) ∧ Quiet env s₀ s) ∨
  ∃ q, (s.entry i).feHoldList = some q ∧ q.vfqEntries = 0

/-- The state `s` is in the middle of running the work item `n`, past the flush. -/
structure InWork (env : Env) (P : FlowSys → FlowEvent → Prop) (n : ℕ) (o : Oracle) (md : FlowMd)
    (s : FlowSys) : Prop where
  start : ∃ s₀, P s₀ (.work n o) ∧ s₀.works[n]? = some md ∧ FlushStep env s₀ md.flmdIndex s
  item : s.works[n]? = some md
  valid : s.valid md.flmdIndex = true
  flushed : (s.entry md.flmdIndex).feHoldList = none ∨ (s.entry md.flmdIndex).feAction = .hold

/-- **The kinds of changes.**  Under the condition `P` on steps, every kind of change keeps `I`. -/
structure Keeps (env : Env) (P : FlowSys → FlowEvent → Prop) (I : FlowSys → Prop) : Prop where
  quiet : ∀ {s s' : FlowSys}, Good env s → I s → Quiet env s s' → I s'
  offer : ∀ {s : FlowSys}, Good env s → I s → I { s with offered := s.offered + 1 }
  created : ∀ {s s' : FlowSys} {ev : FlowEvent} {key : FlowKey} {needHold : Bool} {x : ℕ},
    Good env s → I s → P s ev → Creates env s ev key → findFlow env s key = some none →
    Created env s key needHold x s' → I s'
  givenUp : ∀ {s s' : FlowSys} {x : ℕ}, Good env s → I s → s.valid x = false →
    Frees env s x (resetCore (s.entry x).core) s' → I s'
  hold : ∀ {s s' : FlowSys} {x cpu : ℕ}, Good env s → I s → s.valid x = true →
    (s.entry x).feFlags.newFlow = true → (s.entry x).feFlags.evictCandidate = false →
    (s.entry x).feAction = .drop → cpu < env.vrNumCpus →
    Rewrites env s x { (s.entry x).core with action := .hold } [] s' → CountedHold cpu s s' → I s'
  enqueue : ∀ {s : FlowSys} {i vif : ℕ} {o : Oracle}, Good env s → I s → s.valid i = true →
    (s.entry i).feAction = .hold → (s.entry i).feFlags.evictCandidate = false → Offers env P s i →
    I { enqueueFlow o s i ⟨s.offered, vif⟩ with offered := s.offered + 1 }
  mark : ∀ {s s' : FlowSys} {i : ℕ} {rev : Option ℕ} {md : FlowMd}, Good env s → I s →
    (s.entry i).feAction ≠ .hold → Marking env s i rev md s' → I s'
  markHbs : ∀ {s s' : FlowSys} {index i : ℕ} {fromVmi : Bool} {o : Oracle} {rev : Option ℕ}
    {md : FlowMd}, Good env s → I s → P s (.hbsPacket index fromVmi o) →
    hbsFlow env s index fromVmi = some i → Marking env s i rev md s' → I s'
  forced : ∀ {s s' : FlowSys} {req : FlowReq} {o : Oracle} {i : ℕ} {l : List FlowMd}, Good env s →
    I s → P s (.request req o) → Forced env s req o i l s' → I s'
  deleted : ∀ {s s' : FlowSys} {req : FlowReq} {o : Oracle} {i : ℕ} {l : List FlowMd}, Good env s →
    I s → P s (.request req o) → Deleted env s req o i l s' → I s'
  set : ∀ {s s' : FlowSys} {req : FlowReq} {o : Oracle} {i : ℕ} {rindex : ℤ} {l : List FlowMd},
    Good env s → I s → P s (.request req o) → flowGetEntry env s req.frIndex = some i →
    (s.entry i).feFlags.unlocked = true → (s.entry i).feFlags.deleteMarked = false →
    SetDone env s req o i rindex l s' → I s'
  added : ∀ {s₀ s₁ s s' : FlowSys} {req : FlowReq} {o : Oracle} {needHold : Bool} {x : ℕ}
    {rindex : ℤ} {l : List FlowMd}, Good env s₀ → Good env s → I s → P s₀ (.request req o) →
    Creates env s₀ (.request req o) req.frKey → findFlow env s₀ req.frKey = some none →
    Created env s₀ req.frKey needHold x s₁ → Quiet env s₁ s → SetDone env s req o x rindex l s' →
    I s'
  detach : ∀ {s : FlowSys} {n : ℕ} {md : FlowMd} {q : FlowQueue}, Good env s → I s →
    s.works[n]? = some md → s.valid md.flmdIndex = true →
    (s.entry md.flmdIndex).feHoldList = some q → (s.entry md.flmdIndex).feAction ≠ .hold →
    I (s.detach md.flmdIndex q)
  gone : ∀ {s : FlowSys} {n : ℕ} {md : FlowMd}, Good env s → I s → s.works[n]? = some md →
    s.valid md.flmdIndex = false → I { s with works := s.works.eraseIdx n }
  deferred : ∀ {s : FlowSys} {n : ℕ} {o : Oracle} {md : FlowMd} {data : FlowDeferData}
    {q : Option FlowQueue}, Good env s → I s → InWork env P n o md s →
    md.flmdDeferData.join = some data → I { s with
      works := s.works.eraseIdx n
      cbs := s.cbs ++ [⟨md.flmdIndex, { data with vfddFlowQueue := q }, md.stamp, md.rev⟩] }
  undeferred : ∀ {s : FlowSys} {n : ℕ} {o : Oracle} {md : FlowMd} {q : Option FlowQueue},
    Good env s → I s → InWork env P n o md s → md.flmdDeferData.join = none →
    I { flowDefer env o s md md.flmdIndex q with works := s.works.eraseIdx n }
  called : ∀ {s : FlowSys} {n : ℕ} {o : Oracle} {cb : FlowDefer}, Good env s → I s →
    P s (.callback n o) → s.cbs[n]? = some cb →
    I { flowDeferFinish env o s cb with cbs := s.cbs.eraseIdx n }

namespace Keeps

variable {P : FlowSys → FlowEvent → Prop} {I : FlowSys → Prop}

theorem marks (hk : Keeps env P I) (hg : Good env s) (hi : I s) (h : Marks env s s') : I s' := by
  induction h with
  | refl => exact hi
  | quiet hm hq ih => exact hk.quiet (hg.marks hm) ih hq
  | mark hm ha hmk ih => exact hk.mark (hg.marks hm) ih ha hmk

end Keeps

/-! ### Packets -/

theorem flowStartBurstProcessing_counts (ok : Bool) (infop : FlowTableInfo) :
    (flowStartBurstProcessing ok infop).vftiHoldCount = infop.vftiHoldCount ∧
      (flowStartBurstProcessing ok infop).vftiActionCount = infop.vftiActionCount := by
  unfold flowStartBurstProcessing
  split_ifs
  · exact ⟨rfl, rfl⟩
  · cases infop.vftiTimer with
    | absent => cases ok <;> exact ⟨rfl, rfl⟩
    | running => exact ⟨rfl, rfl⟩
    | stopped => exact ⟨rfl, rfl⟩
  · cases infop.vftiTimer <;> exact ⟨rfl, rfl⟩

theorem flowEntrySetHold_counted (burst : Bool) (hcpu : o.cpu < env.vrNumCpus) :
    CountedHold o.cpu s (flowEntrySetHold env o s i burst) := by
  unfold flowEntrySetHold
  rw [if_neg (by omega)]
  cases burst with
  | false => exact ⟨rfl, rfl⟩
  | true =>
    obtain ⟨h1, h2⟩ := flowStartBurstProcessing_counts o.timerOk
      { countHold o.cpu s.infop with
        vftiBurstUsed := incr64 (countHold o.cpu s.infop).vftiBurstUsed }
    exact ⟨h1, h2⟩

/-- The entry `i` holds a flow with the key. -/
def HoldsFlow (env : Env) (s : FlowSys) (i : ℕ) (key : FlowKey) : Prop :=
  i < env.g.total ∧ s.valid i = true ∧ flowGetKey (s.entry i) = some (key, key.len)

/-- `vr_find_flow` finds a flow with the key if there is one. -/
theorem findFlow_spec (h : Placed env s) (key : FlowKey) :
    ∃ res, findFlow env s key = some res ∧ (∀ i, res = some i → HoldsFlow env s i key) ∧
      (res = none → ∀ i, ¬ HoldsFlow env s i key) := by
  obtain ⟨place, hinv, -, hhome⟩ := h
  have hlive : ∀ i, Live env.g flowGetKey s.table.tbl i (key, key.len) ↔ HoldsFlow env s i key := by
    intro i
    unfold Live HoldsFlow holdsKey
    rw [Bool.and_eq_true, decide_eq_true_eq]
    rfl
  obtain ⟨res, hres, h1, h2⟩ := hinv.find flowGetKey env.hash (key, key.len) (by
    intro i hi
    obtain ⟨-, hv, hk⟩ := (hlive i).1 hi
    have := hhome i hv
    unfold flowGetKey at hk
    split_ifs at hk
    rwa [Option.some.inj hk] at this)
  exact ⟨res, hres, fun i hi => (hlive i).1 (h1 i hi), fun hn i hi => h2 hn i ((hlive i).2 hi)⟩

theorem findFlow_some (hg : Good env s) (h : findFlow env s key = some (some i)) :
    HoldsFlow env s i key := by
  obtain ⟨res, hres, h1, -⟩ := findFlow_spec hg.placed key
  exact h1 i (Option.some.inj (hres.symm.trans h))

/-- The core of a flow after a packet was put into its queue. -/
def enqueueCore (o : Oracle) (c : Core) (q : FlowQueue) (pnode : Pnode) : Core :=
  { c with
    holdList := some (q.put (if queueKeeps o q then some pnode else none))
    flags := if q.vfqEntries = 0 then { c.flags with newFlow := false } else c.flags }

theorem enqueueCore_flags (o : Oracle) (c : Core) (q : FlowQueue) (pnode : Pnode) :
    ∃ b, (enqueueCore o c q pnode).flags = { c.flags with newFlow := b } := by
  by_cases h : q.vfqEntries = 0
  · exact ⟨false, if_pos h⟩
  · exact ⟨c.flags.newFlow, if_neg h⟩

theorem enqueueFlow_cases (env : Env) (o : Oracle) (s : FlowSys) (i : ℕ) (pnode : Pnode) :
    ((s.entry i).feHoldList = none ∧ enqueueFlow o s i pnode = s) ∨
    ∃ q t, (s.entry i).feHoldList = some q ∧
      Rewrites env s i (enqueueCore o (s.entry i).core q pnode) [] t ∧ SameCounts s t ∧
      enqueueFlow o s i pnode = { t with
        accepted := if queueKeeps o q then s.accepted ++ [pnode.plPacket] else s.accepted } := by
  unfold enqueueFlow
  cases hq : (s.entry i).feHoldList with
  | none => exact .inl ⟨rfl, rfl⟩
  | some q =>
    right
    have h1 := (Rewrites.refl env s i).setEntry
      (fun e => { e with feHoldList := some (q.put (if queueKeeps o q then some pnode else none)) })
      (fun c => { c with holdList := some (q.put (if queueKeeps o q then some pnode else none)) })
      fun _ => ⟨rfl, rfl, rfl⟩
    generalize hs₁ : (s.setEntry i fun e => { e with
      feHoldList := some (q.put (if queueKeeps o q then some pnode else none)) }) = s₁ at h1
    refine ⟨q, if q.vfqEntries = 0 then trapFlow s₁ i else s₁, rfl, ?_, ?_, ?_⟩
    · unfold enqueueCore
      by_cases hn : q.vfqEntries = 0
      · rw [if_pos hn, if_pos hn]
        exact h1.setFlags fun f => { f with newFlow := false }
      · rw [if_neg hn, if_neg hn]
        exact h1
    · rw [← hs₁]
      split_ifs <;> exact ⟨rfl, rfl⟩
    · dsimp only
      rw [hs₁]
      have hacc : s₁.accepted = s.accepted := by rw [← hs₁]; rfl
      rw [← hacc]
      split_ifs <;> rfl

theorem Good.enqueue {pnode : Pnode} (hg : Good env s) (hv : s.valid i = true)
    (hc : (s.entry i).feFlags.evictCandidate = false) : Good env (enqueueFlow o s i pnode) := by
  obtain ⟨-, h⟩ | ⟨q, t, hq, hr, -, h⟩ := enqueueFlow_cases env o s i pnode
  · rw [h]; exact hg
  · have hgt : Good env t := by
      obtain ⟨ha, he⟩ := hg.live i hv
      obtain ⟨b, hb⟩ := enqueueCore_flags o (s.entry i).core q pnode
      refine hg.rewrites hr hv (by rw [hb]; exact ha) (by rw [hb]; exact he) fun hcand => ?_
      rw [hb] at hcand
      exact absurd (hc.symm.trans hcand) (by simp)
    rw [h]
    exact ⟨hgt.placed.congr rfl, hgt.lt, hgt.live, hgt.cand, hgt.blank, hgt.flushed⟩

theorem countPacket_core (n : ℕ) (e : FlowEntry) : (e.countPacket n).core = e.core := by
  unfold FlowEntry.countPacket FlowEntry.core
  rfl

/-- The rest of `vr_flow_lookup`: nothing for a candidate for eviction; otherwise the packet is put
into the queue of a flow on hold, or acted on. -/
theorem flowLookupFound_cases {pkt : Packet} (h : flowLookupFound env o s i pkt = some s') :
    ((s.entry i).feFlags.evictCandidate = true ∧ s' = s) ∨
    ∃ s₁, Quiet env s s₁ ∧
      ((s₁.entry i).feAction = .hold ∧ s' = enqueueFlow o s₁ i ⟨s₁.offered, pkt.vifIdx⟩ ∨
        (s₁.entry i).feAction ≠ .hold ∧ flowAction env o 0 s₁ i i = some s') := by
  unfold flowLookupFound at h
  split_ifs at h with hc
  · exact .inl ⟨hc, (Option.some.inj h).symm⟩
  · right
    unfold doFlowAction at h
    dsimp only at h
    generalize hs₁ : (flowTcpDigest env (s.setEntry i fun e =>
      { e with feSrcInfo := pkt.srcInfo.getD e.feSrcInfo }) i pkt.tcp).setEntry i
      (FlowEntry.countPacket pkt.pktLen) = s₁ at h
    refine ⟨s₁, ?_, ?_⟩
    · rw [← hs₁]
      exact (Quiet.trans (quiet_setEntry _ rfl) (quiet_flowTcpDigest _)).trans
        (quiet_setEntry _ (countPacket_core _ _))
    · split_ifs at h with ha
      · exact .inl ⟨ha, (Option.some.inj h).symm⟩
      · exact .inr ⟨ha, h⟩

/-- What a packet without a flow does: it is not let in, it finds no free entry, or it creates a flow
that is put on hold and then handled as one that was found. -/
inductive NewFlow (env : Env) (o : Oracle) (s : FlowSys) (pkt : Packet) (s' : FlowSys) : Prop
  | refused : s' = s → NewFlow env o s pkt s'
  | givenUp {x : ℕ} : s.valid x = false → Frees env s x (resetCore (s.entry x).core) s' →
      NewFlow env o s pkt s'
  | created {x : ℕ} {burst : Bool} {s₁ s₂ : FlowSys} : pkt.relaxed = false →
      Created env s pkt.key true x s₁ → Quiet env s₁ s₂ →
      flowLookupFound env o (flowEntrySetHold env o s₂ x burst) x pkt = some s' →
      NewFlow env o s pkt s'

theorem flowLookup_newFlow {pkt : Packet} (hg : Good env s) (hf : findFlow env s pkt.key = some none)
    (h : flowLookup env o s pkt = some s') : NewFlow env o s pkt s' := by
  unfold flowLookup at h
  rw [hf] at h
  dsimp only at h
  split_ifs at h with hrel
  · exact .refused (Option.some.inj h).symm
  unfold flowNewHoldFlow at h
  cases hallow : flowAllowNewFlow env o s pkt.vpType with
  | none =>
    simp only [hallow, Option.some.injEq] at h
    exact .refused h.symm
  | some burst =>
    simp only [hallow] at h
    cases hfree : flowGetFreeEntry env o s pkt.key pkt.vpType true with
    | mk res s₁ =>
      cases res with
      | none =>
        simp only [hfree] at h
        cases h
        obtain rfl | ⟨x, hx, hfr⟩ := flowGetFreeEntry_none hg.placed hfree
        · exact .refused rfl
        · exact .givenUp hx hfr
      | some x =>
        simp only [hfree] at h
        exact .created (by simpa using hrel) (flowGetFreeEntry_created hg.placed hfree)
          (quiet_setEntry _ rfl) h

namespace Keeps

theorem flowDefer_works : (flowDefer env o s md i q).works = s.works := by
  unfold flowDefer
  split
  · dsimp only
    have h1 : ∀ t : FlowSys, (flowResetEntry env o t i).works = t.works := fun _ => rfl
    split_ifs
    · rw [h1, (flowResetEvictPair_unmarked env s i).works]
    · rw [h1]
    · rw [(flowResetEvictPair_unmarked env s i).works]
    · rfl
  · rfl

theorem flowDeferFinish_cbs : (flowDeferFinish env o s cb).cbs = s.cbs := by
  have h1 : ∀ (t : FlowSys) (k : ℕ), (flowEvictFlow env o t k).cbs = t.cbs := by
    intro t k
    unfold flowEvictFlow
    dsimp only
    split_ifs <;> rfl
  unfold flowDeferFinish
  split_ifs
  · rfl
  · dsimp only
    split
    · rw [h1, h1]
    · rw [h1]
  · rfl

theorem flowBurstTimeout_counts (infop : FlowTableInfo) :
    (flowBurstTimeout infop).vftiHoldCount = infop.vftiHoldCount ∧
      (flowBurstTimeout infop).vftiActionCount = infop.vftiActionCount := by
  unfold flowBurstTimeout FlowTableInfo.addTokens
  dsimp only
  split_ifs <;> exact ⟨rfl, rfl⟩

variable {P : FlowSys → FlowEvent → Prop} {I : FlowSys → Prop} {pkt : Packet} {n : ℕ}
  (hk : Keeps env P I) (hg : Good env s) (hi : I s)
include hk hg hi

theorem lookupFound (hv : s.valid i = true)
    (hoff : ∀ {s₁ : FlowSys}, Quiet env s s₁ → (s.entry i).feAction = .hold → Offers env P s₁ i)
    (h : flowLookupFound env o s i pkt = some s') :
    Good env { s' with offered := s'.offered + 1 } ∧ I { s' with offered := s'.offered + 1 } := by
  by_cases hc : (s.entry i).feFlags.evictCandidate = true
  · unfold flowLookupFound at h
    rw [if_pos hc] at h
    cases h
    exact ⟨hg.offer, hk.offer hg hi⟩
  obtain ⟨hc', -⟩ | ⟨s₁, hq, hs₁⟩ := flowLookupFound_cases h
  · exact absurd hc' hc
  have hg₁ := hg.quiet hq
  have hi₁ := hk.quiet hg hi hq
  have hv₁ : s₁.valid i = true := (hq.valid i).trans hv
  have hc₁ : (s₁.entry i).feFlags.evictCandidate = false := by
    rw [hq.flags]; simpa using hc
  obtain ⟨ha, rfl⟩ | ⟨ha, hact⟩ := hs₁
  · have hoff' : (enqueueFlow o s₁ i ⟨s₁.offered, pkt.vifIdx⟩).offered = s₁.offered := by
      obtain ⟨-, h⟩ | ⟨q, t, -, hr, -, h⟩ :=
        enqueueFlow_cases env o s₁ i ⟨s₁.offered, pkt.vifIdx⟩
      · rw [h]
      · rw [h]; exact hr.offered
    refine ⟨(hg₁.enqueue hv₁ hc₁).offer, ?_⟩
    rw [hoff']
    exact hk.enqueue hg₁ hi₁ hv₁ ha hc₁ (hoff hq (by rw [← hq.action]; exact ha))
  · have hm := flowAction_marks hg₁ hv₁ ha hact
    exact ⟨(hg₁.marks hm).offer, hk.offer (hg₁.marks hm) (hk.marks hg₁ hi₁ hm)⟩

theorem newHold (burst : Bool) (hv : s.valid x = true) (hn : (s.entry x).feFlags.newFlow = true)
    (hc : (s.entry x).feFlags.evictCandidate = false) (ha : (s.entry x).feAction = .drop) :
    Good env (flowEntrySetHold env o s x burst) ∧ I (flowEntrySetHold env o s x burst) ∧
    (flowEntrySetHold env o s x burst).valid x = s.valid x ∧
    ((flowEntrySetHold env o s x burst).entry x).feHoldList = (s.entry x).feHoldList := by
  have hrw : Rewrites env s x _ [] (flowEntrySetHold env o s x burst) :=
    flowEntrySetHold_rewrites (Rewrites.refl env s x)
  have hl : ((flowEntrySetHold env o s x burst).entry x).feHoldList = (s.entry x).feHoldList :=
    congrArg Core.holdList hrw.core
  obtain ⟨hact, hev⟩ := hg.live x hv
  refine ⟨hg.rewrites hrw hv hact hev fun _ => .inr hn, ?_, hrw.valid x, hl⟩
  by_cases hcpu : env.vrNumCpus ≤ o.cpu
  · unfold flowEntrySetHold
    rwa [if_pos hcpu]
  · rw [if_neg hcpu] at hrw
    exact hk.hold hg hi hv hn hc ha (by omega) hrw (flowEntrySetHold_counted burst (by omega))

theorem packet (hp : P s (.packet pkt o)) (h : flowLookup env o s pkt = some s') :
    Good env { s' with offered := s'.offered + 1 } ∧ I { s' with offered := s'.offered + 1 } := by
  have h₀ := h
  unfold flowLookup at h
  split at h
  · cases h
  · next i hf =>
      exact hk.lookupFound hg hi (findFlow_some hg hf).2.1
        (fun hq _ => .inl ⟨s, pkt, o, hp, hf, hq⟩) h
  · next hf =>
      cases flowLookup_newFlow hg hf h₀ with
      | refused heq =>
        rw [heq]
        exact ⟨hg.offer, hk.offer hg hi⟩
      | givenUp hx hfr =>
        have hg₁ := hg.frees hfr (resetCore_blank _)
        exact ⟨hg₁.offer, hk.offer hg₁ (hk.givenUp hg hi hx hfr)⟩
      | @created x burst s₁ s₂ hrel hcr hq hfound =>
        obtain ⟨hdrop, -, -, hnew, -, hcand⟩ := hcr.core_new hg
        have hg₁ := hg.created hcr
        have hi₁ := hk.created hg hi hp ⟨hrel, rfl⟩ hf hcr
        have hv₂ : s₂.valid x = true := by rw [hq.valid, hcr.valid, if_pos rfl]
        have hlist : (s₂.entry x).feHoldList = some { vfqIndex := x } :=
          (hq.holdList x).trans (congrArg Core.holdList hcr.core)
        obtain ⟨hg₃, hi₃, hv₃, hl₃⟩ := hk.newHold (hg₁.quiet hq) (hk.quiet hg₁ hi₁ hq) burst hv₂
          (by rw [hq.flags]; exact hnew) (by rw [hq.flags]; exact hcand)
          (by rw [hq.action]; exact hdrop) (o := o)
        refine hk.lookupFound hg₃ hi₃ (hv₃.trans hv₂) (fun hq' _ => ?_) hfound
        exact .inr ⟨_, (hq'.holdList x).trans (hl₃.trans hlist), rfl⟩

theorem hbsPacket {index : ℕ} {fromVmi : Bool} (hp : P s (.hbsPacket index fromVmi o))
    (h : flowForwardHbs env o s index fromVmi = some s') : Good env s' ∧ I s' := by
  have hdef : ∀ k, hbsFlow env s index fromVmi = some k → s.valid k = true →
      flowActionDefault env (o.sched 0) s k k = some s' → Good env s' ∧ I s' := by
    intro k hf hv hd
    unfold flowActionDefault at hd
    split_ifs at hd
    · obtain rfl | ⟨rev, md, hm⟩ := flowMarkEvict_cases hg hv hd
      · exact ⟨hg, hi⟩
      · exact ⟨hg.marking hm, hk.markHbs hg hi hp hf hm⟩
    · cases hd
      exact ⟨hg, hi⟩
  unfold flowForwardHbs at h
  split at h
  · cases h
    exact ⟨hg, hi⟩
  · next k hki =>
      cases fromVmi with
      | false =>
        exact hdef k (by rw [hbsFlow, hki]; rfl) (flowGetEntry_eq_some.1 hki).2.2 h
      | true =>
        simp only [if_true] at h
        split at h
        · cases h
          exact ⟨hg, hi⟩
        · next r hr =>
            exact hdef r (by rw [hbsFlow, hki]; exact hr) (flowGetEntry_eq_some.1 hr).2.2 h

theorem request {e : Option Errno} (hp : P s (.request req o))
    (h : flowSet env o s req = some (e, s')) : Good env s' ∧ I s' := by
  cases flowSet_outcome hg h with
  | quiet hq => exact ⟨hg.quiet hq, hk.quiet hg hi hq⟩
  | forced hf => exact ⟨hg.forced hf, hk.forced hg hi hp hf⟩
  | deleted hd => exact ⟨hg.deleted hd, hk.deleted hg hi hp hd⟩
  | set hidx hu hdm hs =>
    exact ⟨hg.setDone (flowGetEntry_eq_some.1 hidx).2.2 (hg.not_cand hu) hs,
      hk.set hg hi hp hidx hu hdm hs⟩
  | givenUp hx hf => exact ⟨hg.frees hf (resetCore_blank _), hk.givenUp hg hi hx hf⟩
  | added hidx hfind hcr hq hs =>
    have hg₁ := hg.created hcr
    have hcreates : Creates env s (.request req o) req.frKey :=
      ⟨hs.notForce, hs.active, hidx, rfl⟩
    have hi₁ := hk.created hg hi hp hcreates hfind hcr
    have hg₂ := hg₁.quiet hq
    obtain ⟨-, -, -, -, -, hc⟩ := hcr.core_new hg
    refine ⟨hg₂.setDone ?_ ?_ hs, hk.added hg hg₂ (hk.quiet hg₁ hi₁ hq) hp hcreates hfind hcr hq
      hs⟩
    · rw [hq.valid, hcr.valid, if_pos rfl]
    · rw [hq.flags]
      exact hc

theorem defer (hw : InWork env P n o md s)
    (hq : ∀ q', q = some q' → ∀ k, q'.vfqPnodes k = none) :
    Good env { flowDefer env o s md md.flmdIndex q with works := s.works.eraseIdx n } ∧
      I { flowDefer env o s md md.flmdIndex q with works := s.works.eraseIdx n } := by
  have hlt := hg.lt _ hw.valid
  cases hd : md.flmdDeferData.join with
  | none =>
    refine ⟨?_, hk.undeferred hg hi hw hd⟩
    refine Good.works ?_ _
    unfold flowDefer
    rw [hd]
    dsimp only
    split_ifs
    · exact (hg.resetEvictPair hw.valid).resetEntry hlt
    · exact hg.resetEntry hlt
    · exact hg.resetEvictPair hw.valid
    · exact hg
  | some data =>
    have he : ({ flowDefer env o s md md.flmdIndex q with works := s.works.eraseIdx n } : FlowSys) =
        { s with
          works := s.works.eraseIdx n
          cbs := s.cbs ++ [⟨md.flmdIndex, { data with vfddFlowQueue := q }, md.stamp, md.rev⟩] } := by
      unfold flowDefer
      rw [hd]
    rw [he]
    exact ⟨hg.deferred hlt hq _, hk.deferred hg hi hw hd⟩

theorem work (hp : P s (.work n o)) (hn : s.works[n]? = some md)
    (h : flowWork env o s md = some s') :
    Good env { s' with works := s'.works.eraseIdx n } ∧
      I { s' with works := s'.works.eraseIdx n } := by
  obtain ⟨hv, rfl⟩ | ⟨s₁, q, hv, hfl, hq, rfl⟩ := flowWork_cases hg h
  · exact ⟨hg.works _, hk.gone hg hi hn hv⟩
  rw [flowDefer_works]
  cases hfl with
  | kept hnone =>
    exact hk.defer hg hi ⟨⟨s, hp, hn, .kept hnone⟩, hn, hv, hnone⟩ hq
  | @flushed q₀ _ hq₀ ha hm =>
    have hg₁ := hg.detach hv q₀
    have hi₁ := hk.detach hg hi hn hv hq₀ ha
    obtain ⟨l, hl⟩ := hm.kept.works
    refine hk.defer (hg₁.marks hm) (hk.marks hg₁ hi₁ hm) ⟨⟨s, hp, hn, .flushed hq₀ ha hm⟩, ?_, ?_, ?_⟩
      hq
    · rw [hl]
      exact List.getElem?_append_left (List.getElem?_eq_some_iff.1 hn).1 ▸ hn
    · exact (hm.kept.valid _).trans ((detach_valid _ _).trans hv)
    · left
      rw [hm.kept.holdList, detach_entry_same]

theorem callback (hp : P s (.callback n o)) (hn : s.cbs[n]? = some cb)
    (h : flowDeferCb env o s cb = some s') :
    Good env { s' with cbs := s'.cbs.eraseIdx n } ∧ I { s' with cbs := s'.cbs.eraseIdx n } := by
  have hmem := List.mem_of_getElem? hn
  rw [flowDeferCb_eq hg hmem h, flowDeferFinish_cbs]
  refine ⟨?_, hk.called hg hi hp hn⟩
  have hfin : Good env (flowDeferFinish env o s cb) :=
    flowDeferFinish_keeps hg hmem hg (fun _ _ _ hf => hg.frees hf (resetCore_blank _))
      fun _ _ _ _ _ _ hg₁ _ _ _ he => hg₁.evicts he
  refine hfin.cbs fun cb' hcb' => ?_
  rw [flowDeferFinish_cbs]
  exact List.mem_of_mem_eraseIdx hcb'

/-- **Steps.**  A step that meets the condition keeps the property. -/
theorem step (hp : P s ev) (h : flowStep env s ev = some s') :
    Good env s' ∧ I s' := by
  have hquiet : Quiet env s s' → Good env s' ∧ I s' := fun hq =>
    ⟨hg.quiet hq, hk.quiet hg hi hq⟩
  cases ev with
  | packet pkt o =>
    obtain ⟨s₁, hl, rfl⟩ := Option.map_eq_some_iff.1 h
    exact hk.packet hg hi hp hl
  | hbsPacket index fromVmi o => exact hk.hbsPacket hg hi hp h
  | request req o =>
    obtain ⟨⟨e, s₁⟩, hs, rfl⟩ := Option.map_eq_some_iff.1 h
    exact hk.request hg hi hp hs
  | work n o =>
    simp only [flowStep] at h
    split at h
    · cases h
    · next md hn =>
        obtain ⟨s₁, hw, rfl⟩ := Option.map_eq_some_iff.1 h
        exact hk.work hg hi hp hn hw
  | callback n o =>
    simp only [flowStep] at h
    split at h
    · cases h
    · next cb hn =>
        obtain ⟨s₁, hw, rfl⟩ := Option.map_eq_some_iff.1 h
        exact hk.callback hg hi hp hn hw
  | tableWork k notReady allocOk =>
    simp only [flowStep] at h
    split_ifs at h with hkw
    obtain ⟨t, ht, rfl⟩ := Option.map_eq_some_iff.1 h
    exact hquiet (quiet_tableWork hg.placed hkw ht)
  | tableDeferred i =>
    simp only [flowStep] at h
    split_ifs at h with hid
    cases h
    exact hquiet (quiet_tableDeferred hg.placed hid)
  | burstTimeout =>
    simp only [flowStep] at h
    split_ifs at h
    cases h
    obtain ⟨h1, h2⟩ := flowBurstTimeout_counts s.infop
    exact hquiet (quiet_infop h1 h2)
  | setBurstParams tokens interval stp o =>
    cases h
    obtain ⟨h1, h2⟩ := flowStartBurstProcessing_counts o.timerOk { s.infop with
      vftiBurstTokensConfigured := tokens.getD s.infop.vftiBurstTokensConfigured
      vftiBurstIntervalConfigured := interval.getD s.infop.vftiBurstIntervalConfigured
      vftiBurstStepConfigured := stp.getD s.infop.vftiBurstStepConfigured }
    exact hquiet (quiet_infop h1 h2)

end Keeps

/-! ### Runs -/

theorem init_entry (env : Env) (i : ℕ) : (FlowSys.init env).entry i = {} := rfl

theorem init_valid (env : Env) (i : ℕ) : (FlowSys.init env).valid i = false := rfl

theorem init_good (env : Env) : Good env (FlowSys.init env) := by
  refine ⟨⟨fun _ => .free, create_inv env.g _, fun _ _ => by simp, fun j hj => ?_⟩, fun i hi => ?_,
    fun i hi => ?_, fun i hi => ?_, fun i _ => ?_, fun cb hcb => absurd hcb (by simp [FlowSys.init])⟩
  · rw [init_valid] at hj; simp at hj
  · rw [init_valid] at hi; simp at hi
  · rw [init_valid] at hi; simp at hi
  · rw [init_entry] at hi; simp at hi
  · rw [init_entry]
    exact ⟨rfl, rfl, rfl, rfl, fun h => absurd h (by simp [FlowEntry.core])⟩

/-- **Runs.**  In a run whose steps meet the condition, the property holds in every state. -/
theorem Keeps.run {P : FlowSys → FlowEvent → Prop} {I : FlowSys → Prop} (hk : Keeps env P I)
    (h₀ : I (FlowSys.init env)) (h : Reach (flowStep env) P (FlowSys.init env) s) :
    Good env s ∧ I s :=
  Reach.invariant (I := fun s => Good env s ∧ I s) ⟨init_good env, h₀⟩
    (fun _ _ _ hi hp hs => hk.step hi.1 hi.2 hp hs) h

/-! ### A small table -/

/-- A flow table of one bucket and one overflow entry, on two CPUs. -/
def smallEnv : Env where
  g := ⟨1, 1, by decide, by decide⟩
  hash := fun _ => 0
  vrNumCpus := 2
  vrFlowHoldLimit := 1
  vrMaxVrfs := 1
  vrMaxMirrorIndices := 255
  vrLinkLocalPortsSize := 0
  vrUncondCloseFlowOnTcpRst := false
  mirrorExists := fun _ => false
  udpSrcHash := fun _ => 0

/-- TCP flows that differ in the source port. -/
def tcpKey (sport : ℕ) : FlowKey := ⟨.inet, vrIpProtoTcp, sport, 80, 1, 10, 20⟩

/-- A packet of such a flow; `rst` closes the connection. -/
def tcpPacket (sport : ℕ) (rst : Bool) : Packet where
  key := tcpKey sport
  vpType := .ip
  vifIdx := 0
  srcInfo := none
  relaxed := false
  dvrf := 0
  pktLen := 60
  tcp := some ⟨false, rst, false, false, 0, 0, 20, 5⟩

/-- The request that sets the flow at `index`, or adds it. -/
def setReq (index : ℤ) (genId sport : ℕ) (action : FlowAction) : FlowReq where
  frIndex := index
  frKey := tcpKey sport
  frGenId := genId
  frAction := action
  frFlags := { active := true }

/-- The request that deletes the flow at `index`. -/
def deleteReq (index : ℤ) (genId sport : ℕ) : FlowReq where
  frIndex := index
  frKey := tcpKey sport
  frGenId := genId
  frAction := .drop
  frFlags := {}

/-- The request that forces the flow at `index` out. -/
def forceReq (index : ℤ) (sport : ℕ) : FlowReq where
  frIndex := index
  frKey := tcpKey sport
  frAction := .drop
  frFlags := {}
  forceEvict := true

end Vrouter.Flow
