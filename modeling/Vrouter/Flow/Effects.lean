import Vrouter.Flow.Frame

/-! # What the functions of the flow table do

One lemma for each function that changes the core of an entry.  A function that rewrites one entry
and may schedule a work item for it is described by `Rewrites`; creating a flow by `Created`,
marking a flow and its reverse flow for eviction by `Marking`. -/

namespace Vrouter.Flow

open Vrouter.Htable Vrouter.Lib

variable {env : Env} {s s' s'' : FlowSys} {i j r : ℕ} {o : Oracle}

/-! ### One entry rewritten -/

/-- The core of one entry becomes `c`, the items `l` are scheduled, and the rest is as before. -/
structure Rewrites (env : Env) (s : FlowSys) (i : ℕ) (c : Core) (l : List FlowMd) (s' : FlowSys) :
    Prop where
  core : (s'.entry i).core = c
  others : ∀ j, j ≠ i → (s'.entry j).core = (s.entry j).core
  valid : ∀ j, s'.valid j = s.valid j
  works : s'.works = s.works ++ l
  cbs : s'.cbs = s.cbs
  clock : s'.clock = s.clock
  born : s'.born = s.born
  accepted : s'.accepted = s.accepted
  done : s'.done = s.done
  offered : s'.offered = s.offered
  placed : Placed env s → Placed env s'

theorem Rewrites.refl (env : Env) (s : FlowSys) (i : ℕ) :
    Rewrites env s i (s.entry i).core [] s :=
  ⟨rfl, fun _ _ => rfl, fun _ => rfl, by simp, rfl, rfl, rfl, rfl, rfl, rfl, id⟩

variable {c : Core} {l : List FlowMd} {q : FlowQueue} {index : ℕ}

theorem Rewrites.setEntry (h : Rewrites env s i c l s') (f : FlowEntry → FlowEntry)
    (g : Core → Core) (hf : ∀ e, (f e).core = g e.core ∧ (f e).core.key = e.core.key ∧
      (f e).core.keyLen = e.core.keyLen) : Rewrites env s i (g c) l (s'.setEntry i f) where
  core := by rw [entry_setEntry_same, (hf _).1, h.core]
  others := fun j hj => by rw [entry_setEntry_ne f hj]; exact h.others j hj
  valid := fun j => (valid_setEntry f j).trans (h.valid j)
  works := h.works
  cbs := h.cbs
  clock := h.clock
  born := h.born
  accepted := h.accepted
  done := h.done
  offered := h.offered
  placed := fun hp => (h.placed hp).setEntry f fun _ => (hf _).2

theorem Rewrites.quiet (h : Rewrites env s i c l s') (hq : Quiet env s' s'') :
    Rewrites env s i c l s'' where
  core := (hq.core i).trans h.core
  others := fun j hj => (hq.core j).trans (h.others j hj)
  valid := fun j => (hq.valid j).trans (h.valid j)
  works := hq.works.trans h.works
  cbs := hq.cbs.trans h.cbs
  clock := hq.clock.trans h.clock
  born := hq.born.trans h.born
  accepted := hq.accepted.trans h.accepted
  done := hq.done.trans h.done
  offered := hq.offered.trans h.offered
  placed := hq.placed ∘ h.placed

theorem Rewrites.infop (h : Rewrites env s i c l s') (infop : FlowTableInfo) :
    Rewrites env s i c l { s' with infop := infop } :=
  ⟨h.core, h.others, h.valid, h.works, h.cbs, h.clock, h.born, h.accepted, h.done, h.offered,
    fun hp => (h.placed hp).congr rfl⟩

theorem Rewrites.schedule (h : Rewrites env s i c [] s') (l : List FlowMd) :
    Rewrites env s i c l { s' with works := s'.works ++ l } :=
  ⟨h.core, h.others, h.valid, by rw [h.works, List.append_nil], h.cbs, h.clock, h.born, h.accepted,
    h.done, h.offered, fun hp => (h.placed hp).congr rfl⟩

/-! ### Scheduling -/

/-- The deferred data of a work item: none that can be used, or what the flags ask for. -/
def DeferShape (del evict : Bool) (d : Option (Option FlowDeferData)) : Prop :=
  d.join = none ∨ d.join = some { vfddDelete := del, vfddEvictFlow := evict }

theorem DeferShape.data {del evict : Bool} {d : Option (Option FlowDeferData)} {data : FlowDeferData}
    (h : DeferShape del evict d) (hd : d.join = some data) :
    data.vfddDelete = del ∧ data.vfddEvictFlow = evict := by
  obtain hn | hs := h
  · exact absurd (hd.symm.trans hn) (by simp)
  · rw [Option.some.inj (hd.symm.trans hs)]
    exact ⟨rfl, rfl⟩

theorem flowScheduleTransition_cases {out : SchedOutcome} {flags : FlowFlags} {rev : Option ℕ}
    {ok : Bool} (h : flowScheduleTransition env out s i index flags rev = some (ok, s')) :
    (ok = true ∧ out.mdOk = true ∧ out.workOk = true ∧
      ∃ d, DeferShape (!flags.active) (evictFlowSet env s i) d ∧
        s' = { s with works := s.works ++ [⟨index, flags, d, s.clock, rev⟩] }) ∨
    (ok = false ∧ (out.mdOk = true → out.workOk = false) ∧ s' = s) := by
  unfold flowScheduleTransition at h
  dsimp only at h
  cases hm : out.mdOk with
  | false =>
    simp only [hm, Bool.not_false, if_true, Option.some.injEq, Prod.mk.injEq] at h
    exact .inr ⟨h.1.symm, fun hf => absurd hf (by simp), h.2.symm⟩
  | true =>
    simp only [hm, Bool.not_true, Bool.false_eq_true, if_false] at h
    split_ifs at h with h1 hw h2 h3
    · cases h
      exact .inl ⟨rfl, rfl, hw, _, .inr rfl, rfl⟩
    · cases h
      exact .inl ⟨rfl, rfl, hw, _, .inl rfl, rfl⟩
    · cases h
      exact .inl ⟨rfl, rfl, hw, _, .inl rfl, rfl⟩
    · cases h
      exact .inr ⟨rfl, fun _ => by simpa using hw, rfl⟩

/-! ### What holds in every run -/

/-- The core of an entry that holds no flow. -/
structure Blank (c : Core) : Prop where
  holdList : c.holdList = none
  action : c.action = .drop
  modified : c.flags.modified = false
  cand : c.flags.evictCandidate = false
  evicted : c.flags.active = true → c.flags.evicted = true

/-- What holds of a flow table in every run, whatever fails in it. -/
structure Good (env : Env) (s : FlowSys) : Prop where
  placed : Placed env s
  lt : ∀ i, s.valid i = true → i < env.g.total
  live : ∀ i, s.valid i = true →
    (s.entry i).feFlags.active = true ∧ (s.entry i).feFlags.evicted = false
  cand : ∀ i, (s.entry i).feFlags.evictCandidate = true →
    (s.entry i).feFlags.modified = true ∨ (s.entry i).feFlags.newFlow = true
  blank : ∀ i, s.valid i = false → Blank (s.entry i).core
  flushed : ∀ cb ∈ s.cbs, cb.vfddFe < env.g.total ∧
    ∀ q, cb.data.vfddFlowQueue = some q → ∀ k, q.vfqPnodes k = none

theorem FlowFlags.unlocked_iff {f : FlowFlags} :
    f.unlocked = true ↔ f.modified = false ∧ f.evicted = false ∧ f.newFlow = false := by
  simp only [FlowFlags.unlocked, Bool.not_eq_true', Bool.or_eq_false_iff, and_assoc]

theorem Good.not_cand (h : Good env s) (hu : (s.entry i).feFlags.unlocked = true) :
    (s.entry i).feFlags.evictCandidate = false := by
  obtain ⟨hm, -, hn⟩ := FlowFlags.unlocked_iff.1 hu
  by_contra hc
  rcases h.cand i (by simpa using hc) with h1 | h1
  · simp [hm] at h1
  · simp [hn] at h1

theorem Good.flowGetEntry (h : Good env s) {index : ℤ} :
    flowGetEntry env s index = some i ↔ index = i ∧ s.valid i = true := by
  rw [flowGetEntry_eq_some]
  exact ⟨fun hi => ⟨hi.1, hi.2.2⟩, fun hi => ⟨hi.1, h.lt i hi.2, hi.2⟩⟩

/-! ### One entry changed -/

/-- What rewriting an entry, giving it back and creating a flow in it have in common: the core of
the entry becomes `c`, its validity may change, and the items `l` are scheduled. -/
structure Changes (s : FlowSys) (i : ℕ) (c : Core) (l : List FlowMd) (s' : FlowSys) : Prop where
  core : (s'.entry i).core = c
  others : ∀ j, j ≠ i → (s'.entry j).core = (s.entry j).core
  valid : ∀ j, j ≠ i → s'.valid j = s.valid j
  works : s'.works = s.works ++ l
  cbs : s'.cbs = s.cbs

theorem Rewrites.changes (h : Rewrites env s i c l s') : Changes s i c l s' :=
  ⟨h.core, h.others, fun j _ => h.valid j, h.works, h.cbs⟩

/-- A property of the core of each entry, after one entry was changed. -/
theorem Changes.core_induction (h : Changes s i c l s') {Q : ℕ → Core → Prop} (hi : Q i c)
    (hq : ∀ j, j ≠ i → Q j (s.entry j).core) (j : ℕ) : Q j (s'.entry j).core := by
  by_cases hji : j = i
  · rw [hji, h.core]; exact hi
  · rw [h.others j hji]; exact hq j hji

/-- What must hold of the changed entry for `Good` to stay. -/
theorem Good.changes (hg : Good env s) (h : Changes s i c l s') (hp : Placed env s')
    (hlive : s'.valid i = true → i < env.g.total ∧ c.flags.active = true ∧ c.flags.evicted = false)
    (hcand : c.flags.evictCandidate = true → c.flags.modified = true ∨ c.flags.newFlow = true)
    (hblank : s'.valid i = false → Blank c) : Good env s' where
  placed := hp
  lt := fun j hj => by
    by_cases hji : j = i
    · subst hji
      exact (hlive hj).1
    · exact hg.lt j ((h.valid j hji).symm.trans hj)
  live := h.core_induction (Q := fun j c => s'.valid j = true → c.flags.active = true ∧
    c.flags.evicted = false) (fun hv => (hlive hv).2)
    fun j hj hv => hg.live j ((h.valid j hj).symm.trans hv)
  cand := h.core_induction (Q := fun _ c => c.flags.evictCandidate = true →
    c.flags.modified = true ∨ c.flags.newFlow = true) hcand fun j _ => hg.cand j
  blank := h.core_induction (Q := fun j c => s'.valid j = false → Blank c) hblank
    fun j hj hv => hg.blank j ((h.valid j hj).symm.trans hv)
  flushed := by rw [h.cbs]; exact hg.flushed

theorem Good.rewrites (hg : Good env s) (h : Rewrites env s i c l s') (hv : s.valid i = true)
    (ha : c.flags.active = true) (he : c.flags.evicted = false)
    (hc : c.flags.evictCandidate = true → c.flags.modified = true ∨ c.flags.newFlow = true) :
    Good env s' := by
  refine hg.changes h.changes (h.placed hg.placed) (fun _ => ⟨hg.lt i hv, ha, he⟩) hc fun hi => ?_
  simp [h.valid, hv] at hi

/-! ### Marking for eviction -/

def FlowEntry.mark (e : FlowEntry) : FlowEntry :=
  { e with feFlags := { e.feFlags with modified := true, evictCandidate := true } }

def FlowEntry.unmark (e : FlowEntry) : FlowEntry :=
  { e with feFlags := { e.feFlags with modified := false, evictCandidate := false } }

/-- A flow locked and made a candidate for eviction. -/
def FlowSys.mark (s : FlowSys) (i : ℕ) : FlowSys := s.setEntry i FlowEntry.mark

def FlowSys.markRev (s : FlowSys) : Option ℕ → FlowSys
  | none => s
  | some r => s.mark r

theorem flowResetEvict_eq : flowResetEvict s i = s.setEntry i FlowEntry.unmark := by
  unfold flowResetEvict flowStopModify
  rw [setEntry_setEntry]
  rfl

theorem FlowEntry.unmark_mark {e : FlowEntry} (hm : e.feFlags.modified = false)
    (hc : e.feFlags.evictCandidate = false) : e.mark.unmark = e := by
  have : { e.feFlags with modified := false, evictCandidate := false } = e.feFlags := by
    cases hf : e.feFlags
    simp_all
  unfold mark unmark
  dsimp only
  rw [this]

theorem flowResetEvict_mark (hm : (s.entry i).feFlags.modified = false)
    (hc : (s.entry i).feFlags.evictCandidate = false) : flowResetEvict (s.mark i) i = s := by
  rw [flowResetEvict_eq, FlowSys.mark, setEntry_setEntry]
  exact setEntry_eq_self _ (FlowEntry.unmark_mark hm hc)

theorem flowStopModify_startModify (hm : (s.entry i).feFlags.modified = false) :
    flowStopModify (flowStartModify s i) i = s := by
  unfold flowStopModify flowStartModify
  rw [setEntry_setEntry]
  refine setEntry_eq_self _ ?_
  have : { (s.entry i).feFlags with modified := false } = (s.entry i).feFlags := by rw [← hm]
  simp only [Function.comp, this]

/-- **Marking.**  The flow `i`, with the reverse flow `rev` if it has one, is locked and made a
candidate for eviction, and a work item is scheduled. -/
structure Marking (env : Env) (s : FlowSys) (i : ℕ) (rev : Option ℕ) (md : FlowMd) (s' : FlowSys) :
    Prop where
  valid : s.valid i = true
  unlocked : (s.entry i).feFlags.unlocked = true
  revNone : rev = none → flowGetEntry env s (s.entry i).feRflow = none
  revSome : ∀ r, rev = some r → flowGetEntry env s (s.entry i).feRflow = some r ∧ r ≠ i ∧
    (s.entry r).feFlags.unlocked = true ∧ ((s.entry r).feRflow = i ∨ (s.entry r).feRflow < 0) ∧
    (s.entry r).feAction ≠ .hold
  item : ∃ flags d, md = ⟨i, flags, d, s.clock, rev⟩ ∧ flags.active = true ∧
    flags.evictCandidate = true ∧ DeferShape false true d
  eq : s' = { (s.markRev rev).mark i with works := s.works ++ [md] }

section Forward

variable {out : SchedOutcome}

theorem flowMarkCandidate_startModify (ha : (s.entry i).feFlags.active = true)
    (hc : (s.entry i).feFlags.evictCandidate = false) :
    flowMarkCandidate (flowStartModify s i) i = (true, s.mark i) := by
  unfold flowMarkCandidate flowStartModify FlowSys.mark
  rw [setEntry_setEntry]
  simp only [entry_setEntry_same, ha, hc, if_true, Bool.not_false]
  rfl

/-- An index finds the same entry as long as the same entries hold flows. -/
theorem flowGetEntry_congr (hv : ∀ j, s'.valid j = s.valid j) (index : ℤ) :
    flowGetEntry env s' index = flowGetEntry env s index := by
  apply Option.ext
  intro k
  rw [flowGetEntry_eq_some, flowGetEntry_eq_some, hv]

theorem flowGetEntry_setEntry (f : FlowEntry → FlowEntry) (index : ℤ) :
    flowGetEntry env (s.setEntry i f) index = flowGetEntry env s index :=
  flowGetEntry_congr (fun _ => valid_setEntry ..) index

/-- The callback of a flow marked together with its reverse flow evicts. -/
theorem evictFlowSet_mark (rev : Option ℕ)
    (hn : rev = none → flowGetEntry env s (s.entry i).feRflow = none)
    (hr : ∀ r, rev = some r → flowGetEntry env s (s.entry i).feRflow = some r ∧ r ≠ i) :
    evictFlowSet env ((s.markRev rev).mark i) i = true := by
  unfold evictFlowSet FlowSys.mark
  cases rev with
  | none =>
    simp only [FlowSys.markRev, entry_setEntry_same, FlowEntry.mark, flowGetEntry_setEntry,
      hn rfl, Bool.or_true, Bool.and_self]
  | some r =>
    obtain ⟨hg, hri⟩ := hr r rfl
    simp only [FlowSys.markRev, FlowSys.mark, entry_setEntry_same, FlowEntry.mark,
      flowGetEntry_setEntry, entry_setEntry_ne _ hri, entry_setEntry_ne _ hri.symm, hg,
      Bool.or_true, Bool.and_self]

theorem flowResetEvict_mark_comm (h : r ≠ i) :
    flowResetEvict (s.mark i) r = (flowResetEvict s r).mark i := by
  rw [flowResetEvict_eq, flowResetEvict_eq, FlowSys.mark, FlowSys.mark, setEntry_comm _ _ h.symm]

/-- The end of `vr_flow_mark_evict`, with the reverse flow marked and the flow locked. -/
theorem flowEvictForward_cases (rev : Option ℕ) (hg : Good env s) (hv : s.valid i = true)
    (hu : (s.entry i).feFlags.unlocked = true)
    (hn : rev = none → flowGetEntry env s (s.entry i).feRflow = none)
    (hr : ∀ r, rev = some r → flowGetEntry env s (s.entry i).feRflow = some r ∧ r ≠ i ∧
      (s.entry r).feFlags.unlocked = true ∧ ((s.entry r).feRflow = i ∨ (s.entry r).feRflow < 0) ∧
      (s.entry r).feAction ≠ .hold)
    (h : flowEvictForward env out (flowStartModify (s.markRev rev) i) i i rev = some s') :
    s' = s ∨ ∃ md, Marking env s i rev md s' := by
  have he : (s.markRev rev).entry i = s.entry i := by
    cases rev with
    | none => rfl
    | some r => exact entry_setEntry_ne _ (hr r rfl).2.1.symm
  obtain ⟨ha, -⟩ := hg.live i hv
  have hc := hg.not_cand hu
  obtain ⟨hm, -, -⟩ := FlowFlags.unlocked_iff.1 hu
  have hcand := flowMarkCandidate_startModify (s := s.markRev rev) (i := i) (by rw [he]; exact ha)
    (by rw [he]; exact hc)
  have hev := evictFlowSet_mark rev hn fun r h' => ⟨(hr r h').1, (hr r h').2.1⟩
  have hw : (s.markRev rev).works = s.works := by cases rev <;> rfl
  have hclock : (s.markRev rev).clock = s.clock := by cases rev <;> rfl
  unfold flowEvictForward at h
  simp only [hcand, if_true] at h
  split at h
  · cases h
  · next s₁ hs =>
      cases h
      rcases flowScheduleTransition_cases hs with ⟨-, -, -, d, hd, rfl⟩ | ⟨hf, -⟩
      · refine .inr ⟨⟨i, (((s.markRev rev).mark i).entry i).feFlags, d, s.clock, rev⟩, hv, hu, hn,
          hr, ⟨_, d, rfl, ?_, ?_, ?_⟩, ?_⟩
        · simp only [FlowSys.mark, entry_setEntry_same, FlowEntry.mark, he, ha]
        · simp only [FlowSys.mark, entry_setEntry_same, FlowEntry.mark]
        · rw [hev] at hd
          simpa [FlowSys.mark, FlowEntry.mark, he, ha] using hd
        · simp only [FlowSys.mark, setEntry_works, setEntry_clock, hw, hclock]
      · cases hf
  · next s₁ hs =>
      obtain ⟨ht, -⟩ | ⟨-, -, rfl⟩ := flowScheduleTransition_cases hs
      · cases ht
      · left
        cases h
        cases rev with
        | none => exact flowResetEvict_mark hm hc
        | some r =>
          obtain ⟨-, hri, hur, -, -⟩ := hr r rfl
          dsimp only [FlowSys.markRev]
          rw [flowResetEvict_mark_comm hri,
            flowResetEvict_mark (FlowFlags.unlocked_iff.1 hur).1 (hg.not_cand hur),
            flowResetEvict_mark hm hc]

end Forward

/-- `vr_flow_mark_evict` marks the flow, or changes nothing. -/
theorem flowMarkEvict_cases {out : SchedOutcome} (hg : Good env s) (hv : s.valid i = true)
    (h : flowMarkEvict env out s i i = some s') : s' = s ∨ ∃ rev md, Marking env s i rev md s' := by
  unfold flowMarkEvict at h
  split_ifs at h with hl
  · exact .inl (Option.some.inj h).symm
  have hu : (s.entry i).feFlags.unlocked = true := by simpa using hl
  obtain ⟨hm, -, -⟩ := FlowFlags.unlocked_iff.1 hu
  have hget : flowGetEntry env (flowStartModify s i) ((flowStartModify s i).entry i).feRflow =
      flowGetEntry env s (s.entry i).feRflow := by
    unfold flowStartModify
    rw [flowGetEntry_setEntry, entry_setEntry_same]
  dsimp only at h
  rw [hget] at h
  split at h
  · next hnone =>
      obtain rfl | ⟨md, hmd⟩ := flowEvictForward_cases none hg hv hu (fun _ => hnone)
        (fun r hr => absurd hr (by simp)) h
      · exact .inl rfl
      · exact .inr ⟨none, md, hmd⟩
  · next r hsome =>
      -- a flow that is its own reverse flow has just been locked
      have hri : r = i → ((flowStartModify s i).entry r).feFlags.unlocked = false := by
        rintro rfl
        simp [flowStartModify, FlowFlags.unlocked]
      have hstop : flowStopModify (flowStartModify s i) i = s := flowStopModify_startModify hm
      by_cases hd : (((flowStartModify s i).entry r).feTcpFlags.dead &&
          ((flowStartModify s i).entry r).feFlags.unlocked) = true
      swap
      · rw [if_neg hd] at h
        exact .inl ((Option.some.inj h).symm.trans hstop)
      rw [if_pos hd] at h
      have hne : r ≠ i := fun he => by simp [hri he] at hd
      have her : (flowStartModify s i).entry r = s.entry r := entry_setEntry_ne _ hne
      rw [her, Bool.and_eq_true] at hd
      obtain ⟨-, -, hvr⟩ := flowGetEntry_eq_some.1 hsome
      have hcand : flowMarkCandidate (flowStartModify (flowStartModify s i) r) r =
          (true, flowStartModify (s.mark r) i) := by
        rw [flowMarkCandidate_startModify (by rw [her]; exact (hg.live r hvr).1)
          (by rw [her]; exact hg.not_cand hd.2)]
        unfold FlowSys.mark flowStartModify
        rw [setEntry_comm _ _ hne.symm]
      have hrr : (flowStartModify (flowStartModify s i) r).entry r =
          { s.entry r with feFlags := { (s.entry r).feFlags with modified := true } } := by
        rw [← her]; exact entry_setEntry_same _
      rw [hrr, hcand] at h
      simp only [if_true] at h
      split_ifs at h with hc
      · obtain rfl | ⟨md, hmd⟩ := flowEvictForward_cases (some r) hg hv hu
          (fun hn => absurd hn (by simp))
          (fun r' hr' => by cases hr'; exact ⟨hsome, hne, hd.2, hc⟩) h
        · exact .inl rfl
        · exact .inr ⟨some r, md, hmd⟩
      · rw [flowStopModify_startModify (by rw [her]; exact (FlowFlags.unlocked_iff.1 hd.2).1),
          hstop] at h
        exact .inl (Option.some.inj h).symm

section

variable {rev : Option ℕ} {md : FlowMd}

theorem Marking.entry (h : Marking env s i rev md s') (j : ℕ) :
    s'.entry j = if j = i ∨ rev = some j then (s.entry j).mark else s.entry j := by
  have he : s'.entry j = ((s.markRev rev).mark i).entry j := by rw [h.eq]; rfl
  rw [he, FlowSys.mark]
  by_cases hji : j = i
  · subst hji
    rw [entry_setEntry_same, if_pos (.inl rfl)]
    cases rev with
    | none => rfl
    | some r => rw [FlowSys.markRev, FlowSys.mark, entry_setEntry_ne _ (h.revSome r rfl).2.1.symm]
  · rw [entry_setEntry_ne _ hji]
    cases rev with
    | none => simp [FlowSys.markRev, hji]
    | some r =>
      by_cases hjr : j = r
      · subst hjr
        rw [FlowSys.markRev, FlowSys.mark, entry_setEntry_same, if_pos (.inr rfl)]
      · rw [FlowSys.markRev, FlowSys.mark, entry_setEntry_ne _ hjr, if_neg]
        rintro (h1 | h1)
        · exact hji h1
        · exact hjr (Option.some.inj h1).symm

/-- What neither marking nor a quiet step touches. -/
structure Kept (s s' : FlowSys) : Prop where
  action : ∀ j, (s'.entry j).feAction = (s.entry j).feAction
  rflow : ∀ j, (s'.entry j).feRflow = (s.entry j).feRflow
  holdList : ∀ j, (s'.entry j).feHoldList = (s.entry j).feHoldList
  valid : ∀ j, s'.valid j = s.valid j
  works : ∃ l, s'.works = s.works ++ l
  cbs : s'.cbs = s.cbs
  clock : s'.clock = s.clock
  born : s'.born = s.born
  accepted : s'.accepted = s.accepted
  done : s'.done = s.done
  offered : s'.offered = s.offered
  holdCount : s'.infop.vftiHoldCount = s.infop.vftiHoldCount
  actionCount : s'.infop.vftiActionCount = s.infop.vftiActionCount

theorem Quiet.kept (h : Quiet env s s') : Kept s s' :=
  ⟨h.action, h.rflow, h.holdList, h.valid, ⟨[], by simp [h.works]⟩, h.cbs, h.clock, h.born,
    h.accepted, h.done, h.offered, h.holdCount, h.actionCount⟩

theorem Kept.trans (h : Kept s s') (h' : Kept s' s'') : Kept s s'' where
  action := fun j => (h'.action j).trans (h.action j)
  rflow := fun j => (h'.rflow j).trans (h.rflow j)
  holdList := fun j => (h'.holdList j).trans (h.holdList j)
  valid := fun j => (h'.valid j).trans (h.valid j)
  works := by
    obtain ⟨l, hl⟩ := h.works
    obtain ⟨l', hl'⟩ := h'.works
    exact ⟨l ++ l', by rw [hl', hl, List.append_assoc]⟩
  cbs := h'.cbs.trans h.cbs
  clock := h'.clock.trans h.clock
  born := h'.born.trans h.born
  accepted := h'.accepted.trans h.accepted
  done := h'.done.trans h.done
  offered := h'.offered.trans h.offered
  holdCount := h'.holdCount.trans h.holdCount
  actionCount := h'.actionCount.trans h.actionCount

theorem Marking.kept (h : Marking env s i rev md s') : Kept s s' := by
  have hv : ∀ j, s'.valid j = s.valid j := by
    intro j
    rw [h.eq]
    change ((s.markRev rev).mark i).valid j = _
    rw [FlowSys.mark, valid_setEntry]
    cases rev with
    | none => rfl
    | some r => exact valid_setEntry _ j
  refine ⟨fun j => ?_, fun j => ?_, fun j => ?_, hv, ⟨[md], by rw [h.eq]⟩, ?_, ?_, ?_, ?_, ?_, ?_, ?_,
    ?_⟩
  iterate 3 rw [h.entry j]; split_ifs <;> rfl
  all_goals rw [h.eq]; cases rev <;> rfl

theorem Good.works (hg : Good env s) (w : List FlowMd) : Good env { s with works := w } :=
  ⟨hg.placed.congr rfl, hg.lt, hg.live, hg.cand, hg.blank, hg.flushed⟩

theorem Good.quiet (h : Good env s) (hq : Quiet env s s') : Good env s' where
  placed := hq.placed h.placed
  lt := fun j hj => h.lt j ((hq.valid j).symm.trans hj)
  live := fun j hj => by
    rw [hq.flags j]
    exact h.live j ((hq.valid j).symm.trans hj)
  cand := fun j hj => by
    rw [hq.flags j] at hj ⊢
    exact h.cand j hj
  blank := fun j hj => by
    rw [hq.core j]
    exact h.blank j ((hq.valid j).symm.trans hj)
  flushed := by rw [hq.cbs]; exact h.flushed

theorem Marking.marked_valid (h : Marking env s i rev md s') (hj : j = i ∨ rev = some j) :
    s.valid j = true := by
  rcases hj with rfl | hj
  · exact h.valid
  · exact (flowGetEntry_eq_some.1 (h.revSome j hj).1).2.2

theorem Good.mark (hg : Good env s) (hv : s.valid i = true) : Good env (s.mark i) := by
  have hr := (Rewrites.refl env s i).setEntry FlowEntry.mark (fun c => { c with
    flags := { c.flags with modified := true, evictCandidate := true } }) fun _ => ⟨rfl, rfl, rfl⟩
  obtain ⟨ha, he⟩ := hg.live i hv
  exact hg.rewrites hr hv ha he fun _ => .inl rfl

theorem Good.marking (hg : Good env s) (h : Marking env s i rev md s') : Good env s' := by
  have hmark : Good env ((s.markRev rev).mark i) := by
    cases rev with
    | none => exact hg.mark h.valid
    | some r =>
      exact (hg.mark (h.marked_valid (.inr rfl))).mark ((valid_setEntry _ i).trans h.valid)
  rw [h.eq]
  exact hmark.works _

end

/-! ### Acting on packets -/

/-- Quiet steps, and markings of flows that are not on hold. -/
inductive Marks (env : Env) (s : FlowSys) : FlowSys → Prop
  | refl : Marks env s s
  | quiet {s₁ s₂ : FlowSys} : Marks env s s₁ → Quiet env s₁ s₂ → Marks env s s₂
  | mark {s₁ s₂ : FlowSys} {k : ℕ} {rev : Option ℕ} {md : FlowMd} : Marks env s s₁ →
      (s₁.entry k).feAction ≠ .hold → Marking env s₁ k rev md s₂ → Marks env s s₂

theorem Marks.trans (h : Marks env s s') (h' : Marks env s' s'') : Marks env s s'' := by
  induction h' with
  | refl => exact h
  | quiet _ hq ih => exact ih.quiet hq
  | mark _ ha hm ih => exact ih.mark ha hm

theorem Marks.kept (h : Marks env s s') : Kept s s' := by
  induction h with
  | refl => exact (Quiet.refl env s).kept
  | quiet _ hq ih => exact ih.trans hq.kept
  | mark _ _ hm ih => exact ih.trans hm.kept

theorem Good.marks (hg : Good env s) (h : Marks env s s') : Good env s' := by
  induction h with
  | refl => exact hg
  | quiet _ hq ih => exact ih.quiet hq
  | mark _ _ hm ih => exact ih.marking hm

section

variable {out : SchedOutcome} (hg : Good env s) (hv : s.valid i = true)
  (ha : (s.entry i).feAction ≠ .hold)
include hg hv ha

theorem flowMarkEvict_marks (h : flowMarkEvict env out s i i = some s') : Marks env s s' := by
  obtain rfl | ⟨rev, md, hm⟩ := flowMarkEvict_cases hg hv h
  · exact .refl
  · exact Marks.refl.mark ha hm

theorem flowActionDefault_marks (h : flowActionDefault env out s i i = some s') :
    Marks env s s' := by
  unfold flowActionDefault at h
  split_ifs at h
  · exact flowMarkEvict_marks hg hv ha h
  · cases h
    exact .refl

theorem flowAction_marks {n : ℕ} (h : flowAction env o n s i i = some s') : Marks env s s' := by
  unfold flowAction at h
  dsimp only at h
  have hq : Quiet env s (flowCheckSource env (o.src n) s i).2 := quiet_flowCheckSource _
  generalize flowCheckSource env (o.src n) s i = checked at h hq
  obtain ⟨s₁, h1, h2⟩ := Option.bind_eq_some_iff.1 h
  have hm1 : Marks env s s₁ := by
    refine (Marks.refl.quiet hq).trans ?_
    split_ifs at h1
    · exact flowActionDefault_marks (hg.quiet hq) ((hq.valid i).trans hv)
        (by rw [hq.action]; exact ha) h1
    · cases h1
      exact .refl
  refine hm1.trans ?_
  split_ifs at h2
  · exact flowMarkEvict_marks (hg.marks hm1) ((hm1.kept.valid i).trans hv)
      (by rw [hm1.kept.action]; exact ha) h2
  · cases h2
    exact .refl

end

/-! ### Flushing the hold queue -/

/-- The same state with another record of the packets taken out. -/
def FlowSys.withDone (s : FlowSys) (d : List ℕ) : FlowSys := { s with done := d }

@[simp] theorem entry_withDone (d : List ℕ) (j : ℕ) : (s.withDone d).entry j = s.entry j := rfl

@[simp] theorem valid_withDone (d : List ℕ) (j : ℕ) : (s.withDone d).valid j = s.valid j := rfl

theorem Quiet.withDone (h : Quiet env s s') (d : List ℕ) :
    Quiet env (s.withDone d) (s'.withDone d) :=
  ⟨h.core, h.valid, h.works, h.cbs, h.clock, h.born, h.accepted, rfl, h.offered, h.holdCount,
    h.actionCount, fun hp => (h.placed (hp.congr rfl)).congr rfl⟩

theorem Marking.withDone {rev : Option ℕ} {md : FlowMd} (h : Marking env s i rev md s')
    (d : List ℕ) : Marking env (s.withDone d) i rev md (s'.withDone d) :=
  ⟨h.valid, h.unlocked, h.revNone, h.revSome, h.item, by rw [h.eq]; cases rev <;> rfl⟩

theorem Marks.withDone (h : Marks env s s') (d : List ℕ) :
    Marks env (s.withDone d) (s'.withDone d) := by
  induction h with
  | refl => exact .refl
  | quiet _ hq ih => exact ih.quiet (hq.withDone d)
  | mark _ ha hm ih => exact ih.mark ha (hm.withDone d)

theorem Good.withDone (h : Good env s) (d : List ℕ) : Good env (s.withDone d) :=
  ⟨h.placed.congr rfl, h.lt, h.live, h.cand, h.blank, h.flushed⟩

/-- The packets of some slots of a queue. -/
def FlowQueue.packetsAt (q : FlowQueue) (ks : List (Fin 3)) : List ℕ :=
  ks.filterMap fun k => (q.vfqPnodes k).map Pnode.plPacket

/-- The packets in a hold queue. -/
def FlowQueue.packets (q : FlowQueue) : List ℕ := q.packetsAt (List.finRange 3)

theorem flowFlushPnode_marks {k : Fin 3} (hg : Good env s) (hv : s.valid i = true)
    (ha : (s.entry i).feAction ≠ .hold) (h : flowFlushPnode env o i i q s k = some s') :
    Marks env (s.withDone (s.done ++ q.packetsAt [k])) s' := by
  unfold flowFlushPnode at h
  cases hk : q.vfqPnodes k with
  | none =>
    simp only [hk, Option.some.injEq] at h
    have : q.packetsAt [k] = [] := by simp [FlowQueue.packetsAt, hk]
    rw [this, List.append_nil, ← h]
    exact .refl
  | some pnode =>
    simp only [hk] at h
    have : q.packetsAt [k] = [pnode.plPacket] := by simp [FlowQueue.packetsAt, hk]
    rw [this]
    split_ifs at h
    · exact flowAction_marks (hg.withDone _) hv ha h
    · cases h
      exact .refl

theorem flushSlots_marks : ∀ (ks : List (Fin 3)) {s : FlowSys}, Good env s →
    s.valid i = true → (s.entry i).feAction ≠ .hold →
    ks.foldlM (flowFlushPnode env o i i q) s = some s' →
    Marks env (s.withDone (s.done ++ q.packetsAt ks)) s'
  | [], s, _, _, _, h => by
    simp only [List.foldlM_nil, Option.pure_def, Option.some.injEq] at h
    rw [show q.packetsAt [] = [] from rfl, List.append_nil, ← h]
    exact .refl
  | k :: ks, s, hg, hv, ha, h => by
    rw [List.foldlM_cons] at h
    obtain ⟨s₁, h1, h2⟩ := Option.bind_eq_some_iff.1 h
    have hm := flowFlushPnode_marks hg hv ha h1
    have hrest := flushSlots_marks ks ((hg.withDone _).marks hm) ((hm.kept.valid i).trans hv)
      (by rw [hm.kept.action]; exact ha) h2
    have hd : s₁.done = s.done ++ q.packetsAt [k] := hm.kept.done
    have hp : q.packetsAt (k :: ks) = q.packetsAt [k] ++ q.packetsAt ks := by
      rw [FlowQueue.packetsAt, FlowQueue.packetsAt, FlowQueue.packetsAt, ← List.filterMap_append]
      rfl
    rw [hd, List.append_assoc, ← hp] at hrest
    exact (hm.withDone _).trans hrest

/-- The entry once its hold queue was taken away. -/
def FlowSys.detach (s : FlowSys) (i : ℕ) (q : FlowQueue) : FlowSys :=
  (s.setEntry i fun e => { e with feHoldList := none }).withDone (s.done ++ q.packets)

@[simp] theorem detach_entry_same (q : FlowQueue) :
    (s.detach i q).entry i = { s.entry i with feHoldList := none } := by
  rw [FlowSys.detach, entry_withDone, entry_setEntry_same]

theorem detach_entry_ne (q : FlowQueue) (h : j ≠ i) : (s.detach i q).entry j = s.entry j := by
  rw [FlowSys.detach, entry_withDone, entry_setEntry_ne _ h]

@[simp] theorem detach_valid (q : FlowQueue) (j : ℕ) : (s.detach i q).valid j = s.valid j := by
  rw [FlowSys.detach, valid_withDone, valid_setEntry]

theorem Good.detach (h : Good env s) (hv : s.valid i = true) (q : FlowQueue) :
    Good env (s.detach i q) := by
  have hr : Rewrites env s i _ [] (s.setEntry i fun e => { e with feHoldList := none }) :=
    (Rewrites.refl env s i).setEntry _ (fun c => { c with holdList := none })
      fun _ => ⟨rfl, rfl, rfl⟩
  obtain ⟨ha, he⟩ := h.live i hv
  exact (h.rewrites hr hv ha he (h.cand i)).withDone _

/-- `vr_flush_entry`: nothing, or every packet of the queue is taken out. -/
theorem flushEntry_cases {q' : Option FlowQueue} (hg : Good env s) (hv : s.valid i = true)
    (h : flushEntry env o s i i = some (q', s')) :
    (q' = none ∧ s' = s ∧ ((s.entry i).feHoldList = none ∨ (s.entry i).feAction = .hold)) ∨
    ∃ q, (s.entry i).feHoldList = some q ∧ (s.entry i).feAction ≠ .hold ∧ q' = some q.flushed ∧
      Marks env (s.detach i q) s' := by
  unfold flushEntry at h
  split at h
  · next hq =>
      cases h
      exact .inl ⟨rfl, rfl, .inl hq⟩
  · next q hq =>
      split_ifs at h with ha
      · cases h
        exact .inl ⟨rfl, rfl, .inr ha⟩
      · obtain ⟨s₁, h1, h2⟩ := Option.map_eq_some_iff.1 h
        cases h2
        have hg' : Good env (s.setEntry i fun e => { e with feHoldList := none }) := by
          have := (hg.detach hv q).withDone s.done
          exact this
        refine .inr ⟨q, hq, ha, rfl, ?_⟩
        exact flushSlots_marks (List.finRange 3) hg' (by rw [valid_setEntry]; exact hv)
          (by rw [entry_setEntry_same]; exact ha) h1

theorem flowFlushHoldQueue_empty (hq : ∀ k, q.vfqPnodes k = none) :
    flowFlushHoldQueue env o s i index q = some s := by
  unfold flowFlushHoldQueue
  generalize List.finRange 3 = ks
  induction ks with
  | nil => rfl
  | cons k ks ih =>
    rw [List.foldlM_cons, flowFlushPnode, hq k]
    exact ih

end Vrouter.Flow
