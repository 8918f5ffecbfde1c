import Vrouter.Flow.Effects

/-! # The life of a flow

What the functions do that create a flow, set it, mark it for deletion or force its eviction, and
that give its entry back.  `ReqOutcome` lists everything that a request of the agent can do. -/

namespace Vrouter.Flow

open Vrouter.Htable Vrouter.Lib

variable {env : Env} {s s' s'' : FlowSys} {i j r x : ℕ} {o : Oracle}

/-! ### Giving an entry back -/

/-- The entry `i` is free, its core is `c`, and the rest is as before. -/
structure Frees (env : Env) (s : FlowSys) (i : ℕ) (c : Core) (s' : FlowSys) : Prop where
  core : (s'.entry i).core = c
  others : ∀ j, j ≠ i → (s'.entry j).core = (s.entry j).core
  valid : ∀ j, s'.valid j = if j = i then false else s.valid j
  works : s'.works = s.works
  cbs : s'.cbs = s.cbs
  clock : s'.clock = s.clock
  born : s'.born = s.born
  accepted : s'.accepted = s.accepted
  done : s'.done = s.done
  offered : s'.offered = s.offered
  holdCount : s'.infop.vftiHoldCount = s.infop.vftiHoldCount
  actionCount : s'.infop.vftiActionCount = s.infop.vftiActionCount
  placed : Placed env s'

variable {c : Core} {key : FlowKey} {needHold : Bool} {l : List FlowMd} {type : VpType}

theorem frees_release (h : PlacedBut env s i) (hi : i < env.g.total) (f : FlowEntry → FlowEntry)
    (hc : (f (s.entry i)).core = c) : Frees env s i c (flowRelease env o (s.setEntry i f) i) := by
  have hr := (h.setEntry f).release hi o
  refine ⟨?_, fun j hj => ?_, fun j => ?_, rfl, rfl, rfl, rfl, rfl, rfl, rfl, rfl, rfl, hr.placed⟩
  · rw [hr.entry, entry_setEntry_same, hc]
  · rw [hr.entry, entry_setEntry_ne f hj]
  · rw [hr.valid, valid_setEntry]

/-- The core after `vr_flow_reset_entry`. -/
def resetCore (c : Core) : Core := ⟨{}, .drop, -1, none, c.key, 0⟩

theorem resetCore_blank (c : Core) : Blank (resetCore c) :=
  ⟨rfl, rfl, rfl, rfl, fun h => absurd h (by simp [resetCore])⟩

theorem flowResetEntry_frees (h : PlacedBut env s i) (hi : i < env.g.total) (o : Oracle) :
    Frees env s i (resetCore (s.entry i).core) (flowResetEntry env o s i) := by
  unfold flowResetEntry
  exact frees_release h hi _ rfl

/-- The core after `vr_flow_evict_flow`. -/
def evictCore (c : Core) : Core :=
  ⟨{ active := c.flags.active, evicted := true, newFlow := c.flags.newFlow,
     deleteMarked := c.flags.deleteMarked }, .drop, -1, none, c.key, 0⟩

theorem evictCore_blank (c : Core) : Blank (evictCore c) :=
  ⟨rfl, rfl, rfl, rfl, fun _ => rfl⟩

/-- An eviction takes place for an active candidate. -/
def Evictable (s : FlowSys) (i : ℕ) : Prop :=
  (s.entry i).feFlags.active = true ∧ (s.entry i).feFlags.evictCandidate = true

theorem flowEvictFlow_cases (h : PlacedBut env s i) (hi : i < env.g.total) (o : Oracle) :
    (¬ Evictable s i ∧ flowEvictFlow env o s i = s) ∨
    (Evictable s i ∧ Frees env s i (evictCore (s.entry i).core) (flowEvictFlow env o s i)) := by
  unfold flowEvictFlow
  dsimp only
  split_ifs with hc
  · refine .inr ⟨by simpa [Evictable] using hc, ?_⟩
    unfold flowResetActiveEntry flowStopModify
    rw [setEntry_setEntry, setEntry_setEntry]
    exact frees_release h hi _ rfl
  · exact .inl ⟨by simpa [Evictable] using hc, rfl⟩

/-! ### Creating a flow -/

/-- The core of a new flow, on an entry of core `c`. -/
def newCore (c : Core) (x : ℕ) (key : FlowKey) (needHold : Bool) : Core where
  flags :=
    if c.flags.active then
      if c.flags.evicted then { c.flags with evicted := false, newFlow := true } else c.flags
    else { active := true, newFlow := true }
  action := c.action
  rflow := if c.flags.active then c.rflow else -1
  holdList := if needHold then some { vfqIndex := x } else c.holdList
  key := key
  keyLen := key.len

theorem take_core (e : FlowEntry) (x : ℕ) (key : FlowKey) (needHold : Bool) (type : VpType) :
    FlowEntry.core { e.take with
      feHoldList := if needHold then some { vfqIndex := x } else e.take.feHoldList
      feType := type
      feKey := key
      feKeyLen := key.len } = newCore e.core x key needHold := by
  unfold FlowEntry.take FlowEntry.takeFlags newCore FlowEntry.core
  cases ha : e.feFlags.active with
  | false => simp [FlowEntry.initFlowEntry]
  | true =>
    cases hev : e.feFlags.evicted with
    | false => simp
    | true => simp [ha]

/-- **Creation.**  A flow with the key `key` is put into the free entry `x`. -/
structure Created (env : Env) (s : FlowSys) (key : FlowKey) (needHold : Bool) (x : ℕ)
    (s' : FlowSys) : Prop where
  taken : ∃ t, findFreeHentry env.g s.table.tbl (env.hash (key, key.len)) = some (x, t)
  lt : x < env.g.total
  fresh : s.valid x = false
  valid : ∀ j, s'.valid j = if j = x then true else s.valid j
  core : (s'.entry x).core = newCore (s.entry x).core x key needHold
  others : ∀ j, j ≠ x → (s'.entry j).core = (s.entry j).core
  works : s'.works = s.works
  cbs : s'.cbs = s.cbs
  clock : s'.clock = s.clock + 1
  born : s'.born = Function.update s.born x (s.clock + 1)
  accepted : s'.accepted = s.accepted
  done : s'.done = s.done
  offered : s'.offered = s.offered
  holdCount : s'.infop.vftiHoldCount = s.infop.vftiHoldCount
  actionCount : s'.infop.vftiActionCount = s.infop.vftiActionCount
  placed : Placed env s'

theorem findFree_flow {t : Table FlowEntry} (h : Placed env s)
    (hf : findFreeHentry env.g s.table.tbl (env.hash (key, key.len)) = some (x, t)) :
    x < env.g.total ∧ s.valid x = false ∧
    (∀ j, FlowSys.valid { s with table := { s.table with tbl := t } } j =
      if j = x then true else s.valid j) ∧
    (∀ j, FlowSys.entry { s with table := { s.table with tbl := t } } j = s.entry j) ∧
    ∃ place, Inv env.g { s.table with tbl := t } place ∧ NoLimbo env.g place ∧
      Home env.g place x (bucketOf env.g (env.hash (key, key.len))) ∧
      ∀ j, j ≠ x → s.valid j = true → Home env.g place j
        (bucketOf env.g (env.hash ((s.entry j).feKey, (s.entry j).feKeyLen))) := by
  obtain ⟨place, hinv, hl, hhome⟩ := h
  obtain ⟨place', hinv', hx, hx', ht, hsame, hchain⟩ := hinv.findFree hf
  refine ⟨hx, ht.fresh, fun j => ?_, ht.payload, place', hinv', ?_, hx', fun j hj hv => ?_⟩
  · split_ifs with hjx
    · subst hjx; exact ht.valid
    · exact ht.others j hjx
  · intro j hj
    rcases hchain j with he | ⟨k, he⟩
    · rw [he]; exact hl j hj
    · rw [he]; simp
  · have := hhome j hv
    unfold Home at *
    rwa [hsame j hj]

theorem flowGetFreeEntry_created (h : Placed env s)
    (hf : flowGetFreeEntry env o s key type needHold = (some x, s')) :
    Created env s key needHold x s' := by
  unfold flowGetFreeEntry flowTableGetFreeEntry at hf
  cases hfree : findFreeHentry env.g s.table.tbl (env.hash (key, key.len)) with
  | none => simp [hfree] at hf
  | some p =>
    obtain ⟨i, t⟩ := p
    simp only [hfree] at hf
    by_cases hq : (needHold && !o.queueOk) = true
    · rw [if_pos hq] at hf
      cases hf
    rw [if_neg hq] at hf
    obtain ⟨hi, hs'⟩ := Prod.mk.inj hf
    obtain rfl := Option.some.inj hi
    obtain ⟨hlt, hfresh, hv, he, place, hinv, hl, hx, hhome⟩ := findFree_flow h hfree
    rw [setEntry_setEntry] at hs'
    have hcore : (s'.entry i).core = newCore (s.entry i).core i key needHold := by
      rw [← hs']
      change FlowEntry.core (FlowSys.entry (FlowSys.setEntry _ i _) i) = _
      rw [entry_setEntry_same, he]
      exact take_core _ _ _ _ _
    have hne : ∀ j, j ≠ i → s'.entry j = s.entry j := by
      intro j hj
      rw [← hs']
      change FlowSys.entry (FlowSys.setEntry _ i _) j = _
      rw [entry_setEntry_ne _ hj, he]
    have hvalid : ∀ j, s'.valid j = if j = i then true else s.valid j := by
      intro j
      rw [← hs']
      change FlowSys.valid (FlowSys.setEntry _ i _) j = _
      rw [valid_setEntry, hv]
    have hinv' : Inv env.g s'.table place := by
      rw [← hs']
      exact hinv.setPayload i _
    have hrest : s'.works = s.works ∧ s'.cbs = s.cbs ∧ s'.clock = s.clock + 1 ∧
        s'.born = Function.update s.born i (s.clock + 1) ∧ s'.accepted = s.accepted ∧
        s'.done = s.done ∧ s'.offered = s.offered ∧ s'.infop = s.infop := by
      rw [← hs']
      exact ⟨rfl, rfl, rfl, rfl, rfl, rfl, rfl, rfl⟩
    obtain ⟨h1, h2, h3, h4, h5, h6, h7, h8⟩ := hrest
    refine ⟨⟨t, hfree⟩, hlt, hfresh, hvalid, hcore, fun j hj => by rw [hne j hj], h1, h2, h3, h4,
      h5, h6, h7, by rw [h8], by rw [h8], place, hinv', hl, fun j hj => ?_⟩
    by_cases hji : j = i
    · subst hji
      have hk : (s'.entry j).feKey = key := congrArg Core.key hcore
      have hkl : (s'.entry j).feKeyLen = key.len := congrArg Core.keyLen hcore
      rw [hk, hkl]
      exact hx
    · rw [hne j hji]
      rw [hvalid, if_neg hji] at hj
      exact hhome j hji hj

/-- An entry that was taken and given up again, without memory for its hold queue. -/
theorem flowGetFreeEntry_none (h : Placed env s)
    (hf : flowGetFreeEntry env o s key type needHold = (none, s')) :
    s' = s ∨ ∃ x, s.valid x = false ∧ Frees env s x (resetCore (s.entry x).core) s' := by
  unfold flowGetFreeEntry flowTableGetFreeEntry at hf
  cases hfree : findFreeHentry env.g s.table.tbl (env.hash (key, key.len)) with
  | none =>
    simp only [hfree, Prod.mk.injEq, true_and] at hf
    exact .inl hf.symm
  | some p =>
    obtain ⟨i, t⟩ := p
    simp only [hfree] at hf
    by_cases hq : (needHold && !o.queueOk) = true
    swap
    · rw [if_neg hq] at hf
      cases hf
    · rw [if_pos hq] at hf
      cases hf
      obtain ⟨hlt, hfresh, hv, he, place, hinv, hl, hx, hhome⟩ := findFree_flow h hfree
      right
      refine ⟨i, hfresh, ?_⟩
      have hbut : PlacedBut env (FlowSys.setEntry { s with table := { s.table with tbl := t } } i
          FlowEntry.take) i := by
        refine PlacedBut.setEntry ⟨place, hinv, hl, fun j hj hvj => ?_⟩ _
        rw [hv, if_neg hj] at hvj
        rw [he]
        exact hhome j hj hvj
      have hr := flowResetEntry_frees hbut hlt o
      refine ⟨?_, fun j hj => ?_, fun j => ?_, hr.works, hr.cbs, hr.clock, hr.born, hr.accepted,
        hr.done, hr.offered, hr.holdCount, hr.actionCount, hr.placed⟩
      · rw [hr.core, entry_setEntry_same, he]
        have hk : ∀ e : FlowEntry, e.take.feKey = e.feKey := by
          intro e
          unfold FlowEntry.take FlowEntry.takeFlags
          dsimp only
          split_ifs <;> rfl
        exact congrArg (fun k => (⟨{}, .drop, -1, none, k, 0⟩ : Core)) (hk _)
      · rw [hr.others j hj, entry_setEntry_ne _ hj, he]
      · rw [hr.valid, valid_setEntry, hv]
        split_ifs <;> rfl

/-! ### One entry changed -/

theorem Frees.changes (h : Frees env s i c s') : Changes s i c [] s' :=
  ⟨h.core, h.others, fun j hj => by rw [h.valid, if_neg hj], by rw [h.works, List.append_nil], h.cbs⟩

theorem Created.changes (h : Created env s key needHold x s') :
    Changes s x (newCore (s.entry x).core x key needHold) [] s' :=
  ⟨h.core, h.others, fun j hj => by rw [h.valid, if_neg hj], by rw [h.works, List.append_nil], h.cbs⟩

theorem Good.frees (hg : Good env s) (h : Frees env s i c s') (hc : Blank c) : Good env s' := by
  refine hg.changes h.changes h.placed (fun hv => ?_) (fun hcand => ?_) fun _ => hc
  · simp [h.valid] at hv
  · simp [hc.cand] at hcand

end Vrouter.Flow
