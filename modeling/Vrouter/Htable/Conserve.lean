import Mathlib.Data.Set.Card
import Vrouter.Lib.Reach
import Vrouter.Htable.Ops

/-! # Conservation of the overflow entries

Runs of the table alone: entries are taken and released, payloads written, the pending items run,
and the table is reset, with every outcome of the allocations and of `vr_schedule_work`, and with
`vr_not_ready` set or not.  Each overflow entry is on the free list, in the chain of one bucket or
behind one pending callback, and the two counters are exact, as long as the data for a deferred
deletion can be allocated when it is needed.

The deletion work unlinks an entry before it allocates that data, so when the allocation fails the
entry is in no list any more, and the branch that would try again for a processed entry never
meets it. -/

namespace Vrouter.Htable

open Vrouter.Lib Function

variable {π : Type} {g : Geometry} {s s' : Sys π} {t : Table π} {place : ℕ → Place} {i k : ℕ}

/-! ### Resetting -/

theorem Inv.detach (h : Inv g s place) (hk : k < g.buckets) :
    Inv g { s with tbl := s.tbl.modify (headOf k) fun e =>
        { e with hentryNext := none, hentryNextIndex := vrInvalidHentryIndex } }
      fun i => if place i = .chain k then .limbo else place i := by
  set f : Hentry π → Hentry π := fun e =>
    { e with hentryNext := none, hentryNextIndex := vrInvalidHentryIndex } with hf
  have hnx : (s.tbl.modify (headOf k) f).nx = update s.tbl.nx (headOf k) none :=
    Table.nx_modify f
  have hfl : ∀ j, (s.tbl.modify (headOf k) f).fl j = s.tbl.fl j := by
    intro j
    by_cases hj : j = headOf k
    · subst hj; simp only [Table.fl, Table.modify_same]; rfl
    · simp only [Table.fl, Table.modify_ne f hj]
  refine ⟨?_, ?_, ?_, ?_, ?_, ?_, h.works⟩
  · have := h.lists.detach hk
    rw [← hnx] at this
    exact this
  · intro j hj
    simp only [Table.modify_ne f (hj.ne_headOf hk)]
    have := h.flags j hj
    split_ifs with hc
    · rw [hc] at this; exact this.2.1
    · exact this
  · intro j hj
    by_cases hjk : j = headOf k
    · subst hjk; simp only [Table.nx, Table.modify_same]; rfl
    · simp only [Table.nx, Table.modify_ne f hjk]
      refine h.mirror j ?_
      rcases hj with hj | ⟨hov, k', he⟩
      · exact Or.inl hj
      · beta_reduce at he
        split_ifs at he with hc
        exact Or.inr ⟨hov, k', he⟩
  · intro j hj hh
    simp only [Table.nx, Table.modify_ne f (hh k)]
    exact h.mains j hj hh
  · exact h.usedOentries.trans (countBelow_congr fun j _ => by rw [hfl])
  · exact h.usedEntries.trans (validEntries_congr fun j => by rw [hfl]).symm

/-- The inner loop of the reset returns the entries of the detached chain to the free list. -/
theorem resetChain_inv : ∀ (fuel : ℕ) (t : Table π) (place : ℕ → Place) (p : Option ℕ)
    (l : List ℕ), Inv g { s with tbl := t } place → Linked t.nx p l →
    (∀ j, j ∈ l ↔ g.Overflow j ∧ place j = .limbo) → l.length ≤ fuel →
    ∃ t' place', resetChain g fuel t p = some t' ∧ Inv g { s with tbl := t' } place' ∧
      NoLimbo g place' ∧
      ∀ j, place' j = place j ∨ place' j = .free
  | fuel, t, place, p, [], h, hl, hm, _ => by
    obtain rfl : p = none := hl
    refine ⟨t, place, by cases fuel <;> rfl, h, fun j hj he => ?_, fun _ => Or.inl rfl⟩
    exact absurd ((hm j).mpr ⟨hj, he⟩) (by simp)
  | 0, t, place, p, i :: l, _, _, _, hlen => by simp at hlen
  | fuel + 1, t, place, p, i :: l, h, hl, hm, hlen => by
    obtain ⟨rfl, hl'⟩ := hl
    obtain ⟨hov, hpl⟩ := (hm i).mp (by simp)
    have hnot : i ∉ l := (List.nodup_cons.mp (Linked.nodup (p := some i) ⟨rfl, hl'⟩)).1
    obtain ⟨hinv, -⟩ := (h.clearValid hov.2).invalidate hov (Or.inr hpl)
      (clearValid_entries t i).1
    have hlink : Linked (oentryInvalidate g (clearValid t i) i).nx (t.hentry i).hentryNext l := by
      refine hl'.congr fun j hj => ?_
      have hji : j ≠ i := by rintro rfl; exact hnot hj
      rw [oentryInvalidate_nx_ne hji, clearValid_nx]
    have hmem : ∀ j, j ∈ l ↔ g.Overflow j ∧ update place i .free j = .limbo := by
      intro j
      by_cases hji : j = i
      · subst hji; simp [hnot]
      · rw [update_of_ne hji, ← hm j]
        simp [hji]
    obtain ⟨t', place', hrun, hinv', hno, hpl'⟩ := resetChain_inv fuel _ _ _ l hinv hlink hmem
      (by simp at hlen; omega)
    refine ⟨t', place', hrun, hinv', hno, fun j => ?_⟩
    rcases hpl' j with he | he
    · by_cases hji : j = i
      · subst hji; rw [update_self] at he; exact Or.inr he
      · rw [update_of_ne hji] at he; exact Or.inl he
    · exact Or.inr he

/-- What the callback of a reset does to an entry: it rewrites the payload, and may release the
entry. -/
structure ResetCb (π : Type) where
  update : ℕ → π → π
  frees : ℕ → π → Bool
  notReady : Bool
  schedOk : Bool

def ResetCb.run (g : Geometry) (cb : ResetCb π) (i : ℕ) (s : Sys π) : Sys π :=
  let v := (s.tbl.hentry i).payload
  let s := s.setPayload i (cb.update i v)
  if cb.frees i v then releaseHentry g cb.notReady cb.schedOk s i else s

theorem ResetCb.run_inv (cb : ResetCb π) (h : Inv g s place) (hl : NoLimbo g place)
    (hi : i < g.total) : Inv g (cb.run g i s) place := by
  have hset := h.setPayload i (cb.update i (s.tbl.hentry i).payload)
  unfold ResetCb.run
  dsimp only
  split_ifs
  · exact (hset.release hl hi _ _).1
  · exact hset

/-- The invariant outside a reset, when no entry was lost. -/
def Whole (g : Geometry) (s : Sys π) : Prop :=
  ∃ place, Inv g s place ∧ NoLimbo g place ∧ ∀ i, g.Overflow i → place i ≠ .lost

theorem resetEntry_whole (cb : ResetCb π) (h : Whole g s) (hi : i < g.total) :
    ∃ s', resetEntry g (cb.run g) s i = some s' ∧ Whole g s' := by
  obtain ⟨place, hinv, hl, hlost⟩ := h
  have h₁ := (cb.run_inv hinv hl hi).clearValid hi
  unfold resetEntry
  dsimp only
  set t := clearValid (cb.run g i s).tbl i with ht
  by_cases hmain : i < g.htHentries
  · rw [if_pos hmain]
    cases hnext : (t.hentry i).hentryNext with
    | none => exact ⟨_, rfl, place, h₁, hl, hlost⟩
    | some o =>
      dsimp only
      -- only the head of a chain has a link
      obtain ⟨k, rfl⟩ : ∃ k, i = headOf k := by
        by_contra hno
        have := h₁.mains i hmain fun k he => hno ⟨k, he⟩
        rw [Table.nx, hnext] at this
        cases this
      have hk : k < g.buckets := by
        unfold Geometry.htHentries headOf vrHentriesPerBucket at hmain
        omega
      obtain ⟨l, hlk, hm⟩ := h₁.lists.chain k hk
      have hlen := length_le_htOentries hlk.nodup fun j hj => ((hm j).mp hj).1
      have hdet := h₁.detach hk
      set t' := t.modify (headOf k) (fun e =>
        { e with hentryNext := none, hentryNextIndex := vrInvalidHentryIndex }) with ht'
      have hlink : Linked t'.nx (some o) l := by
        rw [← hnext]
        refine hlk.congr fun j hj => ?_
        simp only [ht', Table.nx, Table.modify_ne _ (((hm j).mp hj).1.ne_headOf hk)]
      obtain ⟨t'', place', hrun, hinv', hno, hpl⟩ := resetChain_inv g.htOentries t' _ _ l hdet hlink
        (fun j => by
          rw [hm j]
          refine and_congr_right fun hj => ?_
          split_ifs with hc
          · simp [hc]
          · simp [hc, hl j hj]) hlen
      refine ⟨_, by rw [hrun]; rfl, place', hinv', hno, fun j hj he => ?_⟩
      rcases hpl j with hp | hp
      · rw [hp] at he
        split_ifs at he
        exact hlost j hj he
      · rw [hp] at he; cases he
  · rw [if_neg hmain]
    exact ⟨_, rfl, place, h₁, hl, hlost⟩

theorem reset_whole (cb : ResetCb π) (h : Whole g s) :
    ∃ s', reset g (cb.run g) s = some s' ∧ Whole g s' := by
  -- over any list of entries
  have hall : ∀ (l : List ℕ) (s : Sys π), Whole g s → (∀ i ∈ l, i < g.total) →
      ∃ s', l.foldlM (resetEntry g (cb.run g)) s = some s' ∧ Whole g s' := by
    intro l
    induction l with
    | nil => exact fun s hs _ => ⟨s, rfl, hs⟩
    | cons i l ih =>
      intro s hs hlt
      obtain ⟨s₁, hr, hs₁⟩ := resetEntry_whole cb hs (hlt i (by simp))
      obtain ⟨s', hr', hs'⟩ := ih s₁ hs₁ fun j hj => hlt j (by simp [hj])
      exact ⟨s', by rw [List.foldlM_cons, hr]; exact hr', hs'⟩
  exact hall _ s h fun i hi => List.mem_range.mp hi

/-! ### The runs -/

inductive TableOp (π : Type)
  | findFree (hash : ℕ)
  | write (i : ℕ) (v : π)
  | release (i : ℕ) (notReady schedOk : Bool)
  | work (k : ℕ) (notReady : Bool) (allocOk : ℕ → Bool)
  | deferred (i : ℕ)
  | reset (cb : ResetCb π)

def tableStep (g : Geometry) (s : Sys π) : TableOp π → Option (Sys π)
  | .findFree hash =>
    match findFreeHentry g s.tbl hash with
    | none => some s
    | some (_, t) => some { s with tbl := t }
  | .write i v => some (s.setPayload i v)
  | .release i notReady schedOk =>
    if i < g.total then some (releaseHentry g notReady schedOk s i) else none
  | .work k notReady allocOk =>
    if k ∈ s.works then
      scheduledDelete g notReady allocOk { s with works := s.works.erase k } k
    else none
  | .deferred i =>
    if i ∈ s.defers then some (deferDelete g { s with defers := s.defers.erase i } i) else none
  | .reset cb => Htable.reset g (cb.run g) s

/-- No allocation of the data for a deferred deletion fails. -/
def DeferAllocated (g : Geometry) (_ : Sys π) : TableOp π → Prop
  | .work _ notReady allocOk => notReady = true ∨ ∀ i < g.total, allocOk i = true
  | _ => True

instance (g : Geometry) (s : Sys π) (op : TableOp π) : Decidable (DeferAllocated g s op) := by
  cases op <;> unfold DeferAllocated <;> infer_instance

theorem Whole.works_erase {k : ℕ} (h : Whole g s) :
    Whole g { s with works := s.works.erase k } := by
  obtain ⟨place, hinv, hl, hlost⟩ := h
  exact ⟨place, hinv.eraseWork k, hl, hlost⟩

theorem Whole.moved {lossless : Prop} {place' : ℕ → Place} (hm : Moved g lossless s place s' place')
    (hl : NoLimbo g place) (hlost : ∀ i, g.Overflow i → place i ≠ .lost) (hok : lossless) :
    Whole g s' :=
  ⟨place', hm.inv, fun i hi h => hl i hi (hm.limbo i h),
    fun i hi h => hlost i hi (hm.lost hok i h)⟩

theorem tableStep_whole {op : TableOp π} (h : Whole g s) (hp : DeferAllocated g s op)
    (hs : tableStep g s op = some s') : Whole g s' := by
  cases op with
  | findFree hash =>
    obtain ⟨place, hinv, hl, hlost⟩ := h
    simp only [tableStep] at hs
    cases hf : findFreeHentry g s.tbl hash with
    | none =>
      rw [hf] at hs
      cases hs
      exact ⟨place, hinv, hl, hlost⟩
    | some r =>
      obtain ⟨i, t⟩ := r
      rw [hf] at hs
      cases hs
      obtain ⟨place', hinv', -, -, -, -, hcase⟩ := hinv.findFree hf
      -- an entry is where it was, or in a chain
      refine ⟨place', hinv', fun j hj he => ?_, fun j hj he => ?_⟩
      · rcases hcase j with hc | ⟨k, hc⟩
        · exact hl j hj (hc ▸ he)
        · rw [hc] at he; cases he
      · rcases hcase j with hc | ⟨k, hc⟩
        · exact hlost j hj (hc ▸ he)
        · rw [hc] at he; cases he
  | write i v =>
    obtain ⟨place, hinv, hl, hlost⟩ := h
    cases hs
    exact ⟨place, hinv.setPayload i v, hl, hlost⟩
  | release i nr ok =>
    obtain ⟨place, hinv, hl, hlost⟩ := h
    simp only [tableStep] at hs
    split_ifs at hs with hi
    cases hs
    exact ⟨place, (hinv.release hl hi nr ok).1, hl, hlost⟩
  | work k nr allocOk =>
    simp only [tableStep] at hs
    split_ifs at hs with hk
    have hlt : k < g.buckets := by
      obtain ⟨_, hinv, _, _⟩ := h
      exact hinv.works k hk
    obtain ⟨place, hinv, hl, hlost⟩ := h.works_erase (k := k)
    obtain ⟨s₁, place', hrun, hm⟩ := hinv.scheduledDelete nr allocOk hlt
    rw [hrun] at hs
    cases hs
    exact Whole.moved hm hl hlost hp
  | deferred i =>
    obtain ⟨place, hinv, hl, hlost⟩ := h
    simp only [tableStep] at hs
    split_ifs at hs with hi
    cases hs
    exact Whole.moved (hinv.deferDelete hi True) hl hlost trivial
  | reset cb =>
    obtain ⟨s₁, hrun, hw⟩ := reset_whole cb h
    simp only [tableStep] at hs
    rw [hrun] at hs
    cases hs
    exact hw

theorem tableStep_work_isSome {k : ℕ} (h : Whole g s) (hk : k ∈ s.works) (nr : Bool)
    (allocOk : ℕ → Bool) : (tableStep g s (.work k nr allocOk)).isSome := by
  have hlt : k < g.buckets := by
    obtain ⟨_, hinv, _, _⟩ := h
    exact hinv.works k hk
  obtain ⟨place, hinv, hl, hlost⟩ := h.works_erase (k := k)
  obtain ⟨s₁, place', hrun, hm⟩ := hinv.scheduledDelete nr allocOk hlt
  simp only [tableStep, if_pos hk, hrun, Option.isSome_some]

/-! ### Where the entries are -/

/-- The entry is on the free list. -/
def OnFreeList (t : Table π) (i : ℕ) : Prop := ∃ l, Linked t.nx t.htFreeOentryHead l ∧ i ∈ l

/-- The entry is in the chain of the bucket `k`. -/
def InChain (t : Table π) (k i : ℕ) : Prop := ∃ l, Linked t.nx (t.nx (headOf k)) l ∧ i ∈ l

/-- Each overflow entry is in exactly one place. -/
def Conserved (g : Geometry) (s : Sys π) : Prop :=
  ∀ i, g.Overflow i →
    (OnFreeList s.tbl i ∧ (∀ k < g.buckets, ¬ InChain s.tbl k i) ∧ s.defers.count i = 0) ∨
    (¬ OnFreeList s.tbl i ∧ (∃ k < g.buckets, InChain s.tbl k i ∧
      ∀ k' < g.buckets, InChain s.tbl k' i → k' = k) ∧ s.defers.count i = 0) ∨
    (¬ OnFreeList s.tbl i ∧ (∀ k < g.buckets, ¬ InChain s.tbl k i) ∧ s.defers.count i = 1)

/-- The two counters of the table are exact. -/
def Counted (g : Geometry) (s : Sys π) : Prop :=
  s.tbl.htUsedOentries = {i | g.Overflow i ∧ ¬ OnFreeList s.tbl i}.ncard ∧
  s.tbl.htUsedEntries = {i | i < g.total ∧ (s.tbl.hentry i).hentryFlags.valid = true}.ncard

section

variable (h : Inv g s place) (hi : g.Overflow i)
include h hi

theorem Inv.onFreeList_iff : OnFreeList s.tbl i ↔ place i = .free := by
  obtain ⟨l, hl, hm⟩ := h.lists.free
  constructor
  · rintro ⟨l', hl', hmem⟩
    rw [hl'.unique hl] at hmem
    exact ((hm i).mp hmem).2
  · exact fun hp => ⟨l, hl, (hm i).mpr ⟨hi, hp⟩⟩

theorem Inv.inChain_iff (hk : k < g.buckets) :
    InChain s.tbl k i ↔ place i = .chain k := by
  obtain ⟨l, hl, hm⟩ := h.lists.chain k hk
  constructor
  · rintro ⟨l', hl', hmem⟩
    rw [hl'.unique hl] at hmem
    exact ((hm i).mp hmem).2
  · exact fun hp => ⟨l, hl, (hm i).mpr ⟨hi, hp⟩⟩

theorem Inv.count_defers : s.defers.count i = if place i = .deferred then 1 else 0 := by
  split_ifs with hp
  · exact List.count_eq_one_of_mem h.lists.nodup ((h.lists.deferred i).mpr ⟨hi, hp⟩)
  · exact List.count_eq_zero.mpr fun hmem => hp ((h.lists.deferred i).mp hmem).2

theorem Inv.place_free_iff : place i = .free ↔ (s.tbl.fl i).inFreeList = true := by
  have hf := h.flags i hi
  constructor
  · intro hp
    rw [hp] at hf
    rw [Table.fl, hf]
  · intro hin
    by_contra hp
    have := hf.not_inFree hp
    rw [Table.fl, this] at hin
    cases hin

end

theorem Whole.conserved (h : Whole g s) : Conserved g s := by
  obtain ⟨place, hinv, hl, hlost⟩ := h
  intro i hi
  have hc := fun k (hk : k < g.buckets) => hinv.inChain_iff hi hk
  rw [hinv.onFreeList_iff hi, hinv.count_defers hi]
  cases hp : place i with
  | free =>
    refine Or.inl ⟨rfl, fun k hk => ?_, by simp⟩
    rw [hc k hk, hp]; simp
  | chain k =>
    have hk : k < g.buckets := by
      have := hinv.flags i hi
      rw [hp] at this
      exact this.1
    refine Or.inr (Or.inl ⟨by simp, ⟨k, hk, (hc k hk).mpr hp, fun k' hk' hin => ?_⟩, by simp⟩)
    rw [hc k' hk', hp] at hin
    exact (Place.chain.inj hin).symm
  | deferred =>
    refine Or.inr (Or.inr ⟨by simp, fun k hk => ?_, by simp⟩)
    rw [hc k hk, hp]; simp
  | lost => exact absurd hp (hlost i hi)
  | limbo => exact absurd hp (hl i hi)

theorem countBelow_eq_ncard {n : ℕ} {p : ℕ → Bool} :
    countBelow n p = {i | i < n ∧ p i = true}.ncard := by
  unfold countBelow
  rw [← Set.ncard_coe_finset]
  congr 1
  ext i
  simp

theorem Inv.counted (h : Inv g s place) : Counted g s := by
  refine ⟨?_, h.usedEntries.trans countBelow_eq_ncard⟩
  rw [h.usedOentries, usedOverflow, countBelow_eq_ncard]
  congr 1
  ext i
  simp only [Set.mem_ofPred_eq, Bool.and_eq_true, decide_eq_true_eq, Bool.not_eq_true']
  constructor
  · rintro ⟨_, hov, hf⟩
    refine ⟨hov, ?_⟩
    rw [h.onFreeList_iff hov, h.place_free_iff hov, hf]
    simp
  · rintro ⟨hov, hf⟩
    rw [h.onFreeList_iff hov, h.place_free_iff hov] at hf
    exact ⟨hov.2, hov, by simpa using hf⟩

/-- **Conservation.**  In every state that a run reaches in which no allocation of deferred data
fails, each overflow entry is in exactly one place and the counters are exact; and the pending work
and a reset run to their end there. -/
theorem conserved_run (g : Geometry) (zero : π)
    (h : Reach (tableStep g) (DeferAllocated g) (create g zero) s) :
    Conserved g s ∧ Counted g s ∧
      (∀ k ∈ s.works, ∀ nr allocOk, (tableStep g s (.work k nr allocOk)).isSome) ∧
      ∀ cb, (tableStep g s (.reset cb)).isSome := by
  have hw : Whole g s := h.invariant
    ⟨fun _ => .free, create_inv g zero, by simp [NoLimbo], by simp⟩
    fun _ _ _ hi hp hs => tableStep_whole hi hp hs
  refine ⟨hw.conserved, ?_, fun k hk nr allocOk => tableStep_work_isSome hw hk nr allocOk, ?_⟩
  · obtain ⟨place, hinv, -, -⟩ := hw
    exact hinv.counted
  · intro cb
    obtain ⟨s', hrun, -⟩ := reset_whole cb hw
    simp only [tableStep, hrun, Option.isSome_some]

/-- A table of one bucket and one overflow entry. -/
theorem tiny_small : 1 * vrHentriesPerBucket + 1 < 2 ^ 32 := by decide

def tinyGeometry : Geometry := ⟨1, 1, Nat.one_pos, tiny_small⟩

/-- The table is filled, and its overflow entry released and unlinked. -/
def tinyRun (alloc : Bool) : List (TableOp Unit) :=
  List.replicate 5 (.findFree 0) ++ [.release 4 false true, .work 0 false fun _ => alloc]

theorem conserved_run_tiny :
    ∃ s, runWhen (tableStep tinyGeometry) (DeferAllocated tinyGeometry) (tinyRun true)
        (create tinyGeometry ()) = some s ∧ Conserved tinyGeometry s ∧ Counted tinyGeometry s := by
  have hsome : (runWhen (tableStep tinyGeometry) (DeferAllocated tinyGeometry) (tinyRun true)
      (create tinyGeometry ())).isSome = true := by decide +kernel
  obtain ⟨s, hs⟩ := Option.isSome_iff_exists.mp hsome
  have h := conserved_run tinyGeometry () (Reach.of_runWhen .init hs)
  exact ⟨s, hs, h.1, h.2.1⟩

/-- When the allocation fails, the overflow entry ends up on the free list, in the chain and behind
a callback in no way. -/
theorem not_conserved_tiny :
    ∃ s, Reach (tableStep tinyGeometry) (fun _ _ => True) (create tinyGeometry ()) s ∧
      ¬ Conserved tinyGeometry s := by
  obtain ⟨s, hs, hfree, hchain, hcount⟩ : ∃ s, runWhen (tableStep tinyGeometry) (fun _ _ => True)
      (tinyRun false) (create tinyGeometry ()) = some s ∧ s.tbl.htFreeOentryHead = none ∧
      s.tbl.nx (headOf 0) = none ∧ s.defers.count 4 = 0 := exists_of_decide (by decide +kernel)
  refine ⟨s, Reach.of_runWhen .init hs, fun hc => ?_⟩
  rcases hc 4 (by decide) with ⟨⟨l, hl, hm⟩, _⟩ | ⟨_, ⟨k, hk, ⟨l, hl, hm⟩, _⟩, _⟩ | ⟨_, _, h1⟩
  · rw [hfree] at hl
    rw [hl.eq_nil] at hm
    simp at hm
  · obtain rfl : k = 0 := Nat.lt_one_iff.mp hk
    rw [hchain] at hl
    rw [hl.eq_nil] at hm
    simp at hm
  · omega

end Vrouter.Htable
