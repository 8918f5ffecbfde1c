import Vrouter.Lib.Linked
import Vrouter.Htable.Model

/-! # The lists of a hash table

Every overflow entry has one *place*: the free list, the chain of one bucket, or the callbacks that
are pending; an entry that none of them holds is lost.  `Lists` ties the links of a table to a
placement, and the lemmas of this module say how the links and the placement change together when
an entry moves. -/

namespace Vrouter.Htable

open Vrouter.Lib Function

variable {g : Geometry}

/-- The overflow entries. -/
def Geometry.Overflow (g : Geometry) (i : ℕ) : Prop := g.htHentries ≤ i ∧ i < g.total

instance (g : Geometry) (i : ℕ) : Decidable (g.Overflow i) := by
  unfold Geometry.Overflow; infer_instance

/-- Where an overflow entry is.  In `limbo` are the entries of a chain that a reset has taken off
its bucket and not yet returned to the free list. -/
inductive Place
  | free
  | chain (k : ℕ)
  | deferred
  | lost
  | limbo
  deriving DecidableEq, Repr

/-- The free list, the chains and the pending callbacks hold the entries that are placed there. -/
structure Lists (g : Geometry) (nx : ℕ → Option ℕ) (freeHead : Option ℕ) (defers : List ℕ)
    (place : ℕ → Place) : Prop where
  free : ∃ l, Linked nx freeHead l ∧ ∀ i, i ∈ l ↔ g.Overflow i ∧ place i = .free
  chain : ∀ k < g.buckets, ∃ l, Linked nx (nx (headOf k)) l ∧
    ∀ i, i ∈ l ↔ g.Overflow i ∧ place i = .chain k
  deferred : ∀ i, i ∈ defers ↔ g.Overflow i ∧ place i = .deferred
  nodup : defers.Nodup

theorem headOf_lt {k : ℕ} (hk : k < g.buckets) : headOf k < g.htHentries := by
  unfold headOf Geometry.htHentries vrHentriesPerBucket
  omega

theorem headOf_not_overflow {k : ℕ} (hk : k < g.buckets) : ¬ g.Overflow (headOf k) := by
  have := headOf_lt hk
  rintro ⟨h, _⟩
  omega

theorem headOf_injective {k k' : ℕ} (h : headOf k = headOf k') : k = k' := by
  unfold headOf vrHentriesPerBucket at h
  omega

theorem Geometry.Overflow.ne_headOf {i k : ℕ} (h : g.Overflow i) (hk : k < g.buckets) :
    i ≠ headOf k := by
  rintro rfl
  exact headOf_not_overflow hk h

variable {nx nx' : ℕ → Option ℕ} {fh : Option ℕ} {defers : List ℕ} {place : ℕ → Place} {i k : ℕ}

/-- Only the links of the heads and of the entries on the free list and in the chains matter. -/
theorem Lists.congr (h : Lists g nx fh defers place)
    (hhead : ∀ k < g.buckets, nx' (headOf k) = nx (headOf k))
    (hnx : ∀ i, g.Overflow i → (place i = .free ∨ ∃ k, place i = .chain k) → nx' i = nx i) :
    Lists g nx' fh defers place where
  free := by
    obtain ⟨l, hl, hm⟩ := h.free
    exact ⟨l, hl.congr fun i hi => hnx i ((hm i).mp hi).1 (Or.inl ((hm i).mp hi).2), hm⟩
  chain := by
    intro k hk
    obtain ⟨l, hl, hm⟩ := h.chain k hk
    rw [hhead k hk]
    exact ⟨l, hl.congr fun i hi => hnx i ((hm i).mp hi).1 (Or.inr ⟨k, ((hm i).mp hi).2⟩), hm⟩
  deferred := h.deferred
  nodup := h.nodup

theorem Lists.write_lost (h : Lists g nx fh defers place) (hi : g.Overflow i)
    (hf : place i ≠ .free) (hc : ∀ k, place i ≠ .chain k) (p : Option ℕ) :
    Lists g (update nx i p) fh defers place := by
  refine h.congr (fun k hk => update_of_ne (hi.ne_headOf hk).symm _ _) ?_
  intro j _ hj
  refine update_of_ne ?_ _ _
  rintro rfl
  rcases hj with hj | ⟨k, hj⟩
  · exact hf hj
  · exact hc k hj

/-- Placing an entry anew keeps the lists that neither the old nor the new place is. -/
theorem mem_update_iff {l : List ℕ} {p q : Place} (hm : ∀ j, j ∈ l ↔ g.Overflow j ∧ place j = p)
    (hold : place i ≠ p) (hnew : q ≠ p) (j : ℕ) :
    j ∈ l ↔ g.Overflow j ∧ update place i q j = p := by
  rw [hm j]
  by_cases hj : j = i
  · subst hj; simp [hold, hnew]
  · rw [update_of_ne hj]

/-- The head of the free list goes in front of the chain of the bucket `k`. -/
theorem Lists.take_free (h : Lists g nx (some i) defers place) (hk : k < g.buckets) :
    g.Overflow i ∧ place i = .free ∧
      Lists g (update (update nx i (nx (headOf k))) (headOf k) (some i)) (nx i)
        defers (update place i (.chain k)) := by
  obtain ⟨l, hl, hm⟩ := h.free
  cases l with
  | nil => cases hl
  | cons a l =>
    obtain ⟨ha, hl'⟩ := hl
    cases ha
    obtain ⟨hov, hpl⟩ := (hm i).mp (by simp)
    have hnd : i ∉ l := (List.nodup_cons.mp (Linked.nodup (p := some i) ⟨rfl, hl'⟩)).1
    -- off the head and the entry itself the links are the old ones
    have hold : ∀ {j}, g.Overflow j → j ≠ i →
        update (update nx i (nx (headOf k))) (headOf k) (some i) j = nx j := by
      intro j hj hne
      rw [update_of_ne (hj.ne_headOf hk), update_of_ne hne]
    refine ⟨hov, hpl, ?_, ?_, ?_, h.nodup⟩
    · refine ⟨l, hl'.congr fun j hj => hold ((hm j).mp (by simp [hj])).1 ?_, fun j => ?_⟩
      · rintro rfl; exact hnd hj
      · have := hm j
        by_cases hji : j = i
        · subst hji; simp [hnd]
        · rw [update_of_ne hji, ← this]
          simp [hji]
    · intro k' hk'
      obtain ⟨c, hc, hcm⟩ := h.chain k' hk'
      by_cases hkk : k' = k
      · subst hkk
        have hic : i ∉ c := fun hmem => by
          have := ((hcm i).mp hmem).2
          rw [hpl] at this; cases this
        refine ⟨i :: c, ?_, fun j => ?_⟩
        · rw [update_self]
          refine ⟨rfl, ?_⟩
          rw [update_of_ne (hov.ne_headOf hk), update_self]
          refine hc.congr fun j hj => hold ((hcm j).mp hj).1 ?_
          rintro rfl; exact hic hj
        · by_cases hji : j = i
          · subst hji; simp [hov]
          · rw [update_of_ne hji, ← hcm j]
            simp [hji]
      · have hne : headOf k' ≠ headOf k := fun he => hkk (headOf_injective he)
        rw [update_of_ne hne, update_of_ne (hov.ne_headOf hk').symm]
        refine ⟨c, hc.congr fun j hj => hold ((hcm j).mp hj).1 ?_, fun j => ?_⟩
        · rintro rfl
          have := ((hcm j).mp hj).2
          rw [hpl] at this; cases this
        · exact mem_update_iff hcm (by rw [hpl]; simp) (by simpa using fun he => hkk he.symm) j
    · exact mem_update_iff h.deferred (by rw [hpl]; simp) (by simp)

section

variable (h : Lists g nx fh defers place)
include h

theorem Lists.put_free (hi : g.Overflow i)
    (hpl : place i = .lost ∨ place i = .limbo) :
    Lists g (update nx i fh) (some i) defers (update place i .free) := by
  have hf : place i ≠ .free := by rcases hpl with h | h <;> simp [h]
  have hc : ∀ k, place i ≠ .chain k := by rcases hpl with h | h <;> simp [h]
  have hd : place i ≠ .deferred := by rcases hpl with h | h <;> simp [h]
  have hw := h.write_lost hi hf hc fh
  refine ⟨?_, ?_, ?_, h.nodup⟩
  · obtain ⟨l, hl, hm⟩ := hw.free
    refine ⟨i :: l, ⟨rfl, by rwa [update_self]⟩, fun j => ?_⟩
    by_cases hji : j = i
    · subst hji; simp [hi]
    · rw [update_of_ne hji, ← hm j]
      simp [hji]
  · intro k hk
    obtain ⟨l, hl, hm⟩ := hw.chain k hk
    exact ⟨l, hl, fun j => mem_update_iff hm (hc k) (by simp) j⟩
  · exact mem_update_iff h.deferred hd (by simp)

/-- An entry of a chain is unlinked behind its predecessor, and is then lost. -/
theorem Lists.unlink {pre rest : List ℕ} (hk : k < g.buckets)
    (hl : Linked nx (nx (headOf k)) (pre ++ i :: rest))
    (hm : ∀ j, j ∈ pre ++ i :: rest ↔ g.Overflow j ∧ place j = .chain k) :
    let nx' := update nx ((headOf k :: pre).getLast (by simp)) (nx i)
    Lists g nx' fh defers (update place i .lost) ∧
      Linked nx' (nx' (headOf k)) (pre ++ rest) ∧
      ∀ j, j ∈ pre ++ rest ↔ g.Overflow j ∧ update place i .lost j = .chain k := by
  intro nx'
  set prev := (headOf k :: pre).getLast (by simp) with hprev
  have hnd := hl.nodup
  have hhead : headOf k ∉ pre ++ i :: rest := fun hmem =>
    headOf_not_overflow hk ((hm _).mp hmem).1
  have hpl : place i = .chain k := ((hm i).mp (by simp)).2
  -- the predecessor is the head of this bucket or an entry of this chain
  have hprevmem : prev = headOf k ∨ (g.Overflow prev ∧ place prev = .chain k) := by
    have hmem := List.getLast_mem (l := headOf k :: pre) (by simp)
    rw [← hprev] at hmem
    rcases List.mem_cons.mp hmem with he | he
    · exact Or.inl he
    · exact Or.inr ((hm prev).mp (List.mem_append_left _ he))
  have hold : ∀ {j}, g.Overflow j → place j ≠ .chain k → nx' j = nx j := by
    intro j hj hne
    refine update_of_ne ?_ _ _
    rintro rfl
    rcases hprevmem with he | he
    · exact headOf_not_overflow hk (he ▸ hj)
    · exact hne he.2
  have hunl : Linked nx' (nx' (headOf k)) (pre ++ rest) :=
    Linked.unlink hl (List.nodup_cons.mpr ⟨hhead, hnd⟩)
  have hmem : ∀ j, j ∈ pre ++ rest ↔ g.Overflow j ∧ update place i .lost j = .chain k := by
    intro j
    by_cases hji : j = i
    · subst hji
      have : j ∉ pre ++ rest := (List.nodup_cons.mp (List.nodup_middle.mp hnd)).1
      simp [this]
    · rw [update_of_ne hji, ← hm j]
      simp [hji]
  refine ⟨⟨?_, ?_, ?_, h.nodup⟩, hunl, hmem⟩
  · obtain ⟨l, hl', hm'⟩ := h.free
    refine ⟨l, hl'.congr fun j hj => ?_, fun j => mem_update_iff hm' (by simp [hpl]) (by simp) j⟩
    obtain ⟨h1, h2⟩ := (hm' j).mp hj
    exact hold h1 (by simp [h2])
  · intro k' hk'
    by_cases hkk : k' = k
    · subst hkk; exact ⟨pre ++ rest, hunl, hmem⟩
    · obtain ⟨l, hl', hm'⟩ := h.chain k' hk'
      have hhd : nx' (headOf k') = nx (headOf k') := by
        refine update_of_ne ?_ _ _
        intro he
        rcases hprevmem with hp | hp
        · exact hkk (headOf_injective (he.trans hp))
        · exact headOf_not_overflow hk' (he ▸ hp.1)
      rw [hhd]
      refine ⟨l, hl'.congr fun j hj => ?_, fun j => mem_update_iff hm' ?_ (by simp) j⟩
      · obtain ⟨h1, h2⟩ := (hm' j).mp hj
        exact hold h1 (by rw [h2]; simpa using hkk)
      · rw [hpl]; simpa using fun he => hkk he.symm
  · exact mem_update_iff h.deferred (by simp [hpl]) (by simp)

theorem Lists.defer (hi : g.Overflow i) (hpl : place i = .lost) :
    Lists g nx fh (defers ++ [i]) (update place i .deferred) where
  free := by
    obtain ⟨l, hl, hm⟩ := h.free
    exact ⟨l, hl, mem_update_iff hm (by simp [hpl]) (by simp)⟩
  chain := by
    intro k hk
    obtain ⟨l, hl, hm⟩ := h.chain k hk
    exact ⟨l, hl, mem_update_iff hm (by simp [hpl]) (by simp)⟩
  deferred := by
    intro j
    by_cases hji : j = i
    · subst hji; simp [hi]
    · rw [update_of_ne hji, ← h.deferred j]
      simp [hji]
  nodup := by
    rw [List.nodup_append]
    refine ⟨h.nodup, by simp, ?_⟩
    intro a ha b hb he
    rw [List.mem_singleton] at hb
    subst hb he
    have := ((h.deferred a).mp ha).2
    rw [hpl] at this; cases this

theorem Lists.undefer (hi : i ∈ defers) :
    g.Overflow i ∧ Lists g nx fh (defers.erase i) (update place i .lost) := by
  obtain ⟨hov, hpl⟩ := (h.deferred i).mp hi
  refine ⟨hov, ⟨?_, ?_, ?_, h.nodup.erase i⟩⟩
  · obtain ⟨l, hl, hm⟩ := h.free
    exact ⟨l, hl, mem_update_iff hm (by simp [hpl]) (by simp)⟩
  · intro k hk
    obtain ⟨l, hl, hm⟩ := h.chain k hk
    exact ⟨l, hl, mem_update_iff hm (by simp [hpl]) (by simp)⟩
  · intro j
    rw [h.nodup.mem_erase_iff]
    by_cases hji : j = i
    · subst hji; simp
    · rw [update_of_ne hji, ← h.deferred j]
      simp [hji]

/-- A reset takes the chain of the bucket `k` off: its entries are then in limbo. -/
theorem Lists.detach (hk : k < g.buckets) :
    Lists g (update nx (headOf k) none) fh defers
      fun i => if place i = .chain k then .limbo else place i := by
  have hold : ∀ {j}, g.Overflow j → update nx (headOf k) none j = nx j :=
    fun hj => update_of_ne (hj.ne_headOf hk) _ _
  refine ⟨?_, ?_, ?_, h.nodup⟩
  · obtain ⟨l, hl, hm⟩ := h.free
    refine ⟨l, hl.congr fun j hj => hold ((hm j).mp hj).1, fun j => ?_⟩
    rw [hm j]
    split_ifs with hc <;> simp [hc]
  · intro k' hk'
    by_cases hkk : k' = k
    · subst hkk
      refine ⟨[], by rw [update_self]; rfl, fun j => ?_⟩
      split_ifs with hc <;> simp [hc]
    · obtain ⟨l, hl, hm⟩ := h.chain k' hk'
      rw [update_of_ne (fun he => hkk (headOf_injective he))]
      refine ⟨l, hl.congr fun j hj => hold ((hm j).mp hj).1, fun j => ?_⟩
      rw [hm j]
      split_ifs with hc
      · rw [hc]; simp; intro _ he; exact hkk he.symm
      · rfl
  · intro j
    rw [h.deferred j]
    split_ifs with hc <;> simp [hc]

end

end Vrouter.Htable
