import Vrouter.Htable.Lists

/-! # The invariant of a hash table

`Inv` relates a table and its pending callbacks to a placement of the overflow entries: the lists
hold the entries that are placed there, the flags of an entry fit its place, `hentry_next_index`
mirrors `hentry_next` along the chains, and the two counters are exact.  Every function of the
table keeps it.  What a function does to the entries as the callers see them, which are valid and
with which payload, is stated next to it. -/

namespace Vrouter.Htable

open Vrouter.Lib Function

variable {π : Type} {g : Geometry} {s : Sys π} {t : Table π} {place : ℕ → Place} {i j k : ℕ}

/-! ### Reading a modified table -/

/-- The links of a table. -/
def Table.nx (t : Table π) (i : ℕ) : Option ℕ := (t.hentry i).hentryNext

/-- The flags of an entry. -/
abbrev Table.fl (t : Table π) (i : ℕ) : HentryFlags := (t.hentry i).hentryFlags

section

variable (f : Hentry π → Hentry π)

@[simp] theorem Table.modify_same : (t.modify i f).hentry i = f (t.hentry i) := by simp [Table.modify]

theorem Table.modify_ne (h : j ≠ i) : (t.modify i f).hentry j = t.hentry j := by simp [Table.modify, h]

theorem Table.nx_modify :
    (t.modify i f).nx = update t.nx i (f (t.hentry i)).hentryNext := by
  funext j
  by_cases hj : j = i
  · subst hj; simp [Table.nx]
  · rw [update_of_ne hj]
    simp only [Table.nx, Table.modify_ne f hj]

/-- A write that keeps the link keeps the links. -/
theorem Table.nx_modify_keep
    (hf : (f (t.hentry i)).hentryNext = (t.hentry i).hentryNext) : (t.modify i f).nx = t.nx := by
  rw [Table.nx_modify, hf]
  exact update_eq_self i t.nx

end

/-! ### The invariant -/

/-- The flags and the bucket index that an entry has in a place. -/
def PlaceFlags (g : Geometry) (e : Hentry π) : Place → Prop
  | .free => e.hentryFlags = { HentryFlags.zero with inFreeList := true }
  | .chain k => k < g.buckets ∧ e.hentryFlags.inFreeList = false ∧
      e.hentryFlags.deleteProcessed = false ∧ e.hentryBucketIndex = headOf k ∧
      ¬ (e.hentryFlags.valid = true ∧ e.hentryFlags.deleteMarked = true)
  | .deferred => e.hentryFlags.valid = false ∧ e.hentryFlags.inFreeList = false
  | .lost => e.hentryFlags.valid = false ∧ e.hentryFlags.inFreeList = false
  | .limbo => e.hentryFlags.inFreeList = false

/-- The entries whose `hentry_next_index` is kept: the heads of the chains and their entries. -/
def Mirrored (g : Geometry) (place : ℕ → Place) (i : ℕ) : Prop :=
  (∃ k < g.buckets, i = headOf k) ∨ (g.Overflow i ∧ ∃ k, place i = .chain k)

theorem Mirrored.of_update {p : Place} (h : Mirrored g (update place i p) j) (hj : j ≠ i) :
    Mirrored g place j := by
  rcases h with h | ⟨hov, k, he⟩
  · exact Or.inl h
  · rw [update_of_ne hj] at he
    exact Or.inr ⟨hov, k, he⟩

/-- An entry that leaves the chains is no longer mirrored. -/
theorem Mirrored.ne_of_update {p : Place} (h : Mirrored g (update place i p) j)
    (hi : g.Overflow i) (hp : ∀ k, p ≠ .chain k) : j ≠ i := by
  rintro rfl
  rcases h with ⟨k, hk, he⟩ | ⟨_, k, he⟩
  · exact hi.ne_headOf hk he
  · rw [update_self] at he
    exact hp k he

/-- The number of overflow entries that are not flagged as free. -/
def usedOverflow (g : Geometry) (t : Table π) : ℕ :=
  countBelow g.total fun i => decide (g.Overflow i) && !(t.fl i).inFreeList

/-- The number of valid entries. -/
def validEntries (g : Geometry) (t : Table π) : ℕ := countBelow g.total fun i => (t.fl i).valid

structure Inv (g : Geometry) (s : Sys π) (place : ℕ → Place) : Prop where
  lists : Lists g s.tbl.nx s.tbl.htFreeOentryHead s.defers place
  flags : ∀ i, g.Overflow i → PlaceFlags g (s.tbl.hentry i) (place i)
  mirror : ∀ i, Mirrored g place i →
    (s.tbl.hentry i).hentryNextIndex = nextIndexOf (s.tbl.nx i)
  mains : ∀ i < g.htHentries, (∀ k, i ≠ headOf k) → s.tbl.nx i = none
  usedOentries : s.tbl.htUsedOentries = usedOverflow g s.tbl
  usedEntries : s.tbl.htUsedEntries = validEntries g s.tbl
  works : ∀ k ∈ s.works, k < g.buckets

theorem Inv.eraseWork (h : Inv g s place) (k : ℕ) :
    Inv g { s with works := s.works.erase k } place :=
  ⟨h.lists, h.flags, h.mirror, h.mains, h.usedOentries, h.usedEntries,
    fun k' hk' => h.works k' (List.mem_of_mem_erase hk')⟩

theorem Geometry.total_lt (g : Geometry) : g.total < 2 ^ 32 := g.small

theorem incr32_eq {n m : ℕ} (h : m = n + 1) (hm : m ≤ g.total) : incr32 n = m := by
  have := g.total_lt
  unfold incr32
  omega

theorem decr32_eq {n m : ℕ} (h : n = m + 1) (hn : n ≤ g.total) : decr32 n = m := by
  have := g.total_lt
  unfold decr32
  omega

variable {e : Hentry π} {p : Place} {v : π}

theorem PlaceFlags.not_inFree (h : PlaceFlags g e p) (hp : p ≠ .free) :
    e.hentryFlags.inFreeList = false := by
  cases p with
  | free => exact absurd rfl hp
  | chain k => exact h.2.1
  | deferred => exact h.2
  | lost => exact h.2
  | limbo => exact h

theorem PlaceFlags.chain_of_valid (h : PlaceFlags g e p) (hv : e.hentryFlags.valid = true)
    (hl : p ≠ .limbo) : ∃ k < g.buckets, p = .chain k := by
  cases p with
  | free => rw [h] at hv; cases hv
  | chain k => exact ⟨k, h.1, rfl⟩
  | deferred => rw [h.1] at hv; cases hv
  | lost => rw [h.1] at hv; cases hv
  | limbo => exact absurd rfl hl

/-! ### What the callers see -/

/-- The two tables have the same valid entries, with the same payloads. -/
def SameEntries (t t' : Table π) : Prop :=
  ∀ i, (t'.fl i).valid = (t.fl i).valid ∧ (t'.hentry i).payload = (t.hentry i).payload

theorem SameEntries.refl (t : Table π) : SameEntries t t := fun _ => ⟨rfl, rfl⟩

theorem SameEntries.trans {t t' t'' : Table π} (h : SameEntries t t') (h' : SameEntries t' t'') :
    SameEntries t t'' :=
  fun i => ⟨(h' i).1.trans (h i).1, (h' i).2.trans (h i).2⟩

theorem SameEntries.modify (f : Hentry π → Hentry π)
    (hv : (f (t.hentry i)).hentryFlags.valid = (t.fl i).valid)
    (hp : (f (t.hentry i)).payload = (t.hentry i).payload) : SameEntries t (t.modify i f) := by
  intro j
  by_cases hj : j = i
  · subst hj; simp only [Table.fl, Table.modify_same]; exact ⟨hv, hp⟩
  · simp only [Table.fl, Table.modify_ne f hj, and_self]

theorem validEntries_congr {t t' : Table π} (h : ∀ i, (t'.fl i).valid = (t.fl i).valid) :
    validEntries g t' = validEntries g t :=
  countBelow_congr fun i _ => h i

/-! ### Returning an entry to the free list -/

theorem oentryInvalidate_eq (hi : g.Overflow i) (hf : (t.fl i).inFreeList = false) :
    oentryInvalidate g t i =
      { t.modify i (fun e => { e with
          hentryFlags := { HentryFlags.zero with inFreeList := true }
          hentryBucketIndex := vrInvalidHentryIndex
          hentryNextIndex := vrInvalidHentryIndex
          hentryNext := t.htFreeOentryHead }) with
        htFreeOentryHead := some i
        htUsedOentries := decr32 t.htUsedOentries } := by
  have h1 : ¬ i < g.htHentries := Nat.not_lt.mpr hi.1
  simp only [oentryInvalidate, putFreeOentry, if_neg h1, Table.modify_same]
  rw [if_neg (by rw [hf]; simp)]
  simp only [Table.modify, update_idem, update_self]

theorem Inv.invalidate (h : Inv g s place) (hi : g.Overflow i)
    (hpl : place i = .lost ∨ place i = .limbo) (hv : (s.tbl.fl i).valid = false) :
    Inv g { s with tbl := oentryInvalidate g s.tbl i } (update place i .free) ∧
      SameEntries s.tbl (oentryInvalidate g s.tbl i) := by
  have hnf : place i ≠ .free := by rcases hpl with h | h <;> simp [h]
  have hf := (h.flags i hi).not_inFree hnf
  rw [oentryInvalidate_eq hi hf]
  set f : Hentry π → Hentry π := fun e => { e with
    hentryFlags := { HentryFlags.zero with inFreeList := true }
    hentryBucketIndex := vrInvalidHentryIndex
    hentryNextIndex := vrInvalidHentryIndex
    hentryNext := s.tbl.htFreeOentryHead }
  have hsame : SameEntries s.tbl (s.tbl.modify i f) := SameEntries.modify _ hv.symm rfl
  refine ⟨⟨?_, ?_, ?_, ?_, ?_, ?_, h.works⟩, hsame⟩
  · have := h.lists.put_free hi hpl
    rw [← Table.nx_modify f] at this
    exact this
  · intro j hj
    by_cases hji : j = i
    · subst hji
      simp only [Table.modify_same, update_self]
      rfl
    · simp only [Table.modify_ne _ hji, update_of_ne hji]
      exact h.flags j hj
  · intro j hj
    have hji := hj.ne_of_update hi (by simp)
    simp only [Table.nx, Table.modify_ne _ hji]
    exact h.mirror j (hj.of_update hji)
  · intro j hj hh
    have hji : j ≠ i := by rintro rfl; exact absurd hi.1 (Nat.not_le.mpr hj)
    simp only [Table.nx, Table.modify_ne _ hji]
    exact h.mains j hj hh
  · refine decr32_eq (g := g) ?_ (h.usedOentries ▸ countBelow_le _ _)
    rw [h.usedOentries]
    refine countBelow_add (i := i) hi.2 ?_ ?_ ?_
    · simp [Table.fl, f]
    · simp [hi, hf]
    · intro j _ hji
      simp only [Table.fl, Table.modify_ne _ hji]
  · exact h.usedEntries.trans (validEntries_congr fun j => (hsame j).1).symm

/-! ### Writes that keep the lists -/

theorem Inv.modify (h : Inv g s place) (f : Hentry π → Hentry π) (n : ℕ)
    (hnext : (f (s.tbl.hentry i)).hentryNext = (s.tbl.hentry i).hentryNext)
    (hindex : (f (s.tbl.hentry i)).hentryNextIndex = (s.tbl.hentry i).hentryNextIndex)
    (hplace : g.Overflow i → PlaceFlags g (f (s.tbl.hentry i)) (place i) ∧
      (f (s.tbl.hentry i)).hentryFlags.inFreeList = (s.tbl.fl i).inFreeList)
    (hn : n = validEntries g (s.tbl.modify i f)) :
    Inv g { s with tbl := { s.tbl.modify i f with htUsedEntries := n } } place := by
  have hnx : (s.tbl.modify i f).nx = s.tbl.nx := Table.nx_modify_keep f hnext
  refine ⟨?_, ?_, ?_, ?_, ?_, hn, h.works⟩
  · have hl := h.lists
    rw [← hnx] at hl
    exact hl
  · intro j hj
    by_cases hji : j = i
    · subst hji; simp only [Table.modify_same]; exact (hplace hj).1
    · simp only [Table.modify_ne f hji]; exact h.flags j hj
  · intro j hj
    have hm := h.mirror j hj
    rw [← hnx] at hm
    by_cases hji : j = i
    · subst hji
      rw [← hindex] at hm
      simpa only [Table.nx, Table.modify_same] using hm
    · simpa only [Table.nx, Table.modify_ne f hji] using hm
  · intro j hj hh
    have hm := h.mains j hj hh
    rw [← hnx] at hm
    exact hm
  · refine h.usedOentries.trans (countBelow_congr fun j _ => ?_)
    by_cases hji : j = i
    · subst hji
      by_cases hj : g.Overflow j
      · simp only [Table.fl, Table.modify_same, (hplace hj).2]
      · simp only [hj, decide_false, Bool.false_and]
    · simp only [Table.fl, Table.modify_ne f hji]

theorem validEntries_clear (f : Hentry π → Hentry π) (hi : i < g.total)
    (hv : (t.fl i).valid = true) (hf : (f (t.hentry i)).hentryFlags.valid = false) :
    validEntries g t = validEntries g (t.modify i f) + 1 := by
  refine countBelow_add (i := i) hi ?_ hv fun j _ hji => ?_
  · simp only [Table.fl, Table.modify_same, hf]
  · simp only [Table.fl, Table.modify_ne f hji]

theorem validEntries_set (f : Hentry π → Hentry π) (hi : i < g.total)
    (hv : (t.fl i).valid = false) (hf : (f (t.hentry i)).hentryFlags.valid = true) :
    validEntries g (t.modify i f) = validEntries g t + 1 := by
  refine countBelow_add (i := i) hi hv ?_ fun j _ hji => ?_
  · simp only [Table.fl, Table.modify_same, hf]
  · simp only [Table.fl, Table.modify_ne f hji]

theorem setPayload_same :
    (s.setPayload i v).tbl.hentry i = { s.tbl.hentry i with payload := v } := by
  simp only [Sys.setPayload, Table.modify_same]

theorem setPayload_ne (h : j ≠ i) : (s.setPayload i v).tbl.hentry j = s.tbl.hentry j := by
  simp only [Sys.setPayload, Table.modify_ne _ h]

theorem setPayload_fl (j : ℕ) : (s.setPayload i v).tbl.fl j = s.tbl.fl j := by
  by_cases h : j = i
  · subst h; simp only [Table.fl, setPayload_same]
  · simp only [Table.fl, setPayload_ne h]

theorem Inv.setPayload (h : Inv g s place) (i : ℕ) (v : π) : Inv g (s.setPayload i v) place := by
  have hv : s.tbl.htUsedEntries = validEntries g (s.setPayload i v).tbl :=
    h.usedEntries.trans (validEntries_congr fun j => by rw [setPayload_fl]).symm
  refine h.modify (fun e => { e with payload := v }) s.tbl.htUsedEntries rfl rfl (fun hi => ?_) hv
  refine ⟨?_, rfl⟩
  have := h.flags i hi
  revert this
  cases place i <;> exact id

/-! ### Releasing -/

/-- A valid flag that is cleared fits every place that the entry can be in. -/
theorem PlaceFlags.clear (h : PlaceFlags g e p) (hv : e.hentryFlags.valid = true) (m : Bool) :
    PlaceFlags g { e with hentryFlags := { e.hentryFlags with valid := false, deleteMarked := m } }
      p := by
  cases p with
  | free => rw [h] at hv; cases hv
  | chain k => exact ⟨h.1, h.2.1, h.2.2.1, h.2.2.2.1, by simp⟩
  | deferred => exact ⟨rfl, h.2⟩
  | lost => exact ⟨rfl, h.2⟩
  | limbo => exact h

theorem clearValid_entries (t : Table π) (i : ℕ) :
    ((clearValid t i).fl i).valid = false ∧
      (∀ j ≠ i, (clearValid t i).hentry j = t.hentry j) ∧
      (∀ j, ((clearValid t i).hentry j).payload = (t.hentry j).payload) := by
  unfold clearValid
  split_ifs with hv
  · refine ⟨by simp only [Table.fl, Table.modify_same], fun j hj => ?_, fun j => ?_⟩
    · simp only [Table.modify_ne _ hj]
    by_cases hji : j = i
    · subst hji; simp only [Table.modify_same]
    · simp only [Table.modify_ne _ hji]
  · exact ⟨by simpa using hv, fun _ _ => rfl, fun _ => rfl⟩

theorem clearValid_nx (t : Table π) (i : ℕ) : (clearValid t i).nx = t.nx := by
  unfold clearValid
  split_ifs with hv
  · funext j
    by_cases hji : j = i
    · subst hji; simp only [Table.nx, Table.modify_same]
    · simp only [Table.nx, Table.modify_ne _ hji]
  · rfl

theorem Inv.clearValid (h : Inv g s place) (hi : i < g.total) :
    Inv g { s with tbl := Htable.clearValid s.tbl i } place := by
  unfold Htable.clearValid
  split_ifs with hv
  · refine h.modify _ _ rfl rfl (fun hov => ⟨(h.flags i hov).clear hv _, rfl⟩) ?_
    have := validEntries_clear (g := g)
      (fun e => { e with hentryFlags := { e.hentryFlags with valid := false } }) hi hv rfl
    exact decr32_eq (g := g) (h.usedEntries.trans this)
      (h.usedEntries ▸ countBelow_le _ _)
  · exact h

end Vrouter.Htable
