import Mathlib.Order.Interval.Finset.Nat
import Vrouter.Htable.Invariant

/-! # The functions of a hash table keep its invariant

For each function of the table: the invariant holds afterwards, for a placement that differs from
the old one only where the function moved an entry, and the callers see the entries change in the
way the function is for.  The two loops, of the deletion work and of the reset, end within the
number of overflow entries, since the lists they walk have no repetitions. -/

namespace Vrouter.Htable

open Vrouter.Lib Function

variable {π : Type} {g : Geometry} {s s' : Sys π} {t t' : Table π} {place : ℕ → Place}
  {i j k hash : ℕ}

/-! ### Buckets -/

/-- The bucket that a hash selects. -/
def bucketOf (g : Geometry) (hash : ℕ) : ℕ := hash % g.htHentries / vrHentriesPerBucket

section

variable (g : Geometry) (hash : ℕ)

theorem Geometry.htHentries_pos : 0 < g.htHentries :=
  Nat.mul_pos g.buckets_pos (by decide)

theorem bucketOf_lt : bucketOf g hash < g.buckets := by
  have h := Nat.mod_lt hash g.htHentries_pos
  unfold bucketOf
  unfold Geometry.htHentries vrHentriesPerBucket at *
  omega

theorem bucketBase_eq : bucketBase g hash = bucketOf g hash * 4 := by
  unfold bucketBase bucketOf vrHentriesPerBucket
  omega

theorem bucketBase_head :
    bucketBase g hash + (vrHentriesPerBucket - 1) = headOf (bucketOf g hash) := by
  rw [bucketBase_eq]
  rfl

theorem bucketBase_lt {r : ℕ} (hr : r < 4) : bucketBase g hash + r < g.htHentries := by
  have := bucketOf_lt g hash
  rw [bucketBase_eq]
  unfold Geometry.htHentries vrHentriesPerBucket
  omega

end

theorem Geometry.lt_total_of_lt (h : i < g.htHentries) : i < g.total :=
  Nat.lt_of_lt_of_le h (Nat.le_add_right _ _)

theorem length_le_htOentries {l : List ℕ} (hd : l.Nodup) (h : ∀ j ∈ l, g.Overflow j) :
    l.length ≤ g.htOentries := by
  have hsub : l.toFinset ⊆ Finset.Ico g.htHentries g.total := by
    intro j hj
    exact Finset.mem_Ico.mpr (h j (List.mem_toFinset.mp hj))
  have hcard := Finset.card_le_card hsub
  rw [List.toFinset_card_of_nodup hd, Nat.card_Ico] at hcard
  unfold Geometry.total at hcard
  omega

/-- The entry is a main entry of the bucket `k` or in its chain. -/
def Home (g : Geometry) (place : ℕ → Place) (i k : ℕ) : Prop :=
  (i < g.htHentries ∧ i / vrHentriesPerBucket = k) ∨ (g.Overflow i ∧ place i = .chain k)

/-- No reset is under way. -/
def NoLimbo (g : Geometry) (place : ℕ → Place) : Prop := ∀ i, g.Overflow i → place i ≠ .limbo

/-! ### A new table -/

/-- From an overflow entry on, the free list of a new table runs through the entries after it. -/
theorem create_linked (zero : π) : ∀ (n start : ℕ), g.htHentries ≤ start → start + n = g.total →
    Linked (create g zero).tbl.nx (if 0 < n then some start else none) (List.range' start n)
  | 0, start, _, _ => rfl
  | n + 1, start, hs, hn => by
    refine ⟨if_pos (by omega), ?_⟩
    have hnx : (create g zero).tbl.nx start = if 0 < n then some (start + 1) else none := by
      simp only [create, Table.nx]
      exact if_congr (by omega) rfl rfl
    rw [hnx]
    exact create_linked zero n (start + 1) (by omega) (by omega)

theorem create_inv (g : Geometry) (zero : π) : Inv g (create g zero) fun _ => .free := by
  have hmain : ∀ i < g.htHentries, (create g zero).tbl.nx i = none := by
    intro i hi
    simp only [create, Table.nx]
    exact if_neg (by omega)
  refine ⟨⟨?_, ?_, ?_, List.nodup_nil⟩, ?_, ?_, ?_, ?_, ?_, ?_⟩
  · refine ⟨List.range' g.htHentries g.htOentries,
      create_linked zero g.htOentries g.htHentries le_rfl rfl, fun i => ?_⟩
    rw [List.mem_range'_1]
    unfold Geometry.Overflow Geometry.total
    simp
  · intro k hk
    refine ⟨[], hmain _ (headOf_lt hk), fun i => by simp⟩
  · intro i
    simp [create]
  · intro i hi
    simp only [create, PlaceFlags]
    rw [decide_eq_true (show g.htHentries ≤ i ∧ i < g.total from hi)]
  · rintro i (⟨k, hk, rfl⟩ | ⟨_, k, he⟩)
    · rw [hmain _ (headOf_lt hk)]; rfl
    · cases he
  · intro i hi _
    exact hmain i hi
  · refine (countBelow_of_false fun i _ => ?_).symm
    by_cases hi : g.Overflow i
    · simp only [create, Table.fl, decide_eq_true (show g.htHentries ≤ i ∧ i < g.total from hi),
        Bool.not_true, Bool.and_false]
    · simp only [hi, decide_false, Bool.false_and]
  · exact (countBelow_of_false fun i _ => rfl).symm
  · simp [create]

/-! ### Taking a free entry -/

/-- The entry `i` becomes valid, and nothing else that the callers see changes. -/
structure Taken (t t' : Table π) (i : ℕ) : Prop where
  fresh : (t.fl i).valid = false
  valid : (t'.fl i).valid = true
  others : ∀ j ≠ i, (t'.fl j).valid = (t.fl j).valid
  payload : ∀ j, (t'.hentry j).payload = (t.hentry j).payload

theorem linkOentry_eq {o head : ℕ} (ho : t.htFreeOentryHead = some o) (hne : head ≠ o) :
    linkOentry t head = some (o,
      { (t.modify o fun e => { e with
          hentryBucketIndex := head
          hentryFlags := .onlyValid
          hentryNext := t.nx head
          hentryNextIndex := nextIndexOf (t.nx head) }).modify head fun e =>
            { e with hentryNext := some o, hentryNextIndex := o } with
        htFreeOentryHead := t.nx o
        htUsedOentries := incr32 t.htUsedOentries
        htUsedEntries := incr32 t.htUsedEntries }) := by
  simp only [linkOentry, getFreeOentry, ho, Table.modify, Table.nx, update_of_ne hne,
    update_self, update_idem]

theorem Inv.link (h : Inv g s place) (hk : k < g.buckets)
    (hf : linkOentry s.tbl (headOf k) = some (i, t')) :
    ∃ place', Inv g { s with tbl := t' } place' ∧ g.Overflow i ∧ place' i = .chain k ∧
      Taken s.tbl t' i ∧ ∀ j ≠ i, place' j = place j := by
  cases ho : s.tbl.htFreeOentryHead with
  | none => simp [linkOentry, getFreeOentry, ho] at hf
  | some o =>
    have hl := h.lists
    rw [ho] at hl
    obtain ⟨hov, hpl, hl'⟩ := hl.take_free hk
    have hne : headOf k ≠ o := (hov.ne_headOf hk).symm
    rw [linkOentry_eq ho hne] at hf
    obtain ⟨rfl, rfl⟩ := Prod.mk.inj (Option.some.inj hf)
    have hflags := h.flags o hov
    rw [hpl] at hflags
    have hfresh : (s.tbl.fl o).valid = false := by rw [Table.fl, hflags]; rfl
    -- the entry, the head and the other entries after the two writes
    set tn : Table π := (s.tbl.modify o fun e => { e with
      hentryBucketIndex := headOf k
      hentryFlags := .onlyValid
      hentryNext := s.tbl.nx (headOf k)
      hentryNextIndex := nextIndexOf (s.tbl.nx (headOf k)) }).modify (headOf k) fun e =>
        { e with hentryNext := some o, hentryNextIndex := o } with htn
    have ho' : tn.hentry o = { s.tbl.hentry o with
        hentryBucketIndex := headOf k
        hentryFlags := .onlyValid
        hentryNext := s.tbl.nx (headOf k)
        hentryNextIndex := nextIndexOf (s.tbl.nx (headOf k)) } := by
      rw [htn, Table.modify_ne _ hne.symm, Table.modify_same]
    have hh : tn.hentry (headOf k) = { s.tbl.hentry (headOf k) with
        hentryNext := some o, hentryNextIndex := o } := by
      rw [htn, Table.modify_same, Table.modify_ne _ hne]
    have hoth : ∀ j, j ≠ o → j ≠ headOf k → tn.hentry j = s.tbl.hentry j := by
      intro j h1 h2
      rw [htn, Table.modify_ne _ h2, Table.modify_ne _ h1]
    have hnx : tn.nx = update (update s.tbl.nx o (s.tbl.nx (headOf k)))
        (headOf k) (some o) := by
      rw [htn, Table.nx_modify, Table.nx_modify]
    have hfl : ∀ j ≠ o, tn.fl j = s.tbl.fl j := by
      intro j hj
      by_cases hjh : j = headOf k
      · subst hjh; simp only [Table.fl, hh]
      · simp only [Table.fl, hoth j hj hjh]
    have hflo : tn.fl o = .onlyValid := by simp only [Table.fl, ho']
    refine ⟨update place o (.chain k), ⟨?_, ?_, ?_, ?_, ?_, ?_, h.works⟩, hov,
      update_self .., ⟨hfresh, ?_, ?_, ?_⟩, fun j hj => update_of_ne hj ..⟩
    · rw [← hnx] at hl'
      exact hl'
    · intro j hj
      by_cases hjo : j = o
      · subst hjo
        change PlaceFlags g (tn.hentry j) _
        rw [ho', update_self]
        exact ⟨hk, rfl, rfl, rfl, by simp [HentryFlags.onlyValid]⟩
      · change PlaceFlags g (tn.hentry j) _
        rw [hoth j hjo (hj.ne_headOf hk), update_of_ne hjo]
        exact h.flags j hj
    · intro j hj
      change (tn.hentry j).hentryNextIndex = nextIndexOf (tn.nx j)
      by_cases hjo : j = o
      · subst hjo; simp only [Table.nx, ho']
      · by_cases hjh : j = headOf k
        · subst hjh; simp only [Table.nx, hh]; rfl
        · simp only [Table.nx, hoth j hjo hjh]
          exact h.mirror j (hj.of_update hjo)
    · intro j hj hne'
      change tn.nx j = none
      have hjo : j ≠ o := by rintro rfl; exact absurd hov.1 (Nat.not_le.mpr hj)
      simp only [Table.nx, hoth j hjo (hne' k)]
      exact h.mains j hj hne'
    · change incr32 s.tbl.htUsedOentries = usedOverflow g tn
      refine incr32_eq (g := g) ?_ (countBelow_le _ _)
      rw [h.usedOentries]
      refine countBelow_add (i := o) hov.2 ?_ ?_ fun j _ hj => ?_
      · rw [Table.fl, hflags]; simp
      · rw [hflo]; simp [hov, HentryFlags.onlyValid]
      · rw [hfl j hj]
    · change incr32 s.tbl.htUsedEntries = validEntries g tn
      refine incr32_eq (g := g) ?_ (countBelow_le _ _)
      rw [h.usedEntries]
      refine countBelow_add (i := o) hov.2 hfresh ?_ fun j _ hj => ?_
      · rw [hflo]; rfl
      · rw [hfl j hj]
    · change (tn.fl o).valid = true
      rw [hflo]; rfl
    · intro j hj
      change (tn.fl j).valid = _
      rw [hfl j hj]
    · intro j
      change (tn.hentry j).payload = _
      by_cases hjo : j = o
      · subst hjo; rw [ho']
      · by_cases hjh : j = headOf k
        · subst hjh; rw [hh]
        · rw [hoth j hjo hjh]

theorem Inv.findFree (h : Inv g s place) (hf : findFreeHentry g s.tbl hash = some (i, t')) :
    ∃ place', Inv g { s with tbl := t' } place' ∧ i < g.total ∧
      Home g place' i (bucketOf g hash) ∧ Taken s.tbl t' i ∧ (∀ j ≠ i, place' j = place j) ∧
      ∀ j, place' j = place j ∨ ∃ k, place' j = .chain k := by
  unfold findFreeHentry at hf
  dsimp only at hf
  cases hfind : (List.range vrHentriesPerBucket).find? (fun r =>
      !(s.tbl.hentry (bucketBase g hash + r)).hentryFlags.valid) with
  | none =>
    rw [hfind] at hf
    dsimp only at hf
    split_ifs at hf
    rw [bucketBase_head] at hf
    obtain ⟨place', hinv, hov, hpl, htk, hoth⟩ := h.link (bucketOf_lt g hash) hf
    refine ⟨place', hinv, hov.2, Or.inr ⟨hov, hpl⟩, htk, hoth, fun j => ?_⟩
    by_cases hj : j = i
    · subst hj; exact Or.inr ⟨_, hpl⟩
    · exact Or.inl (hoth j hj)
  | some r =>
    rw [hfind] at hf
    dsimp only at hf
    have hr : r < 4 := List.mem_range.mp (List.mem_of_find?_eq_some hfind)
    have hfresh := List.find?_some hfind
    simp only [Bool.not_eq_true'] at hfresh
    have hlt := bucketBase_lt g hash hr
    cases hf
    set f : Hentry π → Hentry π := fun e => { e with
      hentryFlags := .onlyValid
      hentryBucketIndex := vrInvalidHentryIndex } with hfdef
    have hset := validEntries_set (g := g) f (Geometry.lt_total_of_lt hlt) hfresh rfl
    refine ⟨place, ?_, Geometry.lt_total_of_lt hlt, Or.inl ⟨hlt, ?_⟩, ⟨hfresh, ?_, ?_, ?_⟩,
      fun _ _ => rfl, fun _ => Or.inl rfl⟩
    · refine h.modify f _ rfl rfl (fun hov => absurd hov.1 (Nat.not_le.mpr hlt)) ?_
      exact incr32_eq (g := g) (by rw [hset, ← h.usedEntries]; rfl) (countBelow_le _ _)
    · rw [bucketBase_eq]
      unfold vrHentriesPerBucket
      omega
    · simp only [Table.fl, Table.modify_same]; rfl
    · intro j hj
      simp only [Table.fl, Table.modify_ne f hj]
    · intro j
      by_cases hj : j = bucketBase g hash + r
      · subst hj; simp only [Table.modify_same]; rfl
      · simp only [Table.modify_ne f hj]

/-! ### Finding -/

section Find

variable {κ : Type} [DecidableEq κ] {getKey : π → Option κ} {hashOf : κ → ℕ} {key : κ}

/-- The entry is valid and holds the key. -/
def Live (g : Geometry) (getKey : π → Option κ) (t : Table π) (i : ℕ) (key : κ) : Prop :=
  i < g.total ∧ holdsKey getKey key (t.hentry i) = true

theorem findInChain_eq : ∀ {fuel : ℕ} {p : Option ℕ} {l : List ℕ}, Linked t.nx p l →
    l.length ≤ fuel → findInChain getKey t key fuel p =
      some (l.find? fun i => holdsKey getKey key (t.hentry i))
  | fuel, p, [], h, _ => by
    obtain rfl : p = none := h
    cases fuel <;> rfl
  | 0, p, i :: l, _, hlen => by simp at hlen
  | fuel + 1, p, i :: l, ⟨hp, hl⟩, hlen => by
    subst hp
    rw [findInChain, List.find?_cons]
    cases hk : holdsKey getKey key (t.hentry i) with
    | true => rfl
    | false => exact findInChain_eq hl (by simp at hlen; omega)

/-- `vr_htable_find_hentry` ends, and finds a live entry with the key if there is one, as long as
the live entries with the key are in the bucket of its hash. -/
theorem Inv.find (h : Inv g s place) (getKey : π → Option κ) (hashOf : κ → ℕ) (key : κ)
    (hhome : ∀ i, Live g getKey s.tbl i key → Home g place i (bucketOf g (hashOf key))) :
    ∃ r, findHentry g getKey hashOf s.tbl key = some r ∧
      (∀ i, r = some i → Live g getKey s.tbl i key) ∧
      (r = none → ∀ i, ¬ Live g getKey s.tbl i key) := by
  unfold findHentry
  dsimp only
  cases hf : (List.range vrHentriesPerBucket).find? (fun r =>
      holdsKey getKey key (s.tbl.hentry (bucketBase g (hashOf key) + r))) with
  | some r =>
    have hr : r < 4 := List.mem_range.mp (List.mem_of_find?_eq_some hf)
    have hlt := bucketBase_lt g (hashOf key) hr
    refine ⟨_, rfl, fun i hi => ?_, by simp⟩
    cases hi
    have hk := List.find?_some hf
    exact ⟨Geometry.lt_total_of_lt hlt, hk⟩
  | none =>
    obtain ⟨l, hl, hm⟩ := h.lists.chain _ (bucketOf_lt g (hashOf key))
    have hlen := length_le_htOentries hl.nodup fun j hj => ((hm j).mp hj).1
    rw [bucketBase_head]
    refine ⟨_, findInChain_eq hl hlen, fun i hi => ?_, fun hnone i hi => ?_⟩
    · have hk := List.find?_some hi
      exact ⟨((hm i).mp (List.mem_of_find?_eq_some hi)).1.2, hk⟩
    · rcases hhome i hi with ⟨_, hdiv⟩ | hc
      · -- a main entry of the bucket would have been found first
        have hmod : i = bucketBase g (hashOf key) + i % 4 := by
          rw [bucketBase_eq, ← hdiv]
          unfold vrHentriesPerBucket
          omega
        have := List.find?_eq_none.mp hf (i % 4)
          (List.mem_range.mpr (Nat.mod_lt i (by decide)))
        rw [← hmod] at this
        exact this hi.2
      · exact List.find?_eq_none.mp hnone i ((hm i).mpr hc) hi.2

end Find

/-! ### Releasing -/

/-- The entry `i` is no longer valid, and nothing else that the callers see changes. -/
structure Released (t t' : Table π) (i : ℕ) : Prop where
  invalid : (t'.fl i).valid = false
  others : ∀ j ≠ i, (t'.fl j).valid = (t.fl j).valid
  payload : ∀ j, (t'.hentry j).payload = (t.hentry j).payload

theorem Inv.schedule (h : Inv g s place) (hk : k < g.buckets) (ok : Bool) :
    Inv g (scheduleDelete s k ok) place where
  lists := h.lists
  flags := h.flags
  mirror := h.mirror
  mains := h.mains
  usedOentries := h.usedOentries
  usedEntries := h.usedEntries
  works := by
    intro k' hk'
    simp only [scheduleDelete] at hk'
    split_ifs at hk' with hc
    · rcases List.mem_append.mp hk' with hm | hm
      · exact h.works k' hm
      · rw [List.mem_singleton] at hm; exact hm ▸ hk
    · exact h.works k' hk'

theorem releaseHentry_cases (g : Geometry) (nr ok : Bool) (s : Sys π) (i : ℕ) :
    (releaseHentry g nr ok s i = { s with tbl := clearValid s.tbl i }) ∨
    ((s.tbl.fl i).valid = true ∧ g.htHentries ≤ i ∧ releaseHentry g nr ok s i =
      scheduleDelete { s with tbl := { s.tbl.modify i (fun e => { e with hentryFlags :=
        { e.hentryFlags with valid := false, deleteMarked := true } }) with
          htUsedEntries := decr32 s.tbl.htUsedEntries } }
        ((s.tbl.hentry i).hentryBucketIndex / vrHentriesPerBucket) ok) := by
  unfold releaseHentry clearValid
  by_cases hv : (s.tbl.hentry i).hentryFlags.valid = true
  · rw [if_neg (by simp [hv]), if_pos hv]
    by_cases hi : i < g.htHentries
    · exact Or.inl (by rw [if_pos hi]; rfl)
    · cases nr with
      | true => exact Or.inl (by rw [if_neg hi, if_pos rfl]; rfl)
      | false =>
        refine Or.inr ⟨hv, Nat.le_of_not_lt hi, ?_⟩
        rw [if_neg hi, if_neg (by simp)]
        simp only [Table.modify, update_self, update_idem]
  · exact Or.inl (by rw [if_pos (by simp [hv]), if_neg hv])

theorem releaseHentry_entries (g : Geometry) (nr ok : Bool) (s : Sys π) (i : ℕ) :
    ((releaseHentry g nr ok s i).tbl.fl i).valid = false ∧
      (∀ j ≠ i, (releaseHentry g nr ok s i).tbl.hentry j = s.tbl.hentry j) ∧
      ∀ j, ((releaseHentry g nr ok s i).tbl.hentry j).payload = (s.tbl.hentry j).payload := by
  rcases releaseHentry_cases g nr ok s i with he | ⟨-, -, he⟩
  · rw [he]
    exact clearValid_entries s.tbl i
  · rw [he]
    refine ⟨by simp only [scheduleDelete, Table.fl, Table.modify_same],
      fun j hj => by simp only [scheduleDelete, Table.modify_ne _ hj], fun j => ?_⟩
    by_cases hji : j = i
    · subst hji; simp only [scheduleDelete, Table.modify_same]
    · simp only [scheduleDelete, Table.modify_ne _ hji]

theorem headOf_div (k : ℕ) : headOf k / vrHentriesPerBucket = k := by
  unfold headOf vrHentriesPerBucket
  omega

theorem Inv.release (h : Inv g s place) (hl : NoLimbo g place) (hi : i < g.total)
    (nr ok : Bool) :
    Inv g (releaseHentry g nr ok s i) place ∧
      Released s.tbl (releaseHentry g nr ok s i).tbl i ∧
      (releaseHentry g nr ok s i).defers = s.defers := by
  obtain ⟨h1, h2, h3⟩ := releaseHentry_entries g nr ok s i
  have hrel : Released s.tbl (releaseHentry g nr ok s i).tbl i :=
    ⟨h1, fun j hj => by rw [Table.fl, h2 j hj], h3⟩
  rcases releaseHentry_cases g nr ok s i with he | ⟨hv, hge, he⟩
  · rw [he] at hrel ⊢
    exact ⟨h.clearValid hi, hrel, rfl⟩
  · have hov : g.Overflow i := ⟨hge, hi⟩
    obtain ⟨k, hk, hpl⟩ := (h.flags i hov).chain_of_valid hv (hl i hov)
    have hidx : (s.tbl.hentry i).hentryBucketIndex = headOf k := by
      have hfl := h.flags i hov
      rw [hpl] at hfl
      exact hfl.2.2.2.1
    rw [he, hidx, headOf_div] at hrel ⊢
    set f : Hentry π → Hentry π := fun e => { e with hentryFlags :=
      { e.hentryFlags with valid := false, deleteMarked := true } } with hf
    have hclear := validEntries_clear (g := g) f hi hv rfl
    refine ⟨Inv.schedule (h.modify f _ rfl rfl (fun _ => ⟨(h.flags i hov).clear hv true, rfl⟩) ?_)
      hk ok, hrel, rfl⟩
    exact decr32_eq (g := g) (h.usedEntries.trans hclear) (h.usedEntries ▸ countBelow_le _ _)

/-! ### The deletion work -/

variable {prev : ℕ} {lossless : Prop}

theorem unlinkEntry_self (h : i ≠ prev) : (unlinkEntry t prev i).hentry i =
    { t.hentry i with hentryFlags :=
      { (t.hentry i).hentryFlags with deleteMarked := false, deleteProcessed := true } } := by
  simp only [unlinkEntry, Table.modify_same, Table.modify_ne _ h]

theorem unlinkEntry_prev (h : i ≠ prev) : (unlinkEntry t prev i).hentry prev =
    { t.hentry prev with hentryNext := t.nx i, hentryNextIndex := nextIndexOf (t.nx i) } := by
  simp only [unlinkEntry, Table.modify_ne _ h.symm, Table.modify_same, Table.nx]

theorem unlinkEntry_ne (h : j ≠ i) (h' : j ≠ prev) :
    (unlinkEntry t prev i).hentry j = t.hentry j := by
  simp only [unlinkEntry, Table.modify_ne _ h, Table.modify_ne _ h']

theorem unlinkEntry_nx (h : i ≠ prev) :
    (unlinkEntry t prev i).nx = update t.nx prev (t.nx i) := by
  funext j
  by_cases hj : j = prev
  · subst hj; rw [update_self, Table.nx, unlinkEntry_prev h]
  · rw [update_of_ne hj]
    by_cases hji : j = i
    · subst hji; simp only [Table.nx, unlinkEntry_self h]
    · simp only [Table.nx, unlinkEntry_ne hji hj]

theorem unlinkEntry_fl (h : i ≠ prev) (hj : j ≠ i) : (unlinkEntry t prev i).fl j = t.fl j := by
  by_cases hjp : j = prev
  · subst hjp; simp only [Table.fl, unlinkEntry_prev h]
  · simp only [Table.fl, unlinkEntry_ne hj hjp]

theorem unlinkEntry_same (h : i ≠ prev) : SameEntries t (unlinkEntry t prev i) := by
  intro j
  by_cases hj : j = i
  · subst hj; simp only [Table.fl, unlinkEntry_self h, and_self]
  · refine ⟨by rw [unlinkEntry_fl h hj], ?_⟩
    by_cases hjp : j = prev
    · subst hjp; rw [unlinkEntry_prev h]
    · rw [unlinkEntry_ne hj hjp]

theorem Inv.unlink {pre rest : List ℕ} (h : Inv g s place) (hk : k < g.buckets)
    (hl : Linked s.tbl.nx (s.tbl.nx (headOf k)) (pre ++ i :: rest))
    (hm : ∀ j, j ∈ pre ++ i :: rest ↔ g.Overflow j ∧ place j = .chain k)
    (hmark : (s.tbl.fl i).deleteMarked = true) :
    let t' := unlinkEntry s.tbl ((headOf k :: pre).getLast (by simp)) i
    Inv g { s with tbl := t' } (update place i .lost) ∧ SameEntries s.tbl t' ∧
      (t'.fl i).valid = false ∧
      Linked t'.nx (t'.nx (headOf k)) (pre ++ rest) ∧
      ∀ j, j ∈ pre ++ rest ↔ g.Overflow j ∧ update place i .lost j = .chain k := by
  intro t'
  obtain ⟨hov, hpl⟩ := (hm i).mp (by simp)
  have hflags := h.flags i hov
  rw [hpl] at hflags
  have hinv : (s.tbl.fl i).valid = false := by
    have := hflags.2.2.2.2
    rw [Table.fl] at hmark ⊢
    simpa [hmark] using this
  obtain ⟨hlists, hlinked, hmem⟩ := h.lists.unlink hk hl hm
  set prev := (headOf k :: pre).getLast (by simp) with hprev
  have hprevmem : prev = headOf k ∨ prev ∈ pre := by
    have := List.getLast_mem (l := headOf k :: pre) (by simp)
    rw [← hprev] at this
    simpa using this
  have hne : i ≠ prev := by
    rintro he
    rcases hprevmem with hp | hp
    · exact hov.ne_headOf hk (he.trans hp)
    · have hd := (List.nodup_cons.mp (List.nodup_middle.mp hl.nodup)).1
      exact hd (by rw [he]; exact List.mem_append_left _ hp)
  have hi' : t'.hentry i = _ := unlinkEntry_self hne
  have hp' : t'.hentry prev = _ := unlinkEntry_prev hne
  have hoth : ∀ j, j ≠ i → j ≠ prev → t'.hentry j = s.tbl.hentry j := fun j => unlinkEntry_ne
  have hnx : t'.nx = update s.tbl.nx prev (s.tbl.nx i) := unlinkEntry_nx hne
  have hfl : ∀ j ≠ i, t'.fl j = s.tbl.fl j := fun j => unlinkEntry_fl hne
  have hsame : SameEntries s.tbl t' := unlinkEntry_same hne
  refine ⟨⟨?_, ?_, ?_, ?_, ?_, ?_, h.works⟩, hsame, ((hsame i).1).trans hinv, ?_, hmem⟩
  · rw [← hnx] at hlists; exact hlists
  · intro j hj
    by_cases hji : j = i
    · subst hji
      change PlaceFlags g (t'.hentry j) _
      rw [hi', update_self]
      exact ⟨hinv, hflags.2.1⟩
    · change PlaceFlags g (t'.hentry j) _
      rw [update_of_ne hji]
      by_cases hjp : j = prev
      · subst hjp
        rw [hp']
        have := h.flags _ hj
        revert this
        cases place prev <;> exact id
      · rw [hoth j hji hjp]; exact h.flags j hj
  · intro j hj
    change (t'.hentry j).hentryNextIndex = nextIndexOf (t'.nx j)
    have hji := hj.ne_of_update hov (by simp)
    by_cases hjp : j = prev
    · subst hjp; simp only [Table.nx, hp']
    · simp only [Table.nx, hoth j hji hjp]
      exact h.mirror j (hj.of_update hji)
  · intro j hj hh
    change t'.nx j = none
    have hji : j ≠ i := by rintro rfl; exact absurd hov.1 (Nat.not_le.mpr hj)
    have hjp : j ≠ prev := by
      rintro rfl
      rcases hprevmem with hp | hp
      · exact hh k hp
      · have := ((hm prev).mp (List.mem_append_left _ hp)).1.1
        omega
    simp only [Table.nx, hoth j hji hjp]
    exact h.mains j hj hh
  · refine h.usedOentries.trans (countBelow_congr fun j _ => ?_)
    by_cases hj : j = i
    · subst hj; simp only [Table.fl, hi']
    · rw [hfl j hj]
  · exact h.usedEntries.trans (validEntries_congr fun j => (hsame j).1).symm
  · rw [← hnx] at hlinked; exact hlinked

theorem oentryInvalidate_nx_ne (hj : j ≠ i) : (oentryInvalidate g t i).nx j = t.nx j := by
  unfold oentryInvalidate putFreeOentry
  split_ifs <;> simp only [Table.nx, Table.modify_ne _ hj]

/-- An entry that is in no list gets a callback, or has had it. -/
theorem Inv.relabel (h : Inv g s place) {defers : List ℕ} {p : Place} (hi : g.Overflow i)
    (hl : Lists g s.tbl.nx s.tbl.htFreeOentryHead defers (update place i p))
    (hp : PlaceFlags g (s.tbl.hentry i) p) (hne : ∀ k, p ≠ .chain k) :
    Inv g { s with defers := defers } (update place i p) := by
  refine ⟨hl, fun j hj => ?_, fun j hj => h.mirror j (hj.of_update (hj.ne_of_update hi hne)),
    h.mains, h.usedOentries, h.usedEntries, h.works⟩
  by_cases hji : j = i
  · subst hji
    rwa [update_self]
  · rw [update_of_ne hji]
    exact h.flags j hj

/-- Disposing of an unlinked entry: it goes to the free list or gets a callback, unless the
allocation fails. -/
theorem Inv.dispose (h : Inv g s place) (hi : g.Overflow i) (hpl : place i = .lost)
    (hv : (s.tbl.fl i).valid = false) (nr ok : Bool) :
    ∃ p, Inv g (disposeEntry g nr ok s i) (update place i p) ∧
      SameEntries s.tbl (disposeEntry g nr ok s i).tbl ∧
      (∀ j ≠ i, (disposeEntry g nr ok s i).tbl.nx j = s.tbl.nx j) ∧
      (∀ k, p ≠ .chain k) ∧ p ≠ .limbo ∧ (nr = true ∨ ok = true → p ≠ .lost) := by
  unfold disposeEntry
  cases nr with
  | true =>
    obtain ⟨hinv, hsame⟩ := h.invalidate hi (Or.inl hpl) hv
    exact ⟨.free, hinv, hsame, fun j hj => oentryInvalidate_nx_ne hj, by simp, by simp, by simp⟩
  | false =>
    cases ok with
    | true =>
      have hflags := h.flags i hi
      rw [hpl] at hflags
      exact ⟨.deferred, h.relabel hi (h.lists.defer hi hpl) hflags (by simp), .refl _,
        fun _ _ => rfl, by simp, by simp, by simp⟩
    | false =>
      refine ⟨.lost, ?_, .refl _, fun _ _ => rfl, by simp, by simp, by simp⟩
      rw [← hpl, update_eq_self]
      exact h

/-- What a deletion does: it moves entries that are not valid out of the chains, and loses one only
when an allocation fails. -/
structure Moved (g : Geometry) (lossless : Prop) (s : Sys π) (place : ℕ → Place) (s' : Sys π)
    (place' : ℕ → Place) : Prop where
  inv : Inv g s' place'
  same : SameEntries s.tbl s'.tbl
  valid : ∀ j, (s.tbl.fl j).valid = true → place' j = place j
  limbo : ∀ j, place' j = .limbo → place j = .limbo
  lost : lossless → ∀ j, place' j = .lost → place j = .lost

theorem Moved.refl (h : Inv g s place) : Moved g lossless s place s place :=
  ⟨h, .refl _, fun _ _ => rfl, fun _ => id, fun _ _ => id⟩

theorem Moved.trans {s s' s'' : Sys π} {place place' place'' : ℕ → Place}
    (h : Moved g lossless s place s' place') (h' : Moved g lossless s' place' s'' place'') :
    Moved g lossless s place s'' place'' where
  inv := h'.inv
  same := h.same.trans h'.same
  valid := fun j hj => (h'.valid j ((h.same j).1.trans hj)).trans (h.valid j hj)
  limbo := fun j hj => h.limbo j (h'.limbo j hj)
  lost := fun hl j hj => h.lost hl j (h'.lost hl j hj)

theorem place_of_update {p q : Place} (h : update place i p j = q) (hne : p ≠ q) :
    place j = q := by
  by_cases hji : j = i
  · subst hji
    rw [update_self] at h
    exact absurd h hne
  · rwa [update_of_ne hji] at h

/-- The loop of the deletion work ends, and moves marked entries out of the chain: `pre` is the
part of the chain it has passed, `rest` the part ahead. -/
theorem deleteLoop_moved (nr : Bool) (allocOk : ℕ → Bool) (hk : k < g.buckets) :
    ∀ (fuel : ℕ) (s : Sys π) (place : ℕ → Place) (pre rest : List ℕ) (count : ℕ), Inv g s place →
      Linked s.tbl.nx (s.tbl.nx (headOf k)) (pre ++ rest) →
      (∀ j, j ∈ pre ++ rest ↔ g.Overflow j ∧ place j = .chain k) → rest.length ≤ fuel →
      ∃ s' place', deleteLoop g nr allocOk (headOf k) fuel s ((headOf k :: pre).getLast (by simp))
          rest.head? count = some s' ∧
        Moved g (nr = true ∨ ∀ i < g.total, allocOk i = true) s place s' place'
  | fuel, s, place, pre, [], count, h, _, _, _ =>
    ⟨s, place, by rw [List.head?_nil, deleteLoop], .refl h⟩
  | fuel, s, place, pre, i :: rest, 0, h, _, _, _ =>
    ⟨s, place, by rw [List.head?_cons, deleteLoop], .refl h⟩
  | 0, s, place, pre, i :: rest, count + 1, h, _, _, hlen => by simp at hlen
  | fuel + 1, s, place, pre, i :: rest, count + 1, h, hl, hm, hlen => by
    obtain ⟨hov, hpl⟩ := (hm i).mp (by simp)
    have hflags := h.flags i hov
    rw [hpl] at hflags
    have hnext : s.tbl.nx ((headOf k :: pre).getLast (by simp)) = some i := hl.getLast_next
    have htail : (s.tbl.hentry i).hentryNext = rest.head? := hl.tail_of_append.head?_eq
    rw [List.head?_cons, deleteLoop]
    cases hmark : (s.tbl.hentry i).hentryFlags.deleteMarked with
    | true =>
      rw [if_pos rfl, if_neg fun hc => hc.2 hnext, htail]
      obtain ⟨hu, husame, huv, hul, hum⟩ := h.unlink hk hl hm hmark
      obtain ⟨p, hd, hdsame, hdnx, hdc, hdl, hdlost⟩ := hu.dispose hov (update_self ..)
        huv nr (allocOk i)
      rw [update_idem] at hd
      set s₁ := disposeEntry g nr (allocOk i) { s with
        tbl := unlinkEntry s.tbl ((headOf k :: pre).getLast (by simp)) i } i with hs₁
      have hnot : i ∉ pre ++ rest := (List.nodup_cons.mp (List.nodup_middle.mp hl.nodup)).1
      -- the chain is not touched by the disposal
      have hl₁ : Linked s₁.tbl.nx (s₁.tbl.nx (headOf k)) (pre ++ rest) := by
        rw [hdnx _ (hov.ne_headOf hk).symm]
        refine hul.congr fun j hj => hdnx j ?_
        rintro rfl; exact hnot hj
      have hm₁ : ∀ j, j ∈ pre ++ rest ↔
          g.Overflow j ∧ update place i p j = .chain k := by
        intro j
        by_cases hji : j = i
        · subst hji; simp [hnot, hdc k]
        · rw [hum j, update_of_ne hji, update_of_ne hji]
      obtain ⟨s', place', hrun, hmoved⟩ := deleteLoop_moved nr allocOk hk fuel s₁ _ pre rest
        count hd hl₁ hm₁ (by simp at hlen; omega)
      refine ⟨s', place', hrun, Moved.trans ⟨hd, husame.trans hdsame, ?_, ?_, ?_⟩ hmoved⟩
      · intro j hj
        refine update_of_ne ?_ ..
        rintro rfl
        exact hflags.2.2.2.2 ⟨hj, hmark⟩
      · exact fun j hj => place_of_update hj hdl
      · exact fun hok j hj => place_of_update hj (hdlost (hok.imp_right fun h => h i hov.2))
    | false =>
      rw [if_neg (by simp), hflags.2.2.1, if_neg (by simp), htail]
      have hlast : ((headOf k :: (pre ++ [i])).getLast (by simp)) = i :=
        List.getLast_append_singleton (headOf k :: pre)
      have happ : pre ++ i :: rest = (pre ++ [i]) ++ rest := by simp
      rw [happ] at hl hm
      obtain ⟨s', place', hrun, hmoved⟩ := deleteLoop_moved nr allocOk hk fuel s place
        (pre ++ [i]) rest (count + 1) h hl hm (by simp at hlen; omega)
      rw [hlast] at hrun
      exact ⟨s', place', hrun, hmoved⟩

theorem Inv.scheduledDelete (h : Inv g s place) (nr : Bool) (allocOk : ℕ → Bool)
    (hk : k < g.buckets) :
    ∃ s' place', Htable.scheduledDelete g nr allocOk s k = some s' ∧
      Moved g (nr = true ∨ ∀ i < g.total, allocOk i = true) s place s' place' := by
  obtain ⟨l, hl, hm⟩ := h.lists.chain k hk
  set s₁ : Sys π := { s with tbl := { s.tbl with
    htDtable := update s.tbl.htDtable k ⟨0, false⟩ } } with hs₁
  have h₁ : Inv g s₁ place :=
    ⟨h.lists, h.flags, h.mirror, h.mains, h.usedOentries, h.usedEntries, h.works⟩
  have hlen := length_le_htOentries hl.nodup fun j hj => ((hm j).mp hj).1
  obtain ⟨s', place', hrun, hmoved⟩ := deleteLoop_moved nr allocOk hk g.htOentries s₁ place [] l
    (s.tbl.htDtable k).hdCount h₁ hl hm hlen
  rw [← hl.head?_eq, List.getLast_singleton] at hrun
  exact ⟨s', place', hrun, hmoved.inv, hmoved.same, hmoved.valid, hmoved.limbo, hmoved.lost⟩

/-! ### The deferred callback -/

theorem Inv.undefer (h : Inv g s place) (hi : i ∈ s.defers) :
    Inv g { s with defers := s.defers.erase i } (update place i .lost) := by
  obtain ⟨hov, hl⟩ := h.lists.undefer hi
  have hpl := ((h.lists.deferred i).mp hi).2
  have hflags := h.flags i hov
  rw [hpl] at hflags
  exact h.relabel hov hl hflags (by simp)

theorem Inv.deferDelete (h : Inv g s place) (hi : i ∈ s.defers) (lossless : Prop) :
    Moved g lossless s place (Htable.deferDelete g { s with defers := s.defers.erase i } i)
      (update place i .free) := by
  obtain ⟨hov, hpl⟩ := (h.lists.deferred i).mp hi
  have hv : (s.tbl.fl i).valid = false := by
    have := h.flags i hov
    rw [hpl] at this
    exact this.1
  obtain ⟨hinv, hsame⟩ := (h.undefer hi).invalidate hov (Or.inl (update_self ..)) hv
  rw [update_idem] at hinv
  refine ⟨hinv, hsame, fun j hj => update_of_ne ?_ .., fun j hj => ?_, fun _ j hj => ?_⟩
  · rintro rfl
    rw [hv] at hj; cases hj
  · exact place_of_update hj (by simp)
  · exact place_of_update hj (by simp)

end Vrouter.Htable
