import Vrouter.Mtrie.Runs
import Vrouter.Mtrie.ShortLookup

/-! # A deletion after an addition

`vr_route_add` takes an addition back with a deletion that is issued for the same request.  A deletion
does not restore anything: it writes the nexthop, the label and the bridge index that its request
carries into every leaf whose length is that of the prefix, with the length `rtr_replace_plen`.  So the
leaves of the trie are what they were exactly if all leaves that the addition overwrites were such
leaves before (`Repeats`, `RepeatsFrom`).

The deletion also collapses buckets of equal leaves.  Lookups of whole addresses do not see that, but
shorter ones do, so for them the trie must have no such bucket before (`Compact`).  The tries are then
compared up to what a bucket entry carries beside its pointer (`Alike`), which no lookup reads. -/

namespace Vrouter.Mtrie

open Vrouter.Lib Function

variable {env : Env} {rt q : RouteReq} {e e' : Entry} {level n W : ℕ}

/-! ### Tries that no lookup tells apart -/

/-- The same leaves at the same places. -/
def Alike : Entry → Entry → Prop
  | .leaf t d i, .leaf t' d' i' => t = t' ∧ d = d' ∧ i = i'
  | .bucket _ f, .bucket _ g => ∀ j, Alike (f j) (g j)
  | _, _ => False

theorem Alike.refl : ∀ e, Alike e e
  | .leaf _ _ _ => ⟨rfl, rfl, rfl⟩
  | .bucket _ f => fun j => Alike.refl (f j)

variable {i : EntryInfo} {bkt f : Byte → Entry} {t : LeafType} {d : VoidPtr}

theorem Alike.leaf_eq (h : Alike e (.leaf t d i)) :
    e = .leaf t d i := by
  cases e with
  | leaf t' d' i' =>
    obtain ⟨rfl, rfl, rfl⟩ := h
    rfl
  | bucket i' f => exact h.elim

theorem Alike.eq_leaf (h : Alike (.leaf t d i) e) :
    e = .leaf t d i := by
  cases e with
  | leaf t' d' i' =>
    obtain ⟨rfl, rfl, rfl⟩ := h
    rfl
  | bucket i' f => exact h.elim

theorem Alike.lookupLoop (h : Alike e e') : lookupLoop e = lookupLoop e' := by
  induction e generalizing e' with
  | leaf t d i =>
    cases e' with
    | leaf t' d' i' => rfl
    | bucket i' g => exact h.elim
  | bucket i f ih =>
    cases e' with
    | leaf t' d' i' => exact h.elim
    | bucket i' g =>
      have hvisit : lookupVisit f = lookupVisit g := by
        funext level limit index r j k n
        have hj := h j
        unfold lookupVisit
        rw [ih j hj]
        revert hj
        cases f j <;> cases g j
        · rintro ⟨rfl, rfl, rfl⟩
          rfl
        · exact False.elim
        · exact False.elim
        · exact fun _ => rfl
      funext level limit index n k r
      rw [lookupLoop_bucket, lookupLoop_bucket, hvisit]

theorem Alike.lookupCore (h : Alike e e') : mtrieLookupCore e = mtrieLookupCore e' := by
  cases e <;> cases e' <;> try exact h.elim
  · rfl
  · funext level q
    rw [mtrieLookupCore, mtrieLookupCore, h.lookupLoop]

/-! ### Leaves -/

/-- A trie of nexthops with at most `n` levels of buckets: its leaves hold nexthops that are filed
under their ids, with lengths up to `W`. -/
def Filed (env : Env) (W : ℕ) : ℕ → Entry → Prop
  | _, .leaf t d i => t = .nexthop ∧ Fixed env .nexthop d ∧ i.entryPrefixLen ≤ W
  | 0, .bucket _ _ => False
  | n + 1, .bucket _ bkt => ∀ j, Filed env W n (bkt j)

instance decidableFiled (env : Env) (W : ℕ) : ∀ n e, Decidable (Filed env W n e)
  | 0, .leaf _ _ _ => inferInstanceAs (Decidable (_ ∧ (_ ∧ _) ∧ _))
  | _ + 1, .leaf _ _ _ => inferInstanceAs (Decidable (_ ∧ (_ ∧ _) ∧ _))
  | 0, .bucket _ _ => inferInstanceAs (Decidable False)
  | n + 1, .bucket _ bkt =>
    have := fun j => decidableFiled env W n (bkt j)
    inferInstanceAs (Decidable (∀ j, Filed env W n (bkt j)))

theorem filed_leaf {t : LeafType} {d : VoidPtr} {i : EntryInfo} : Filed env W n (.leaf t d i) ↔
    t = .nexthop ∧ Fixed env .nexthop d ∧ i.entryPrefixLen ≤ W := by
  cases n <;> exact Iff.rfl

theorem Filed.leafAt (h : Filed env W n e) {l : List Byte} (hl : l.length = n) :
    ∃ d i, leafAt e l = .leaf .nexthop d i ∧ Fixed env .nexthop d ∧ i.entryPrefixLen ≤ W := by
  induction e generalizing n l with
  | leaf t d i =>
    obtain ⟨rfl, hd, hi⟩ := filed_leaf.1 h
    exact ⟨d, i, rfl, hd, hi⟩
  | bucket i bkt ih =>
    cases n with
    | zero => exact h.elim
    | succ n =>
      cases l with
      | nil => cases hl
      | cons j l => exact ih j (h j) (Nat.succ.inj hl)

/-- The entries of a bucket, whether or not it is one yet. -/
theorem Filed.bktOf (h : Filed env W (n + 1) e) (j : Byte) :
    Filed env W n (bktOf env true e j) ∧
      ∀ l, Mtrie.leafAt (bktOf env true e j) l = Mtrie.leafAt e (j :: l) := by
  cases e with
  | bucket i bkt => exact ⟨h j, fun _ => rfl⟩
  | leaf t d i =>
    obtain ⟨rfl, hd, hi⟩ := filed_leaf.1 h
    have hcopy : Mtrie.bktOf env true (.leaf .nexthop d i) j = .leaf .nexthop d i :=
      congrArg (Entry.leaf .nexthop · i) hd.1
    rw [hcopy]
    exact ⟨filed_leaf.2 ⟨rfl, hd, hi⟩, fun _ => rfl⟩

/-- The same leaf for every address of `n` bytes. -/
def SameLeaves (n : ℕ) (e e' : Entry) : Prop :=
  ∀ l : List Byte, l.length = n → leafAt e l = leafAt e' l

theorem SameLeaves.refl (n : ℕ) (e : Entry) : SameLeaves n e e := fun _ _ => rfl

theorem sameLeaves_leaf {t t' : LeafType} {d d' : VoidPtr} {i i' : EntryInfo} :
    SameLeaves n (.leaf t d i) (.leaf t' d' i') ↔ Entry.leaf t d i = .leaf t' d' i' :=
  ⟨fun h => h (List.replicate n 0) List.length_replicate, fun h _ _ => h⟩

theorem sameLeaves_succ (he : Filed env W (n + 1) e) {f : Byte → Entry}
    (hf : ∀ j l, leafAt e' (j :: l) = leafAt (f j) l) :
    SameLeaves (n + 1) e' e ↔ ∀ j, SameLeaves n (f j) (bktOf env true e j) := by
  constructor
  · intro h j l hl
    rw [← hf, (he.bktOf j).2]
    exact h _ (congrArg (· + 1) hl)
  · intro h l hl
    cases l with
    | nil => cases hl
    | cons j l =>
      rw [hf, h j l (Nat.succ.inj hl), (he.bktOf j).2]

/-! ### Buckets of equal leaves -/

/-- No bucket is made of equal leaves. -/
def Compact : Entry → Prop
  | .leaf _ _ _ => True
  | .bucket _ bkt => allSame bkt = false ∧ ∀ j, Compact (bkt j)

theorem Compact.bktOf (h : Compact e) (j : Byte) : Compact (bktOf env true e j) := by
  cases e with
  | leaf t d i => trivial
  | bucket i bkt => exact h.2 j

/-- The end of a deletion leaves the leaves as they are, and no bucket of equal ones. -/
theorem mtrieDeleteBkt_spec (i : EntryInfo) (h : ∀ j, Filed env W n (f j)) :
    Filed env W (n + 1) (mtrieDeleteBkt env true i f) ∧
      (∀ j l, leafAt (mtrieDeleteBkt env true i f) (j :: l) = leafAt (f j) l) ∧
      ((∀ j, Compact (f j)) → Compact (mtrieDeleteBkt env true i f)) := by
  unfold mtrieDeleteBkt
  cases hs : allSame f with
  | false => exact ⟨h, fun _ _ => rfl, fun hc => ⟨hs, hc⟩⟩
  | true =>
    obtain ⟨t, d, i', hf⟩ := allSame_leaf hs
    have h0 := h 0
    rw [hf 0] at h0
    obtain ⟨rfl, hd, hi⟩ := filed_leaf.1 h0
    have hleaf : Entry.leaf (leafType true) (setEntryData env (leafType true) d) i' =
        .leaf .nexthop d i' := congrArg (Entry.leaf .nexthop · i') hd.1
    simp only [if_true, hf 0, hleaf]
    exact ⟨filed_leaf.2 ⟨rfl, hd, hi⟩, fun j l => by rw [hf j]; rfl, fun _ => trivial⟩

/-- Tries without such buckets are determined by their leaves. -/
theorem Compact.alike (hc : Compact e) (hc' : Compact e') (he : Filed env W n e)
    (he' : Filed env W n e') (h : SameLeaves n e e') : Alike e e' := by
  -- a bucket whose entries are all like one leaf would be made of equal leaves
  have hne : ∀ {f : Byte → Entry} {t : LeafType} {d : VoidPtr} {i : EntryInfo},
      allSame f = false → ¬ ∀ j, f j = .leaf t d i := by
    intro f t d i hs hall
    refine absurd (List.all_eq_true.2 fun j _ => ?_) (by rw [← allSame, hs]; decide)
    rw [hall j, hall 0, Bool.or_eq_true]
    exact .inr (decide_eq_true ⟨rfl, rfl, rfl⟩)
  induction n generalizing e e' with
  | zero =>
    cases e with
    | bucket i f => exact he.elim
    | leaf t d i =>
      cases e' with
      | bucket i' g => exact he'.elim
      | leaf t' d' i' =>
        cases sameLeaves_leaf.1 h
        exact Alike.refl _
  | succ n ih =>
    have hj : ∀ j, Alike (Mtrie.bktOf env true e j) (Mtrie.bktOf env true e' j) := fun j => by
      refine ih (hc.bktOf j) (hc'.bktOf j) (he.bktOf j).1 (he'.bktOf j).1 fun l hl => ?_
      rw [(he.bktOf j).2, (he'.bktOf j).2]
      exact h _ (congrArg (· + 1) hl)
    cases e with
    | leaf t d i =>
      cases e' with
      | leaf t' d' i' =>
        cases sameLeaves_leaf.1 h
        exact Alike.refl _
      | bucket i' g => exact absurd (fun j => (hj j).eq_leaf) (hne hc'.1)
    | bucket i f =>
      cases e' with
      | leaf t' d' i' => exact absurd (fun j => (hj j).leaf_eq) (hne hc.1)
      | bucket i' g => exact hj

/-! ### Beneath the prefix -/

/-- What the addition would change beneath its prefix is what the deletion writes: the leaves that are
not longer than the prefix. -/
def Repeats (env : Env) (rt : RouteReq) : Entry → Prop
  | .leaf t d i => rt.rtrPrefixLen < i.entryPrefixLen ∨ .leaf t d i = replaceLeaf env rt t
  | .bucket i bkt => rt.rtrPrefixLen < i.entryPrefixLen ∨ ∀ j, Repeats env rt (bkt j)

/-- What a deletion does with an entry that its prefix covers. -/
def deleteCovered (env : Env) (rt : RouteReq) (e : Entry) (level : ℕ) : Entry :=
  if e.info.entryPrefixLen = rt.rtrPrefixLen then
    match e with
    | .leaf t _ _ => replaceLeaf env rt t
    | .bucket i _ => mtrieDeleteEntry env rt true e (replaceInfo rt i) (level + 1)
  else e

theorem deleteCovered_of_ne (h : e.info.entryPrefixLen ≠ rt.rtrPrefixLen) :
    deleteCovered env rt e level = e := if_neg h

theorem mtrieDeleteEntry_beneath {i' : EntryInfo} (h : rt.rtrPrefixLen ≤ 8 * level) :
    mtrieDeleteEntry env rt true (.bucket i bkt) i' level =
      mtrieDeleteBkt env true i' fun j => deleteCovered env rt (bkt j) level := by
  have hrange : ∀ j : Byte, (deleteRange rt level).1 ≤ j.val ∧ j.val < (deleteRange rt level).2 := by
    intro j
    simp only [deleteRange, biPfxLen_eq, biBits_eq, biSize_eq]
    rw [if_neg (by omega)]
    exact ⟨Nat.zero_le _, j.isLt⟩
  have hlong : ¬ rt.rtrPrefixLen > (ipBktInfo level).biPfxLen := by
    rw [biPfxLen_eq]
    omega
  rw [mtrieDeleteEntry, if_neg hlong]
  congr 1
  funext j
  rw [if_pos (hrange j)]
  rfl

section

variable (hfix : Fixed env .nexthop rt.rtrNh) (hrep : rt.rtrReplacePlen ≤ W)
include hfix hrep

theorem replaceLeaf_filed : Filed env W n (replaceLeaf env rt .nexthop) := by
  refine filed_leaf.2 ⟨rfl, ?_, (Nat.mod_le _ _).trans hrep⟩
  rw [hfix.1]
  exact hfix

/-- The addition and the deletion beneath the prefix. -/
theorem deleteCovered_addToTree (hplen : rt.rtrPrefixLen < 2 ^ 8)
    (hlev : rt.rtrPrefixLen ≤ 8 * (level + 1)) (hn : n + (level + 1) = ipBktGetMaxLevel rt.rtrFamily)
    (h : Filed env W n e) :
    Filed env W n (deleteCovered env rt (addToTree env rt e level) level) ∧
      (SameLeaves n (deleteCovered env rt (addToTree env rt e level) level) e ↔ Repeats env rt e) ∧
      (Compact e → Compact (deleteCovered env rt (addToTree env rt e level) level)) := by
  induction e generalizing level n with
  | leaf t d i =>
    obtain ⟨rfl, -⟩ := filed_leaf.1 h
    rw [addToTree]
    split_ifs with hlong
    · rw [deleteCovered_of_ne (Nat.ne_of_gt hlong)]
      exact ⟨h, iff_of_true (.refl _ _) (.inl hlong), id⟩
    · rw [deleteCovered, if_pos (by exact Nat.mod_eq_of_lt hplen)]
      refine ⟨replaceLeaf_filed hfix hrep, sameLeaves_leaf.trans ?_, fun _ => trivial⟩
      exact eq_comm.trans (or_iff_right hlong).symm
  | bucket i bkt ih =>
    cases n with
    | zero => exact h.elim
    | succ n =>
      rw [addToTree]
      split_ifs with hlong hdeep
      · rw [deleteCovered_of_ne (Nat.ne_of_gt hlong)]
        exact ⟨h, iff_of_true (.refl _ _) (.inl hlong), id⟩
      · omega
      · have hrec := fun j => @ih j (level + 1) n (by omega) (by omega) (h j)
        rw [deleteCovered, if_pos (by exact Nat.mod_eq_of_lt hplen), mtrieDeleteEntry_beneath hlev]
        obtain ⟨h1, h2, h3⟩ := mtrieDeleteBkt_spec (replaceInfo rt
          { i with entryPrefixLen := rt.rtrPrefixLen % 2 ^ 8 }) fun j => (hrec j).1
        refine ⟨h1, ?_, fun hc => h3 fun j => (hrec j).2.2 (hc.2 j)⟩
        rw [sameLeaves_succ h h2]
        exact (forall_congr' fun j => (hrec j).2.1).trans (or_iff_right hlong).symm

end

/-! ### On the path to the prefix -/

/-- What an addition would change, from the entry of a level on, is what the deletion writes. -/
def RepeatsFrom (env : Env) (rt : RouteReq) : Entry → ℕ → Prop
  | .leaf t d i, _ => Repeats env rt (.leaf t d i)
  | .bucket _ bkt, level =>
    if rt.rtrPrefixLen > (ipBktInfo level).biPfxLen then
      RepeatsFrom env rt (bkt (rtToIndex rt level)) (level + 1)
    else ∀ j, (j - rtToIndex rt level).val < coveredEntries level rt.rtrPrefixLen →
      Repeats env rt (bkt j)

theorem coveredEntries_pos (level plen : ℕ) : 0 < coveredEntries level plen := by
  unfold coveredEntries
  dsimp only
  split_ifs
  · rw [Nat.one_shiftLeft]
    exact Nat.two_pow_pos _
  · rw [biSize_eq]
    decide

theorem repeatsFrom_bktOf (h : Filed env W (n + 1) e) : RepeatsFrom env rt e level ↔
    if rt.rtrPrefixLen > (ipBktInfo level).biPfxLen then
      RepeatsFrom env rt (bktOf env true e (rtToIndex rt level)) (level + 1)
    else ∀ j, (j - rtToIndex rt level).val < coveredEntries level rt.rtrPrefixLen →
      Repeats env rt (bktOf env true e j) := by
  cases e with
  | bucket i bkt => exact Iff.rfl
  | leaf t d i =>
    obtain ⟨rfl, hd, -⟩ := filed_leaf.1 h
    have hcopy : ∀ j, bktOf env true (.leaf .nexthop d i) j = .leaf .nexthop d i := fun j =>
      congrArg (Entry.leaf .nexthop · i) hd.1
    simp only [hcopy]
    split_ifs
    · exact Iff.rfl
    · refine ⟨fun h _ _ => h, fun h => h (rtToIndex rt level) ?_⟩
      rw [Fin.sub_self]
      exact coveredEntries_pos _ _

/-- In the bucket that holds the prefix, the deletion visits the entries that the addition did. -/
theorem deleteRange_iff_covered (hrt : rt.Masked) (hlev : level < ipBktGetMaxLevel rt.rtrFamily)
    (hlo : 8 * level < rt.rtrPrefixLen ∨ level = 0) (hhi : rt.rtrPrefixLen ≤ 8 * (level + 1))
    (j : Byte) : ((deleteRange rt level).1 ≤ j.val ∧ j.val < (deleteRange rt level).2) ↔
      (j - rtToIndex rt level).val < coveredEntries level rt.rtrPrefixLen := by
  rw [covered_iff hrt level hlev hlo hhi]
  refine deleteRange_iff hrt.prefix_length hrt.reqPrefix_length ?_ hlev ?_ hhi j
  · rw [List.length_take, bits_length, hrt.prefix_length]
    omega
  · by_cases h0 : 8 * level < rt.rtrPrefixLen
    · exact .inl ⟨rfl, h0⟩
    · have hz : rt.rtrPrefixLen = 0 := by omega
      refine .inr ?_
      rw [reqPrefix, hz]
      exact List.nil_prefix

/-- The entries that an addition covers are those that the deletion covers. -/
theorem mtrieDeleteEntry_covered (hrt : rt.Masked) (i : EntryInfo)
    (hlev : level < ipBktGetMaxLevel rt.rtrFamily) (hlo : 8 * level < rt.rtrPrefixLen ∨ level = 0)
    (hdeep : ¬ rt.rtrPrefixLen > (ipBktInfo level).biPfxLen) :
    mtrieDeleteEntry env rt true (mtrieAddFrom env rt true (n + 1) level e) i level =
      mtrieDeleteBkt env true i fun j =>
        if (j - rtToIndex rt level).val < coveredEntries level rt.rtrPrefixLen then
          deleteCovered env rt (addToTree env rt (bktOf env true e j) level) level
        else bktOf env true e j := by
  have hhi : rt.rtrPrefixLen ≤ 8 * (level + 1) := by
    rw [biPfxLen_eq] at hdeep
    omega
  rw [mtrieAddFrom, if_neg hdeep, mtrieDeleteEntry, if_neg hdeep]
  refine congrArg (mtrieDeleteBkt env true i) (funext fun j => ?_)
  rw [addToEntries_apply level _ _ _ j (coveredEntries_le _ _)]
  by_cases hj : (j - rtToIndex rt level).val < coveredEntries level rt.rtrPrefixLen
  · simp only [if_pos hj, if_pos ((deleteRange_iff_covered hrt hlev hlo hhi j).mpr hj)]
    rfl
  · simp only [if_neg hj,
      if_neg fun hin => hj ((deleteRange_iff_covered hrt hlev hlo hhi j).mp hin)]

/-- **A deletion takes an addition back** exactly where the addition repeats what its deletion
writes. -/
theorem mtrieDeleteEntry_addFrom (hrt : rt.Masked) (hfix : Fixed env .nexthop rt.rtrNh)
    (hrep : rt.rtrReplacePlen ≤ W) :
    ∀ (n level : ℕ) (e : Entry) (i : EntryInfo), n + level = ipBktGetMaxLevel rt.rtrFamily → 0 < n →
      (8 * level < rt.rtrPrefixLen ∨ level = 0) → Filed env W n e →
      let undone := mtrieDeleteEntry env rt true (mtrieAddFrom env rt true n level e) i level
      Filed env W n undone ∧ (SameLeaves n undone e ↔ RepeatsFrom env rt e level) ∧
        (Compact e → Compact undone)
  | 0, _, _, _, _, h, _, _ => absurd h (by decide)
  | n + 1, level, e, i, hn, _, hlo, h => by
    have hlev : level < ipBktGetMaxLevel rt.rtrFamily := by omega
    have hplen := hrt.plen_le
    intro undone
    rw [repeatsFrom_bktOf h]
    by_cases hdeep : rt.rtrPrefixLen > (ipBktInfo level).biPfxLen
    · set f := update (bktOf env true e) (rtToIndex rt level) (mtrieDeleteEntry env rt true
        (mtrieAddFrom env rt true n (level + 1) (bktOf env true e (rtToIndex rt level)))
        (mtrieAddFrom env rt true n (level + 1) (bktOf env true e (rtToIndex rt level))).info
        (level + 1)) with hf
      have hundone : undone = mtrieDeleteBkt env true i f := by
        change mtrieDeleteEntry env rt true (mtrieAddFrom env rt true (n + 1) level e) i level = _
        rw [mtrieAddFrom, if_pos hdeep, mtrieDeleteEntry, if_pos hdeep, update_self, update_idem]
      rw [if_pos hdeep, hundone]
      rw [biPfxLen_eq] at hdeep
      obtain ⟨r1, r2, r3⟩ := mtrieDeleteEntry_addFrom hrt hfix hrep n (level + 1) _
        (mtrieAddFrom env rt true n (level + 1) (bktOf env true e (rtToIndex rt level))).info
        (by omega) (by omega) (.inl hdeep) (h.bktOf (rtToIndex rt level)).1
      obtain ⟨h1, h2, h3⟩ := @mtrieDeleteBkt_spec env n W f i
        ((forall_update_iff _ fun _ x => Filed env W n x).2 ⟨r1, fun j _ => (h.bktOf j).1⟩)
      refine ⟨h1, ?_, fun hc => h3 ((forall_update_iff _ fun _ x => Compact x).2
        ⟨r3 (hc.bktOf _), fun j _ => hc.bktOf j⟩)⟩
      rw [sameLeaves_succ h h2, forall_update_iff (bktOf env true e)
        fun j x => SameLeaves n x (bktOf env true e j), ← r2]
      exact and_iff_left fun j _ => .refl _ _
    · set f := fun j => if (j - rtToIndex rt level).val < coveredEntries level rt.rtrPrefixLen then
        deleteCovered env rt (addToTree env rt (bktOf env true e j) level) level
        else bktOf env true e j
      have hhi : rt.rtrPrefixLen ≤ 8 * (level + 1) := by
        rw [biPfxLen_eq] at hdeep
        omega
      have hundone : undone = mtrieDeleteBkt env true i f :=
        mtrieDeleteEntry_covered hrt i hlev hlo hdeep
      rw [if_neg hdeep, hundone]
      have hcov := fun j => @deleteCovered_addToTree _ _ _ level n _ hfix hrep hrt.plen_lt
        hhi (by omega) (h.bktOf j).1
      obtain ⟨h1, h2, h3⟩ := @mtrieDeleteBkt_spec env n W f i fun j => by
        dsimp only [f]
        split_ifs
        · exact (hcov j).1
        · exact (h.bktOf j).1
      refine ⟨h1, ?_, fun hc => h3 fun j => ?_⟩
      · rw [sameLeaves_succ h h2]
        refine forall_congr' fun j => ?_
        dsimp only [f]
        split_ifs with hj
        · rw [(hcov j).2.1]
          exact ⟨fun h _ => h, fun h => h hj⟩
        · exact iff_of_true (.refl _ _) fun hj' => absurd hj' hj
      · dsimp only [f]
        split_ifs
        · exact (hcov j).2.2 (hc.bktOf j)
        · exact hc.bktOf j

/-! ### The tables -/

variable {tbl : VnRtable}

/-- The request that `mtrie_add` and `mtrie_delete` go into the trie with. -/
def RouteReq.completed (rt : RouteReq) (nh : Nexthop) (index : ℕ) : RouteReq :=
  { rt with rtrNh := .nexthop nh, rtrIndex := index, rtrLabel := reqLabel rt }

/-- An addition would change nothing but what its deletion writes. -/
def Undoable (env : Env) (tbl : VnRtable) (rt : RouteReq) : Prop :=
  ∃ trie, vrfidToMtrie env tbl rt.rtrVrfId rt.rtrFamily = some trie ∧
    ∀ nh ∈ env.getNexthop rt.rtrNhId, ∀ index ∈ reqBridgeIndex env rt,
      RepeatsFrom env (rt.completed nh index) trie 0

/-- A lookup of a whole address. -/
def RouteReq.Whole (q : RouteReq) : Prop := q.rtrFamily ≠ .other ∧ q.Full q.rtrFamily

theorem mtrieLookup_leafAt {vrf : ℕ} (hq : q.Full q.rtrFamily)
    (htrie : vrfidToMtrie env tbl vrf q.rtrFamily = some e) {d : VoidPtr} {i : EntryInfo}
    (hleaf : leafAt e q.rtrPrefix = .leaf .nexthop d i) (hd : d ≠ .null)
    (hi : i.entryPrefixLen ≤ 8 * ipBktGetMaxLevel q.rtrFamily) :
    mtrieLookup env tbl vrf q = some (takeLeaf d i q, d) := by
  cases e with
  | leaf t d' i' =>
    cases hleaf
    simp only [mtrieLookup, htrie, if_neg hd]
  | bucket i' bkt =>
    have hcore := mtrieLookupCore_leafAt hq hd (by rw [hq.plen]; exact hi) 0 hleaf
    simp only [mtrieLookup, htrie, hcore, if_neg hd]
    rfl

/-- A whole address with the bytes `l`, asked for with the fields of `q`. -/
def RouteReq.whole (q : RouteReq) (fam : Family) (l : List Byte) : RouteReq :=
  { q with
    rtrFamily := fam
    rtrPrefix := l
    rtrPrefixLen := 8 * ipBktGetMaxLevel fam }

theorem takeLeaf_injective {d d' : VoidPtr} {i i' : EntryInfo}
    (h : takeLeaf d i q = takeLeaf d' i' q) : d = d' ∧ i = i' := by
  obtain ⟨p, f, l, b⟩ := i
  obtain ⟨p', f', l', b'⟩ := i'
  simp only [takeLeaf, RouteReq.mk.injEq] at h
  obtain ⟨_, _, _, rfl, rfl, rfl, _, _, _, rfl, rfl⟩ := h
  exact ⟨rfl, rfl⟩

section

variable {tbl' : VnRtable} {vrf : ℕ} {fam : Family}

/-- Tries with the same leaves answer all lookups of whole addresses alike, and no others do. -/
theorem mtrieLookup_whole_iff (he : vrfidToMtrie env tbl vrf fam = some e)
    (he' : vrfidToMtrie env tbl' vrf fam = some e')
    (hf : Filed env (8 * ipBktGetMaxLevel fam) (ipBktGetMaxLevel fam) e)
    (hf' : Filed env (8 * ipBktGetMaxLevel fam) (ipBktGetMaxLevel fam) e') (q₀ : RouteReq) :
    (∀ q, q.rtrFamily = fam → q.Full fam → mtrieLookup env tbl' vrf q = mtrieLookup env tbl vrf q) ↔
      SameLeaves (ipBktGetMaxLevel fam) e' e := by
  have hlook : ∀ {tbl : VnRtable} {e : Entry}, vrfidToMtrie env tbl vrf fam = some e →
      Filed env (8 * ipBktGetMaxLevel fam) (ipBktGetMaxLevel fam) e → ∀ q : RouteReq,
      q.rtrFamily = fam → q.Full fam → ∃ d i, leafAt e q.rtrPrefix = .leaf .nexthop d i ∧
        mtrieLookup env tbl vrf q = some (takeLeaf d i q, d) := by
    rintro tbl e he hf q rfl hq
    obtain ⟨d, i, hleaf, hd, hi⟩ := hf.leafAt hq.prefix_length
    exact ⟨d, i, hleaf, mtrieLookup_leafAt hq he hleaf hd.2 hi⟩
  constructor
  · intro h l hl
    have hq : (q₀.whole fam l).Full fam := ⟨rfl, hl, rfl⟩
    obtain ⟨d, i, hleaf, hres⟩ := hlook he hf _ rfl hq
    obtain ⟨d', i', hleaf', hres'⟩ := hlook he' hf' _ rfl hq
    have hsame := h _ rfl hq
    rw [hres, hres'] at hsame
    obtain ⟨rfl, rfl⟩ := takeLeaf_injective (congrArg Prod.fst (Option.some.inj hsame))
    exact hleaf'.trans hleaf.symm
  · intro h q hfam hq
    obtain ⟨d, i, hleaf, hres⟩ := hlook he hf q hfam hq
    obtain ⟨d', i', hleaf', hres'⟩ := hlook he' hf' q hfam hq
    rw [h _ hq.prefix_length, hleaf] at hleaf'
    cases hleaf'
    rw [hres, hres']

end

theorem mtrieLookup_alike {tbl' : VnRtable} {vrf : ℕ}
    (he : vrfidToMtrie env tbl vrf q.rtrFamily = some e)
    (he' : vrfidToMtrie env tbl' vrf q.rtrFamily = some e') (h : Alike e' e) :
    mtrieLookup env tbl' vrf q = mtrieLookup env tbl vrf q := by
  unfold mtrieLookup
  rw [he', he]
  cases e with
  | leaf t d i => rw [h.leaf_eq]
  | bucket i f =>
    cases e' with
    | leaf t d i => exact h.elim
    | bucket i' g =>
      dsimp only
      rw [h.lookupCore]

theorem mtrieLookup_congr {tbl' : VnRtable} {vrf : ℕ}
    (h : vrfidToMtrie env tbl' vrf q.rtrFamily = vrfidToMtrie env tbl vrf q.rtrFamily) :
    mtrieLookup env tbl' vrf q = mtrieLookup env tbl vrf q := by
  unfold mtrieLookup
  rw [h]

theorem reqLabel_reqLabel (rt : RouteReq) :
    reqLabel { rt with rtrLabel := reqLabel rt } = reqLabel rt := by
  unfold reqLabel
  dsimp only
  split_ifs
  · rfl
  · rw [Nat.and_assoc, Nat.and_self]

/-- What `mtrie_delete` leaves after `mtrie_add`, for the request as the addition leaves it. -/
theorem mtrieAdd_undone (hvrf : rt.rtrVrfId < env.vrVrfs) (hadd : (mtrieAdd env tbl rt).1 = 0) :
    ∃ nh index, env.getNexthop rt.rtrNhId = some nh ∧ reqBridgeIndex env rt = some index ∧
      let trie := (vrfidToMtrie env tbl rt.rtrVrfId rt.rtrFamily).getD (mtrieAllocVrf env)
      let added := mtrieAddCore env (rt.completed nh index) true trie
      (mtrieDelete env (mtrieAdd env tbl rt).2 { rt with rtrLabel := reqLabel rt }).2 =
        setMtrie (mtrieAdd env tbl rt).2 rt.rtrVrfId rt.rtrFamily
          (mtrieDeleteEntry env (rt.completed nh index) true added added.info 0) := by
  cases hnh : env.getNexthop rt.rtrNhId with
  | none =>
    simp only [mtrieAdd, hnh] at hadd
    exact absurd hadd (by decide)
  | some nh =>
    cases hidx : reqBridgeIndex env rt with
    | none =>
      simp only [mtrieAdd, hnh, hidx] at hadd
      split_ifs at hadd
      · exact absurd hadd (show (-einval : ℤ) ≠ 0 by decide)
      · exact absurd hadd (show (-enoent : ℤ) ≠ 0 by decide)
    | some index =>
      refine ⟨nh, index, rfl, rfl, ?_⟩
      have htunnel : ¬ (rt.rtrLabelFlags &&& vrRtLabelValidFlag = 0 ∧ nh.nhType = .tunnel) := by
        intro ht
        simp only [mtrieAdd, hnh, if_pos ht] at hadd
        exact absurd hadd (by decide)
      have hafter : (mtrieAdd env tbl rt).2 = setMtrie (setMtrie tbl rt.rtrVrfId rt.rtrFamily
          ((vrfidToMtrie env tbl rt.rtrVrfId rt.rtrFamily).getD (mtrieAllocVrf env)))
          rt.rtrVrfId rt.rtrFamily (mtrieAddCore env (rt.completed nh index) true
            ((vrfidToMtrie env tbl rt.rtrVrfId rt.rtrFamily).getD (mtrieAllocVrf env))) := by
        simp only [mtrieAdd, hnh, if_neg htunnel, hidx]
        rfl
      have hidx' : reqBridgeIndex env { rt with rtrLabel := reqLabel rt } = some index := hidx
      rw [hafter]
      simp only [mtrieDelete, vrfidToMtrie_setMtrie _ hvrf, hnh, hidx', reqLabel_reqLabel]
      rfl

theorem undoable_iff {nh : Nexthop} {index : ℕ}
    (htrie : vrfidToMtrie env tbl rt.rtrVrfId rt.rtrFamily = some e)
    (hnh : env.getNexthop rt.rtrNhId = some nh) (hidx : reqBridgeIndex env rt = some index) :
    Undoable env tbl rt ↔ RepeatsFrom env (rt.completed nh index) e 0 := by
  constructor
  · rintro ⟨e', he', h⟩
    rw [htrie] at he'
    cases he'
    exact h nh hnh index hidx
  · intro h
    refine ⟨e, htrie, fun nh' hnh' index' hidx' => ?_⟩
    rw [hnh] at hnh'
    rw [hidx] at hidx'
    cases hnh'
    cases hidx'
    exact h

/-- A trie where there was none answers, and with other fields than the request came with. -/
theorem mtrieLookup_new_ne {tbl' : VnRtable} (hrt : rt.Masked) (hfam : rt.rtrFamily ≠ .other)
    (htrie : vrfidToMtrie env tbl rt.rtrVrfId rt.rtrFamily = none)
    (hnew : vrfidToMtrie env tbl' rt.rtrVrfId rt.rtrFamily = some e)
    (hf : Filed env (8 * ipBktGetMaxLevel rt.rtrFamily) (ipBktGetMaxLevel rt.rtrFamily) e) :
    ¬ ∀ vrf q, q.Whole → mtrieLookup env tbl' vrf q = mtrieLookup env tbl vrf q := by
  intro hall
  obtain ⟨d, i, hleaf, hd, hi⟩ := hf.leafAt (l := rt.rtrPrefix) hrt.prefix_length
  set q : RouteReq := { rt.whole rt.rtrFamily rt.rtrPrefix with rtrLabel := i.entryLabel + 1 }
  have hq : q.Full q.rtrFamily := ⟨rfl, hrt.prefix_length, rfl⟩
  have hsame := hall rt.rtrVrfId q ⟨hfam, hq⟩
  rw [mtrieLookup_leafAt hq hnew hleaf hd.2 hi, mtrieLookup] at hsame
  have hnone : vrfidToMtrie env tbl rt.rtrVrfId q.rtrFamily = none := htrie
  rw [hnone] at hsame
  have hlabel := congrArg (fun r => r.1.rtrLabel) (Option.some.inj hsame)
  exact absurd hlabel (Nat.ne_of_lt (Nat.lt_succ_self _))

/-- **`mtrie_delete` after `mtrie_add`.**  All lookups of whole addresses are what they were exactly
if the VRF had a trie and the addition repeats what the deletion writes in it.  If the trie had no
bucket of equal leaves, so are all other lookups. -/
theorem mtrieLookup_undone (hrt : rt.Masked) (hfam : rt.rtrFamily ≠ .other)
    (hvrf : rt.rtrVrfId < env.vrVrfs) (hrep : rt.rtrReplacePlen ≤ 8 * ipBktGetMaxLevel rt.rtrFamily)
    (hfiled : ∀ e ∈ vrfidToMtrie env tbl rt.rtrVrfId rt.rtrFamily,
      Filed env (8 * ipBktGetMaxLevel rt.rtrFamily) (ipBktGetMaxLevel rt.rtrFamily) e)
    (hadd : (mtrieAdd env tbl rt).1 = 0) :
    let after := (mtrieDelete env (mtrieAdd env tbl rt).2 { rt with rtrLabel := reqLabel rt }).2
    ((∀ vrf q, q.Whole → mtrieLookup env after vrf q = mtrieLookup env tbl vrf q) ↔
      Undoable env tbl rt) ∧
    ((∀ e ∈ vrfidToMtrie env tbl rt.rtrVrfId rt.rtrFamily, Compact e) → Undoable env tbl rt →
      ∀ vrf q, mtrieLookup env after vrf q = mtrieLookup env tbl vrf q) := by
  obtain ⟨nh, index, hnh, hidx, hafter⟩ := mtrieAdd_undone hvrf hadd
  intro after
  replace hafter : after = _ := hafter
  have hfix : Fixed env .nexthop (rt.completed nh index).rtrNh := fixed_nexthop hnh
  have hmasked : (rt.completed nh index).Masked := ⟨hrt.prefix_length, hrt.plen_le, hrt.masked⟩
  -- the tries of other tables stay
  have hother : ∀ {vrf : ℕ} {q : RouteReq},
      rt.rtrVrfId ≠ vrf ∨ rtableIndex rt.rtrFamily ≠ rtableIndex q.rtrFamily →
      mtrieLookup env after vrf q = mtrieLookup env tbl vrf q := fun h => mtrieLookup_congr (by
    rw [hafter, vrfidToMtrie_setMtrie_ne h, mtrieAdd_frame h])
  have hafter' := congrArg (vrfidToMtrie env · rt.rtrVrfId rt.rtrFamily) hafter
  rw [vrfidToMtrie_setMtrie _ hvrf] at hafter'
  cases htrie : vrfidToMtrie env tbl rt.rtrVrfId rt.rtrFamily with
  | none =>
    have hnot : ¬ Undoable env tbl rt := by
      rintro ⟨e, he, -⟩
      rw [htrie] at he
      cases he
    have hnew : Filed env (8 * ipBktGetMaxLevel rt.rtrFamily) (ipBktGetMaxLevel rt.rtrFamily)
        (mtrieAllocVrf env) := by
      rw [mtrieAllocVrf, env.getNexthop_discard]
      exact filed_leaf.2 ⟨rfl, fixed_nexthop env.getNexthop_discard, Nat.zero_le _⟩
    rw [htrie, Option.getD_none] at hafter'
    have hundo := (mtrieDeleteEntry_addFrom hmasked hfix hrep _ 0 _ (mtrieAddCore env
      (rt.completed nh index) true (mtrieAllocVrf env)).info rfl (maxLevel_pos _) (.inr rfl) hnew).1
    exact ⟨iff_of_false (mtrieLookup_new_ne hrt hfam htrie hafter' hundo) hnot,
      fun _ h => absurd h hnot⟩
  | some e =>
    rw [htrie, Option.getD_some] at hafter'
    have hf := hfiled e htrie
    obtain ⟨h1, h2, h3⟩ := mtrieDeleteEntry_addFrom hmasked hfix hrep _ 0 e (mtrieAddCore env
      (rt.completed nh index) true e).info rfl (maxLevel_pos _) (.inr rfl) hf
    have hown := mtrieLookup_whole_iff htrie hafter' hf h1 rt
    rw [undoable_iff htrie hnh hidx, ← h2]
    refine ⟨⟨fun h => hown.1 fun q hq hfull => h _ q ⟨hq ▸ hfam, hq ▸ hfull⟩, fun h vrf q hq => ?_⟩,
      fun hc h vrf q => ?_⟩
    · by_cases hne : rt.rtrVrfId ≠ vrf ∨ rtableIndex rt.rtrFamily ≠ rtableIndex q.rtrFamily
      · exact hother hne
      · rw [not_or, not_not, not_not] at hne
        obtain ⟨rfl, hidx⟩ := hne
        have hsame : q.rtrFamily = rt.rtrFamily := by
          have := hq.1
          revert hidx hfam this
          cases rt.rtrFamily <;> cases q.rtrFamily <;> simp [rtableIndex]
        exact hown.2 h q hsame (hsame ▸ hq.2)
    · by_cases hne : rt.rtrVrfId ≠ vrf ∨ rtableIndex rt.rtrFamily ≠ rtableIndex q.rtrFamily
      · exact hother hne
      · rw [not_or, not_not, not_not] at hne
        obtain ⟨rfl, hidx⟩ := hne
        have hsame : ∀ tbl', vrfidToMtrie env tbl' rt.rtrVrfId q.rtrFamily =
            vrfidToMtrie env tbl' rt.rtrVrfId rt.rtrFamily := by
          intro tbl'
          unfold vrfidToMtrie
          rw [hidx]
        have hce := hc e rfl
        exact mtrieLookup_alike ((hsame _).trans htrie) ((hsame _).trans hafter')
          ((h3 hce).alike hce h1 hf h)

end Vrouter.Mtrie
