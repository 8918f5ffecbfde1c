import Vrouter.Mtrie.Routes

/-! # Deleting a route

`__mtrie_delete` gives every entry that the deleted prefix owns the replacement that the request
carries, and then collapses a bucket whose 256 entries are equal into one leaf.  The replacement
is right when the request names the next shorter prefix.  The collapse is right when the common
prefix length of the entries is at most the length of the block.  Otherwise the entries belong
to different prefixes of one length, which the block is *filled* with, and the leaf that replaces
them stands for none of them. -/

namespace Vrouter.Mtrie

open Vrouter.Lib

variable {δ : Type} {env : Env} {ty : LeafType} {W : ℕ} {view : VoidPtr → EntryInfo → δ}
variable {T : List Bool → Option δ} {z : δ} {rt : RouteReq} {bkt : Byte → Entry} {dataIsNh : Bool}
  {p : List Bool}

/-- The block `b` is filled: all prefixes of one length of the stride beneath it are installed,
with the same data, and no longer one is. -/
def Filled (T : List Bool → Option δ) (b : List Bool) : Prop :=
  ∃ n d, b.length < n ∧ n ≤ b.length + 8 ∧ (∀ x, b <+: x → x.length = n → T x = some d) ∧
    ∀ x, b <+: x → n < x.length → T x = none

/-! ### Collapsing a bucket -/

theorem sameEntry_leaf {e e' : Entry} (h : sameEntry e e' = true) :
    ∃ t d i, e = .leaf t d i ∧ e' = .leaf t d i := by
  cases e with
  | bucket i bkt => simp [sameEntry] at h
  | leaf t d i =>
    cases e' with
    | bucket i bkt => simp [sameEntry] at h
    | leaf t' d' i' =>
      obtain ⟨rfl, rfl, rfl⟩ := of_decide_eq_true h
      exact ⟨_, _, _, rfl, rfl⟩

theorem allSame_leaf (h : allSame bkt = true) :
    ∃ t d i, ∀ j, bkt j = .leaf t d i := by
  have hall : ∀ j : Byte, j ≠ 0 → sameEntry (bkt j) (bkt 0) = true := by
    intro j hj
    have := List.all_eq_true.mp h j (List.mem_finRange j)
    simpa [hj] using this
  obtain ⟨t, d, i, h1, h0⟩ := sameEntry_leaf (hall 1 (by decide))
  refine ⟨t, d, i, fun j => ?_⟩
  by_cases hj : j = 0
  · rw [hj, h0]
  · obtain ⟨t', d', i', hj', h0'⟩ := sameEntry_leaf (hall j hj)
    rw [h0] at h0'
    cases h0'
    exact hj'

/-- Every word beneath `b` that is at most a stride longer lies on the path to a block. -/
theorem exists_block {b x : List Bool} (hb : b <+: x) (hx : x.length ≤ b.length + 8) :
    ∃ j : Byte, x <+: b ++ byteBits j := by
  obtain ⟨y, rfl⟩ := hb
  obtain ⟨j, hj⟩ := exists_byteBits (y ++ List.replicate (8 - y.length) false)
    (by simp at hx ⊢; omega)
  exact ⟨j, by rw [hj, ← List.append_assoc]; exact List.prefix_append _ _⟩

section leaves

variable {b : List Bool} {t : LeafType} {d : VoidPtr} {i : EntryInfo}

variable (h : ∀ j, Represents env ty W view T z (.leaf t d i) (b ++ byteBits j))
include h

/-- Beneath a block of equal leaves nothing longer than the block and their length is installed. -/
theorem none_of_leaves
    {x : List Bool} (hb : b <+: x) (hi : i.entryPrefixLen < x.length) :
    T x = none := by
  rcases Nat.lt_or_ge (b.length + 8) x.length with hlong | hshort
  · obtain ⟨j, hj⟩ := exists_block (x := x.take (b.length + 8))
      (List.prefix_take_iff.mpr ⟨hb, by omega⟩) (by simp)
    have hj' : b ++ byteBits j <+: x := by
      have := hj.eq_of_length (by simp; omega)
      rw [← this]; exact List.take_prefix _ _
    exact (h j).2.2.2 x hj' (by simp; omega)
  · obtain ⟨j, hj⟩ := exists_block hb hshort
    have e : x = (b ++ byteBits j).take x.length := List.prefix_iff_eq_take.mp hj
    rw [e]
    refine none_of_lpm_lt (z := z) _ (b ++ byteBits j).length _ ?_ (by simp; omega)
    rw [(h j).2.2.1]
    exact hi

/-- Equal leaves with a prefix length inside the stride: the block is filled. -/
theorem filled_of_leaves (hlt : b.length < i.entryPrefixLen) : Filled T b := by
  have hle : i.entryPrefixLen ≤ b.length + 8 := by
    have := lpm_len_le (T := T) (z := z) (b ++ byteBits 0) (b ++ byteBits 0).length
    rw [(h 0).2.2.1] at this
    simpa using this
  refine ⟨i.entryPrefixLen, view d i, hlt, hle, ?_, ?_⟩
  · intro x hb hx
    obtain ⟨j, hj⟩ := exists_block hb (by omega)
    have hm := lpm_mem (T := T) (z := z) (b ++ byteBits j) (b ++ byteBits j).length
    rw [(h j).2.2.1] at hm
    have e : x = (b ++ byteBits j).take i.entryPrefixLen := by
      rw [← hx]; exact List.prefix_iff_eq_take.mp hj
    rcases hm with hm | ⟨h0, _⟩
    · rw [e]; exact hm
    · simp only at h0; omega
  · intro x hb hx
    exact none_of_leaves h hb hx

/-- Equal leaves with a prefix length that the block already has: one leaf says the same. -/
theorem represents_collapse
    (hle : i.entryPrefixLen ≤ b.length) : Represents env ty W view T z (.leaf t d i) b := by
  obtain ⟨ht, hd, h0, _⟩ := h 0
  refine ⟨ht, hd, ?_, fun x hb hx => none_of_leaves h hb (by omega)⟩
  have hcut : lpm T z (b ++ byteBits 0) b.length = (i.entryPrefixLen, view d i) := by
    rw [← h0]
    exact lpm_of_le (by rw [h0]; exact hle) (by simp)
  rw [← hcut]
  exact lpm_congr (le_refl _) (by simp)

end leaves

theorem mtrieDeleteBkt_represents {b : List Bool} {i : EntryInfo}
    (h : Represents env (leafType dataIsNh) W view T z (.bucket i bkt) b) (hf : ¬ Filled T b) :
    Represents env (leafType dataIsNh) W view T z (mtrieDeleteBkt env dataIsNh i bkt) b := by
  unfold mtrieDeleteBkt
  split_ifs with hsame
  · obtain ⟨t, d, i', hleaf⟩ := allSame_leaf hsame
    have hch : ∀ j, Represents env (leafType dataIsNh) W view T z (.leaf t d i') (b ++ byteBits j) :=
      fun j => hleaf j ▸ h.2.2 j
    rw [hleaf 0]
    obtain ⟨rfl, hd, _, _⟩ := hch 0
    simp only [hd.1]
    refine represents_collapse hch ?_
    by_contra hgt
    exact hf (filled_of_leaves hch (by omega))
  · exact h

/-! ### The entries a deletion visits -/

/-- A deletion request that does what it should: its prefix is installed, and it carries the
match that the prefix has without itself. -/
structure RouteReq.Deletes (env : Env) (ty : LeafType) (view : VoidPtr → EntryInfo → δ)
    (T : List Bool → Option δ) (z : δ) (rt : RouteReq) : Prop where
  prefix_length : rt.rtrPrefix.length = ipBktGetMaxLevel rt.rtrFamily
  plen_le : rt.rtrPrefixLen ≤ 8 * ipBktGetMaxLevel rt.rtrFamily
  installed : T (reqPrefix rt) ≠ none
  fixed : Fixed env ty rt.rtrNh
  replacement : lpm (remove T (reqPrefix rt)) z (reqPrefix rt) (reqPrefix rt).length =
    (rt.rtrReplacePlen, view rt.rtrNh (reqInfo rt rt.rtrReplacePlen))

section deletes

variable {b : List Bool} {ent : Entry}

theorem RouteReq.Deletes.reqPrefix_length (h : rt.Deletes env ty view T z) :
    (reqPrefix rt).length = rt.rtrPrefixLen := by
  have := h.plen_le
  rw [reqPrefix, List.length_take, bits_length, h.prefix_length]
  omega

theorem RouteReq.Deletes.replacePlen_mod (h : rt.Deletes env ty view T z) :
    rt.rtrReplacePlen % 2 ^ 8 = rt.rtrReplacePlen := by
  have h1 := lpm_len_le (T := remove T (reqPrefix rt)) (z := z) (reqPrefix rt) (reqPrefix rt).length
  rw [h.replacement, h.reqPrefix_length] at h1
  have h2 := h.plen_le
  have h3 := maxLevel_le rt.rtrFamily
  exact Nat.mod_eq_of_lt (by simp only at h1; omega)

/-- A block that the deleted prefix does not cover, nor any word beneath it, stays as it is. -/
theorem Represents.remove_of_not_cover (h : Represents env ty W view T z ent b)
    (hnot : ∀ x, b <+: x → ¬ p <+: x) : Represents env ty W view (remove T p) z ent b := by
  refine h.congr (fun x hx => lpm_remove_of_not_isPrefix (hnot x hx) _) ?_
  intro x hx _ hnone
  rw [remove_ne, hnone]
  rintro rfl
  exact hnot _ hx (List.prefix_refl _)

theorem Represents.remove_of_ne (h : Represents env ty W view T z ent b) (hp : p <+: b)
    (hT : T p ≠ none) (hne : ent.info.entryPrefixLen ≠ p.length) :
    Represents env ty W view (remove T p) z ent b := by
  have hge := le_lpm_len (z := z) hT hp
  have hplen := h.plen
  refine h.congr ?_ ?_
  · intro x hx
    apply lpm_remove_of_ne (le_refl _)
    have := lpm_len_mono_isPrefix (T := T) (z := z) hx
    omega
  · intro x _ hlen hnone
    rw [remove_ne, hnone]
    rintro rfl
    have := hp.length_le
    omega

theorem RouteReq.Deletes.lpm_remove (hrt : rt.Deletes env ty view T z) (hp : reqPrefix rt <+: b)
    (hm : (lpm T z b b.length).1 = rt.rtrPrefixLen) :
    lpm (remove T (reqPrefix rt)) z b b.length =
      (rt.rtrReplacePlen, view rt.rtrNh (reqInfo rt rt.rtrReplacePlen)) := by
  rw [lpm_remove_of_eq (le_refl _) hp (by rw [hm, hrt.reqPrefix_length]), hrt.replacement]

theorem RouteReq.Deletes.replaceLeaf_represents (hrt : rt.Deletes env ty view T z)
    {d : VoidPtr} {i : EntryInfo} (h : Represents env ty W view T z (.leaf ty d i) b)
    (hp : reqPrefix rt <+: b) (hi : i.entryPrefixLen = rt.rtrPrefixLen) :
    Represents env ty W view (remove T (reqPrefix rt)) z (replaceLeaf env rt ty) b := by
  obtain ⟨_, _, hm, hx⟩ := h
  refine ⟨rfl, by rw [hrt.fixed.1]; exact hrt.fixed, ?_, ?_⟩
  · rw [hrt.lpm_remove hp (by rw [hm, hi]), hrt.fixed.1]
    simp only [reqInfo, hrt.replacePlen_mod]
  · intro x h1 h2
    by_cases he : x = reqPrefix rt
    · rw [he, remove_same]
    · rw [remove_ne he, hx x h1 h2]

/-- Where the block stands to the prefix: on the path to it, or beneath it. -/
def OnPath (rt : RouteReq) (b : List Bool) (level : ℕ) : Prop :=
  (b = (bits rt.rtrPrefix).take (8 * level) ∧ 8 * level < rt.rtrPrefixLen) ∨ reqPrefix rt <+: b

/-- In the bucket that holds the prefix, and in those beneath it, a deletion visits the blocks
that the prefix covers. -/
theorem deleteRange_iff {level : ℕ} (hlen : rt.rtrPrefix.length = ipBktGetMaxLevel rt.rtrFamily)
    (hplen : (reqPrefix rt).length = rt.rtrPrefixLen) (hb : b.length = 8 * level)
    (hlev : level < ipBktGetMaxLevel rt.rtrFamily)
    (hpath : OnPath rt b level) (hhi : rt.rtrPrefixLen ≤ 8 * (level + 1)) (j : Byte) :
    ((deleteRange rt level).1 ≤ j.val ∧ j.val < (deleteRange rt level).2) ↔
      reqPrefix rt <+: b ++ byteBits j := by
  have hj := j.isLt
  simp only [deleteRange, biPfxLen_eq, biBits_eq, biSize_eq]
  rcases hpath with ⟨rfl, hlo⟩ | hp
  · rw [if_pos (by omega)]
    simp only [reqPrefix_block_iff hlen hlev hlo hhi, lt_min_iff, and_iff_left hj]
  · have hle := hp.length_le
    rw [hplen, hb] at hle
    rw [if_neg (by omega)]
    exact ⟨fun _ => hp.trans (List.prefix_append b _), fun _ => ⟨Nat.zero_le _, hj⟩⟩

end deletes

/-! ### `__mtrie_delete` -/

/-- The deletion of `p` leaves no filled block among those whose bucket it checks: the blocks on
the path to `p`, and the blocks beneath `p` that it owned. -/
def SparesFilled (T : List Bool → Option δ) (z : δ) (p : List Bool) : Prop :=
  ∀ b, 8 ∣ b.length → (b <+: p ∨ (p <+: b ∧ (lpm T z b b.length).1 = p.length)) →
    ¬ Filled (remove T p) b

theorem mtrieDeleteEntry_represents (hrt : rt.Deletes env (leafType dataIsNh) view T z)
    (hW : W = 8 * ipBktGetMaxLevel rt.rtrFamily) (hs : SparesFilled T z (reqPrefix rt)) :
    ∀ (ent : Entry) {b : List Bool} {level : ℕ} {i : EntryInfo},
      Represents env (leafType dataIsNh) W view T z ent b → b.length = 8 * level →
      OnPath rt b level → (reqPrefix rt <+: b → (lpm T z b b.length).1 = rt.rtrPrefixLen) →
      (∀ t d i', ent = .leaf t d i' → i = i') →
      (∀ i' f, ent = .bucket i' f →
        i.entryPrefixLen = (lpm (remove T (reqPrefix rt)) z b b.length).1) →
      Represents env (leafType dataIsNh) W view (remove T (reqPrefix rt)) z
        (mtrieDeleteEntry env rt dataIsNh ent i level) b := by
  intro ent
  have hplen := hrt.reqPrefix_length
  induction ent with
  | leaf t d i' =>
    intro b level i h hb hpath hown hi _
    obtain rfl := hi t d i' rfl
    rcases hpath with ⟨rfl, hlo⟩ | hp
    · -- the prefix is installed beneath the block, so the block is not a leaf
      refine absurd (h.2.2.2 (reqPrefix rt) ?_ ?_) hrt.installed
      · exact List.take_prefix_take_left (by omega)
      · omega
    · have hm := h.plen
      have hi' : i.entryPrefixLen = rt.rtrPrefixLen := by rw [← hown hp]; exact hm
      obtain rfl : t = leafType dataIsNh := h.1
      unfold mtrieDeleteEntry
      rw [if_pos hi']
      exact hrt.replaceLeaf_represents h hp hi'
  | bucket i' bkt ih =>
    intro b level i h hb hpath hown _ hi
    obtain ⟨hbW, _, hch⟩ := h
    have hlev : level < ipBktGetMaxLevel rt.rtrFamily := by omega
    have hlen : ∀ j, (b ++ byteBits j).length = 8 * (level + 1) := by intro j; simp; omega
    unfold mtrieDeleteEntry
    refine mtrieDeleteBkt_represents ⟨hbW, hi i' bkt rfl, fun j => ?_⟩ ?_
    · simp only [biPfxLen_eq]
      split_ifs with hgt
      · -- the prefix lies beneath one entry of the bucket
        have hpath' : b = (bits rt.rtrPrefix).take (8 * level) := by
          rcases hpath with ⟨hbe, _⟩ | hp
          · exact hbe
          · have := hp.length_le
            omega
        have hstep := bits_take_succ rt.rtrPrefix (n := level)
          (by rw [hrt.prefix_length]; exact hlev)
        rw [← hpath', ← rtToIndex] at hstep
        have hpre : b ++ byteBits (rtToIndex rt level) <+: reqPrefix rt := by
          rw [← hstep]
          exact List.take_prefix_take_left (by omega)
        by_cases hj : j = rtToIndex rt level
        · subst hj
          rw [Function.update_self]
          refine ih _ (hch _) (hlen _) (Or.inl ⟨hstep.symm, hgt⟩) ?_ ?_ ?_
          · intro hp
            have := hp.length_le
            rw [hplen, hlen] at this
            omega
          · intro t d i'' he
            rw [he]; rfl
          · intro i'' f _
            rw [(hch _).plen, lpm_remove_of_lt (by rw [hlen]; omega) (le_refl _)]
        · rw [Function.update_of_ne hj]
          exact (hch j).remove_of_not_cover
            (fun x h1 h2 => hj (block_unique h1 (hpre.trans h2)))
      · have hiff := deleteRange_iff hrt.prefix_length hplen hb hlev hpath (by omega) j
        beta_reduce
        by_cases hrange : (deleteRange rt level).1 ≤ j.val ∧ j.val < (deleteRange rt level).2
        · have hp := hiff.mp hrange
          rw [if_pos hrange]
          split_ifs with hown'
          · have hm : (lpm T z (b ++ byteBits j) (b ++ byteBits j).length).1 =
                rt.rtrPrefixLen := by rw [← (hch j).plen, hown']
            cases hent : bkt j with
            | leaf t d k =>
              have hj := hch j
              rw [hent] at hj hown'
              obtain rfl : t = leafType dataIsNh := hj.1
              exact hrt.replaceLeaf_represents hj hp hown'
            | bucket k f =>
              have := ih j (hch j) (hlen j) (i := replaceInfo rt k) (Or.inr hp) (fun _ => hm)
                (by rw [hent]; intro t d i'' he; cases he)
                (by
                  intro i'' f' _
                  rw [hrt.lpm_remove hp hm]
                  simp only [replaceInfo, reqInfo, hrt.replacePlen_mod])
              rw [hent] at this
              exact this
          · exact (hch j).remove_of_ne hp hrt.installed (by rw [hplen]; exact hown')
        · rw [if_neg hrange]
          refine (hch j).remove_of_not_cover fun x h1 h2 => hrange (hiff.mpr ?_)
          exact List.prefix_of_prefix_length_le h2 h1 (by rw [hplen, hlen]; omega)
    · refine hs b ⟨level, hb⟩ ?_
      rcases hpath with ⟨rfl, hlo⟩ | hp
      · exact Or.inl (List.take_prefix_take_left (by omega))
      · exact Or.inr ⟨hp, by rw [hown hp, hplen]⟩

end Vrouter.Mtrie
