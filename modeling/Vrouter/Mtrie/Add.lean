import Vrouter.Mtrie.Invariant

/-! # Adding a route

`__mtrie_add` walks to the bucket that holds the prefix and lets `add_to_tree` fill every entry
the prefix covers.  `mtrieAddCore_represents` says that the trie then represents the table in
which the prefix is installed. -/

namespace Vrouter.Mtrie

open Vrouter.Lib Function

variable {δ : Type} {env : Env} {W : ℕ} {view : VoidPtr → EntryInfo → δ}
variable {T : List Bool → Option δ} {z : δ} {rt : RouteReq} {dataIsNh : Bool} {ty : LeafType}

/-- The prefix of a request, as bits. -/
def reqPrefix (rt : RouteReq) : List Bool := (bits rt.rtrPrefix).take rt.rtrPrefixLen

/-- The data of the route a request adds. -/
def reqData (view : VoidPtr → EntryInfo → δ) (rt : RouteReq) : δ :=
  view rt.rtrNh (reqInfo rt rt.rtrPrefixLen)

/-- A request as it reaches the trie: a full address with the bits beyond the prefix length
cleared, and a length that the family allows. -/
structure RouteReq.Masked (rt : RouteReq) : Prop where
  prefix_length : rt.rtrPrefix.length = ipBktGetMaxLevel rt.rtrFamily
  plen_le : rt.rtrPrefixLen ≤ 8 * ipBktGetMaxLevel rt.rtrFamily
  masked : ∀ level, 8 * level < rt.rtrPrefixLen → rt.rtrPrefixLen ≤ 8 * (level + 1) →
    (rtToIndex rt level).val % 2 ^ (8 * (level + 1) - rt.rtrPrefixLen) = 0

/-- A request as `__mtrie_add` expects it: its pointer is one that the entries can hold. -/
structure RouteReq.Ready (env : Env) (ty : LeafType) (rt : RouteReq) : Prop extends
    RouteReq.Masked rt where
  fixed : Fixed env ty rt.rtrNh

theorem maxLevel_le (fam : Family) : ipBktGetMaxLevel fam ≤ 16 := by cases fam <;> decide

theorem maxLevel_pos (fam : Family) : 0 < ipBktGetMaxLevel fam := by cases fam <;> decide

theorem RouteReq.Masked.reqPrefix_length (h : rt.Masked) :
    (reqPrefix rt).length = rt.rtrPrefixLen := by
  have := h.plen_le
  rw [reqPrefix, List.length_take, bits_length, h.prefix_length]
  omega

theorem RouteReq.Masked.plen_lt (h : rt.Masked) : rt.rtrPrefixLen < 2 ^ 8 := by
  have h1 := h.plen_le
  have h2 := maxLevel_le rt.rtrFamily
  omega

/-! ### `add_to_tree` -/

/-- A block with no word beneath it that the new prefix covers does not change. -/
theorem Represents.install_of_not_cover {ent : Entry} {b p : List Bool} {d : δ}
    (h : Represents env ty W view T z ent b) (hnot : ∀ x, b <+: x → ¬ p <+: x) :
    Represents env ty W view (install T p d) z ent b := by
  refine h.congr (fun x hx => lpm_install_of_not_isPrefix _ (hnot x hx) _) ?_
  intro x hx _ hnone
  rw [install_ne, hnone]
  rintro rfl
  exact hnot _ hx (List.prefix_refl _)

/-- A block whose match is longer than the new prefix does not change. -/
theorem Represents.install_of_longer {ent : Entry} {b p : List Bool} {d : δ}
    (h : Represents env ty W view T z ent b) (hp : p <+: b)
    (hlt : p.length < ent.info.entryPrefixLen) :
    Represents env ty W view (install T p d) z ent b := by
  have hplen := h.plen
  refine h.congr ?_ ?_
  · intro x hx
    apply lpm_install_of_longer d (le_refl _)
    have := lpm_len_mono_isPrefix (T := T) (z := z) hx
    omega
  · intro x _ hlen hx
    rw [install_ne d, hx]
    rintro rfl
    have := hp.length_le
    omega

theorem addToTree_represents (hrt : rt.Ready env ty) (hW : W = 8 * ipBktGetMaxLevel rt.rtrFamily) :
    ∀ {ent : Entry} {b : List Bool} {level : ℕ}, Represents env ty W view T z ent b →
      reqPrefix rt <+: b → b.length = 8 * (level + 1) →
      Represents env ty W view (install T (reqPrefix rt) (reqData view rt)) z
        (addToTree env rt ent level) b
  | .leaf t d i, b, level, h, hp, hb => by
    have hlen := hrt.reqPrefix_length
    have hplen := h.plen
    simp only [addToTree]
    split_ifs with hgt
    · exact h.install_of_longer hp (by rw [hlen]; exact hgt)
    · obtain ⟨rfl, hd, hm, hx⟩ := h
      have hmod : rt.rtrPrefixLen % 2 ^ 8 = rt.rtrPrefixLen := Nat.mod_eq_of_lt hrt.plen_lt
      have hple := hp.length_le
      refine ⟨rfl, by rw [hrt.fixed.1]; exact hrt.fixed, ?_, ?_⟩
      · rw [lpm_install_of_le _ (le_refl _) hp hple (by rw [hm]; omega), hlen, hrt.fixed.1]
        simp only [reqInfo, reqData, hmod]
      · intro x h1 h2
        rw [install_ne, hx x h1 h2]
        rintro rfl
        omega
  | .bucket i bkt, b, level, h, hp, hb => by
    have hlen := hrt.reqPrefix_length
    have hplen := h.plen
    simp only [addToTree]
    split_ifs with hgt hlev
    · exact h.install_of_longer hp (by rw [hlen]; exact hgt)
    · obtain ⟨hbW, _, _⟩ := h
      omega
    · obtain ⟨hbW, hi, hch⟩ := h
      have hmod : rt.rtrPrefixLen % 2 ^ 8 = rt.rtrPrefixLen := Nat.mod_eq_of_lt hrt.plen_lt
      have hple := hp.length_le
      refine ⟨hbW, ?_, fun j => ?_⟩
      · rw [lpm_install_of_le _ (le_refl _) hp hple (by omega), hlen]
        exact hmod
      · exact addToTree_represents hrt hW (hch j) (hp.trans (List.prefix_append b _))
          (by simp [hb]; omega)

/-! ### The entries a prefix covers -/

theorem addToEntries_apply (level : ℕ) : ∀ (fin : ℕ) (i : Byte) (bkt : Byte → Entry) (j : Byte),
    fin ≤ 256 → addToEntries env rt level fin i bkt j =
      if (j - i).val < fin then addToTree env rt (bkt j) level else bkt j
  | 0, i, bkt, j, _ => by simp [addToEntries]
  | fin + 1, i, bkt, j, hfin => by
    rw [addToEntries, addToEntries_apply level fin (i + 1) _ j (by omega)]
    by_cases hji : j = i
    · subst hji
      -- the entry just visited comes again only after a full turn
      have h1 : ¬ (j - (j + 1)).val < fin := by rw [byte_sub_self_succ]; omega
      have h2 : (j - j).val < fin + 1 := by rw [byte_sub_val]; omega
      rw [if_neg h1, update_self, if_pos h2]
    · rw [update_of_ne hji, byte_sub_succ hji]
      simp only [Nat.add_lt_add_iff_right]

/-- In the bucket that holds the prefix, the blocks it covers are consecutive. -/
theorem reqPrefix_block_iff {level : ℕ} (hlen : rt.rtrPrefix.length = ipBktGetMaxLevel rt.rtrFamily)
    (hlev : level < ipBktGetMaxLevel rt.rtrFamily) (hlo : 8 * level < rt.rtrPrefixLen)
    (hhi : rt.rtrPrefixLen ≤ 8 * (level + 1)) (j : Byte) :
    let m := 1 <<< (8 * (level + 1) - rt.rtrPrefixLen)
    let first := (rtToIndex rt level).val - (rtToIndex rt level).val % m
    reqPrefix rt <+: (bits rt.rtrPrefix).take (8 * level) ++ byteBits j ↔
      first ≤ j.val ∧ j.val < m + first := by
  have hr : rt.rtrPrefixLen - 8 * level ≤ 8 := by omega
  have hsplit := bits_take_add rt.rtrPrefix (n := level) (by omega) hr
  rw [show 8 * level + (rt.rtrPrefixLen - 8 * level) = rt.rtrPrefixLen by omega,
    ← reqPrefix, ← rtToIndex] at hsplit
  rw [hsplit, prefix_block_iff, List.length_take, byteBits_length, Nat.min_eq_left hr,
    take_byteBits_eq_iff hr, Nat.one_shiftLeft,
    show 8 * (level + 1) - rt.rtrPrefixLen = 8 - (rt.rtrPrefixLen - 8 * level) by omega]

/-- The entries that the addition visits there are those blocks. -/
theorem covered_iff (hrt : rt.Masked) (level : ℕ)
    (hlev : level < ipBktGetMaxLevel rt.rtrFamily)
    (hlo : 8 * level < rt.rtrPrefixLen ∨ level = 0) (hhi : rt.rtrPrefixLen ≤ 8 * (level + 1))
    (j : Byte) :
    (j - rtToIndex rt level).val < coveredEntries level rt.rtrPrefixLen ↔
      reqPrefix rt <+: (bits rt.rtrPrefix).take (8 * level) ++ byteBits j := by
  by_cases h0 : 8 * level < rt.rtrPrefixLen
  · have hmask := hrt.masked level h0 hhi
    simp only [reqPrefix_block_iff hrt.prefix_length hlev h0 hhi, coveredEntries, biPfxLen_eq,
      biBits_eq, biSize_eq, Nat.one_shiftLeft, hmask]
    rw [if_pos (by omega), byte_sub_val]
    have hdvd : 2 ^ (8 * (level + 1) - rt.rtrPrefixLen) ∣ 256 :=
      Nat.pow_dvd_pow 2 (show 8 * (level + 1) - rt.rtrPrefixLen ≤ 8 by omega)
    -- a multiple of the block size below 256 leaves room for a whole block
    have hroom : (rtToIndex rt level).val + 2 ^ (8 * (level + 1) - rt.rtrPrefixLen) ≤ 256 := by
      have h1 := (rtToIndex rt level).isLt
      obtain ⟨m, hm⟩ := hdvd
      obtain ⟨k, hk⟩ := Nat.dvd_of_mod_eq_zero hmask
      rw [hk] at h1 ⊢
      rw [hm] at h1 ⊢
      have := Nat.lt_of_mul_lt_mul_left h1
      rw [← Nat.mul_succ]
      exact Nat.mul_le_mul_left _ this
    have h1 := (rtToIndex rt level).isLt
    have h2 := j.isLt
    omega
  · have hz : rt.rtrPrefixLen = 0 ∧ level = 0 := by omega
    rw [hz.2, hz.1, reqPrefix, hz.1]
    simp only [List.take_zero, List.nil_prefix, iff_true]
    exact (j - rtToIndex rt 0).isLt

theorem coveredEntries_le (level plen : ℕ) : coveredEntries level plen ≤ 256 := by
  simp only [coveredEntries, biPfxLen_eq, biBits_eq, biSize_eq, Nat.one_shiftLeft]
  split_ifs with h
  · exact Nat.pow_le_pow_right (by omega) (show 8 * (level + 1) - plen ≤ 8 by omega)
  · exact le_refl _

/-! ### `__mtrie_add` -/

theorem mtrieAddFrom_represents (hrt : rt.Ready env (leafType dataIsNh))
    (hW : W = 8 * ipBktGetMaxLevel rt.rtrFamily) :
    ∀ (n level : ℕ) {ent : Entry}, level + n = ipBktGetMaxLevel rt.rtrFamily →
      (8 * level < rt.rtrPrefixLen ∨ level = 0) →
      Represents env (leafType dataIsNh) W view T z ent ((bits rt.rtrPrefix).take (8 * level)) →
      Represents env (leafType dataIsNh) W view (install T (reqPrefix rt) (reqData view rt)) z
        (mtrieAddFrom env rt dataIsNh n level ent) ((bits rt.rtrPrefix).take (8 * level))
  | 0, level, ent, hn, hlo, _ => by
    have h1 := hrt.plen_le
    have h2 := maxLevel_pos rt.rtrFamily
    omega
  | n + 1, level, ent, hn, hlo, h => by
    set b := (bits rt.rtrPrefix).take (8 * level) with hb
    have hblen : b.length = 8 * level := by simp [hb, hrt.prefix_length]; omega
    have hplen := hrt.reqPrefix_length
    have hbW : b.length < W := by omega
    -- the match of `b` itself keeps its length: the prefix is longer, or both are empty
    have hinfo : ent.info.entryPrefixLen =
        (lpm (install T (reqPrefix rt) (reqData view rt)) z b b.length).1 := by
      rw [h.plen]
      rcases hlo with hlo | rfl
      · rw [lpm_install_of_lt _ (by omega) (le_refl _)]
      · have h0 : b.length = 0 := by omega
        rw [h0]; rfl
    simp only [mtrieAddFrom, biPfxLen_eq]
    split_ifs with hgt
    · have hstep := bits_take_succ rt.rtrPrefix (n := level) (by rw [hrt.prefix_length]; omega)
      refine ⟨hbW, hinfo, fun j => ?_⟩
      by_cases hj : j = rtToIndex rt level
      · subst hj
        rw [update_self]
        have hchild := h.bktOf (rtToIndex rt level)
        rw [rtToIndex, hb, ← hstep] at hchild ⊢
        exact mtrieAddFrom_represents hrt hW n (level + 1) (by omega) (by omega) hchild
      · rw [update_of_ne hj]
        have hpre : b ++ byteBits (rtToIndex rt level) <+: reqPrefix rt := by
          rw [rtToIndex, hb, ← hstep, reqPrefix]
          exact List.take_prefix_take_left (by omega)
        exact (h.bktOf j).install_of_not_cover
          fun x h1 h2 => hj (block_unique h1 (hpre.trans h2))
    · refine ⟨hbW, hinfo, fun j => ?_⟩
      rw [addToEntries_apply _ _ _ _ _ (coveredEntries_le _ _)]
      have hcov := covered_iff hrt.toMasked level (by omega) hlo (by omega) j
      rw [← hb] at hcov
      split_ifs with hj
      · exact addToTree_represents hrt hW (h.bktOf j) (hcov.mp hj) (by simp [hblen]; omega)
      · refine (h.bktOf j).install_of_not_cover fun x h1 h2 => hj (hcov.mpr ?_)
        exact List.prefix_of_prefix_length_le h2 h1 (by simp [hblen]; omega)

/-- **Adding a route installs its prefix** in the table the trie represents. -/
theorem mtrieAddCore_represents (hrt : rt.Ready env (leafType dataIsNh)) {root : Entry}
    (h : Represents env (leafType dataIsNh) (8 * ipBktGetMaxLevel rt.rtrFamily) view T z root []) :
    Represents env (leafType dataIsNh) (8 * ipBktGetMaxLevel rt.rtrFamily) view
      (install T (reqPrefix rt) (reqData view rt)) z (mtrieAddCore env rt dataIsNh root) [] := by
  have := mtrieAddFrom_represents hrt rfl (ipBktGetMaxLevel rt.rtrFamily) 0 (by omega) (Or.inr rfl)
    (by simpa using h)
  simpa [mtrieAddCore] using this

end Vrouter.Mtrie
