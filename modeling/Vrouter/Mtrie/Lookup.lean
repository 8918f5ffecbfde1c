import Vrouter.Mtrie.Add

/-! # Full-length lookups

A lookup of a whole address follows the bytes of the address: the first entry it visits in each
bucket is the one it wants, so the scan over the bucket never goes on.  The answer is the
longest-prefix match in the table that the trie represents. -/

namespace Vrouter.Mtrie

open Vrouter.Lib

variable {δ : Type} {env : Env} {ty : LeafType} {W : ℕ} {view : VoidPtr → EntryInfo → δ}
variable {T : List Bool → Option δ} {z : δ} {q : RouteReq} {fam : Family}

/-- A query for a whole address of the family `fam`. -/
structure RouteReq.Full (fam : Family) (q : RouteReq) : Prop where
  family : q.rtrFamily = fam
  prefix_length : q.rtrPrefix.length = ipBktGetMaxLevel fam
  plen : q.rtrPrefixLen = 8 * ipBktGetMaxLevel fam

theorem lookupLimit_pos {level plen : ℕ} (h : 8 * level < plen) :
    ∃ limit, lookupLimit level plen = some limit ∧ 0 < limit := by
  simp only [lookupLimit, biPfxLen_eq, biSize_eq]
  split_ifs with h1 h2
  · exact ⟨256, rfl, by omega⟩
  · exact ⟨_, rfl, by rw [Nat.one_shiftLeft]; exact Nat.two_pow_pos _⟩
  · omega

theorem scanBkt_break {visit : Byte → ℕ → ℕ → Option (Option RouteReq)} {index : Byte} {n : ℕ}
    {rt : RouteReq} (rt' : RouteReq) (h : visit index 0 n = some (some rt')) :
    scanBkt visit index rt (n + 1) 0 = some rt' := by
  have e : index + Fin.ofNat 256 0 = index := by simp
  rw [scanBkt, e, h]

/-- The entry that the bytes of an address lead to. -/
def leafAt : Entry → List Byte → Entry
  | .leaf t d i, _ => .leaf t d i
  | .bucket i bkt, [] => .bucket i bkt
  | .bucket _ bkt, j :: l => leafAt (bkt j) l

/-- The lookup of a whole address, from a bucket on its path, ends at the leaf of the address. -/
theorem mtrieLookupCore_leafAt (hq : q.Full fam) {t : LeafType} {d : VoidPtr} {i' : EntryInfo}
    (hd : d ≠ .null) (hi' : i'.entryPrefixLen ≤ q.rtrPrefixLen) {i : EntryInfo} {bkt : Byte → Entry}
    (level : ℕ) (h : leafAt (.bucket i bkt) (q.rtrPrefix.drop level) = .leaf t d i') :
    mtrieLookupCore (.bucket i bkt) level q = some (takeLeaf d i' q, d) := by
  generalize hent : Entry.bucket i bkt = ent at h
  induction ent generalizing i bkt level with
  | leaf t d j => cases hent
  | bucket j f ih =>
    have hlev : level < q.rtrPrefix.length := by
      by_contra hge
      rw [List.drop_eq_nil_of_le (by omega)] at h
      cases h
    have hindex : q.rtrPrefix[level] = rtToIndex q level := (List.getD_eq_getElem _ _ hlev).symm
    rw [List.drop_eq_getElem_cons hlev, leafAt, hindex] at h
    have hplen := hq.plen
    have hlen := hq.prefix_length
    obtain ⟨limit, hlim, hpos⟩ := lookupLimit_pos (show 8 * level < q.rtrPrefixLen by omega)
    rw [mtrieLookupCore, lookupWith, hq.family, if_neg (by omega), hlim]
    simp only [biSize_eq, lookupLoop]
    rw [scanBkt_break (takeLeaf d i' q)]
    · rfl
    · -- the entry at the index: its leaf is accepted, or its bucket finds the leaf
      cases hidx : f (rtToIndex q level) with
      | leaf t' d' k =>
        rw [hidx] at h
        cases h
        simp only
        rw [if_neg (by omega), if_neg (by omega)]
      | bucket k g =>
        have hrec := ih (rtToIndex q level) (level + 1) hidx.symm h
        rw [hidx] at hrec
        replace hrec : lookupWith (lookupLoop (.bucket k g)) (level + 1) q = _ := hrec
        simp only [hrec]
        exact if_pos hd

/-- The leaf of an address holds its match. -/
theorem Represents.leafAt (hq : q.Full fam) (hW : W = 8 * ipBktGetMaxLevel fam) {ent : Entry}
    {level : ℕ} (h : Represents env ty W view T z ent ((bits q.rtrPrefix).take (8 * level)))
    (hlev : level ≤ ipBktGetMaxLevel fam) :
    ∃ d i', leafAt ent (q.rtrPrefix.drop level) = .leaf ty d i' ∧ d ≠ .null ∧
      lpm T z (bits q.rtrPrefix) (bits q.rtrPrefix).length = (i'.entryPrefixLen, view d i') := by
  induction ent generalizing level with
  | leaf t d j =>
    obtain ⟨rfl, hd, hm, hx⟩ := h
    refine ⟨d, j, rfl, hd.2, ?_⟩
    rw [← hm]
    exact lpm_of_isPrefix (List.take_prefix _ _) (fun x h1 _ h3 => hx x h1 h3)
  | bucket j f ih =>
    have hlen := hq.prefix_length
    have hlt : level < q.rtrPrefix.length := by
      have := h.1
      rw [List.length_take, bits_length] at this
      omega
    have hindex : q.rtrPrefix[level] = rtToIndex q level := (List.getD_eq_getElem _ _ hlt).symm
    have hchild := h.2.2 (rtToIndex q level)
    rw [rtToIndex, ← bits_take_succ q.rtrPrefix hlt, ← rtToIndex] at hchild
    rw [List.drop_eq_getElem_cons hlt, hindex]
    exact ih (rtToIndex q level) hchild (by omega)

/-- From a bucket on the path of the address, the lookup finds the match of the address. -/
theorem mtrieLookupCore_full (hq : q.Full fam) (hW : W = 8 * ipBktGetMaxLevel fam) {i : EntryInfo}
    {bkt : Byte → Entry} (level : ℕ)
    (h : Represents env ty W view T z (.bucket i bkt) ((bits q.rtrPrefix).take (8 * level))) :
    ∃ d i', mtrieLookupCore (.bucket i bkt) level q = some (takeLeaf d i' q, d) ∧ d ≠ .null ∧
      lpm T z (bits q.rtrPrefix) (bits q.rtrPrefix).length = (i'.entryPrefixLen, view d i') := by
  have hlen : (bits q.rtrPrefix).length = 8 * ipBktGetMaxLevel fam := by
    rw [bits_length, hq.prefix_length]
  have hlev : level ≤ ipBktGetMaxLevel fam := by
    have := h.1
    rw [List.length_take] at this
    omega
  obtain ⟨d, i', hleaf, hd, hm⟩ := h.leafAt hq hW hlev
  have hle := lpm_len_le (T := T) (z := z) (bits q.rtrPrefix) (bits q.rtrPrefix).length
  rw [hm] at hle
  exact ⟨d, i', mtrieLookupCore_leafAt hq hd (by rw [hq.plen, ← hlen]; exact hle) level hleaf, hd, hm⟩

end Vrouter.Mtrie
