import Vrouter.Mtrie.Model

/-! # Masking a prefix

`inet_route_add` clears the bits of a prefix beyond its length before it adds the route.  The
bits of the prefix stay (`maskPrefix_take`), and the byte in which the prefix ends becomes the
first of the block of bytes that the prefix covers (`maskPrefix_masked`). -/

namespace Vrouter.Mtrie

open Vrouter.Lib

theorem zeroFrom_getElem? (k : ℕ) : ∀ (n s : ℕ) (l : List Byte),
    ((List.range' s n).foldl (fun p i => p.set i 0) l)[k]? =
      if s ≤ k ∧ k < s + n then l[k]?.map (fun _ => 0) else l[k]?
  | 0, s, l => by simp
  | n + 1, s, l => by
    rw [List.range'_succ, List.foldl_cons, zeroFrom_getElem? k n (s + 1), List.getElem?_set]
    by_cases hsk : s = k
    · subst hsk
      rw [if_neg (by omega), if_pos (by omega)]
      by_cases hlt : s < l.length
      · simp [hlt]
      · simp [hlt]
    · rw [if_neg hsk]
      by_cases h : s + 1 ≤ k ∧ k < s + 1 + n
      · rw [if_pos h, if_pos (by omega)]
      · rw [if_neg h, if_neg (by omega)]

theorem clearLow_eq : ∀ (k : Fin 9) (b : Byte),
    b.val &&& (0xFF - ((1 <<< k.val) - 1)) = b.val - b.val % 2 ^ k.val := by
  decide +kernel

/-- The byte in which a prefix of length `plen` ends, after masking. -/
def maskByte (plen : ℕ) (b : Byte) : Byte := Fin.ofNat 256 (b.val - b.val % 2 ^ (8 - plen % 8))

theorem maskByte_val (plen : ℕ) (b : Byte) :
    (maskByte plen b).val = b.val - b.val % 2 ^ (8 - plen % 8) := by
  have := b.isLt
  simp only [maskByte, Fin.val_ofNat]
  exact Nat.mod_eq_of_lt (by omega)

variable {pfx : List Byte} (fam : Family) (plen : ℕ) (hlen : pfx.length = rtIpAddrSize fam)
include hlen

theorem maskPrefix_getElem? (k : ℕ) :
    (maskPrefix fam plen pfx)[k]? = pfx[k]?.map fun b =>
      if k < plen / 8 then b else if k = plen / 8 ∧ plen % 8 ≠ 0 then maskByte plen b else 0 := by
  have hbyte : ∀ b : Byte, Fin.ofNat 256 (b.val &&& (0xFF - ((1 <<< (8 - plen % 8)) - 1))) =
      maskByte plen b := by
    intro b
    rw [maskByte, clearLow_eq ⟨8 - plen % 8, by omega⟩ b]
  by_cases hk : k < pfx.length
  · simp only [maskPrefix, zeroFrom_getElem?, hbyte]
    by_cases h0 : plen % 8 = 0
    · simp only [h0, ne_eq, not_true_eq_false, and_false, if_false]
      split_ifs with h1 h2 h2
      · omega
      · rfl
      · simp
      · omega
    · simp only [h0, ne_eq, not_false_eq_true, and_true, if_true, List.getElem?_modify]
      rw [List.getElem?_eq_getElem hk]
      simp only [Option.map_some, Option.map_eq_map]
      split_ifs <;> first | rfl | omega
  · have h1 : pfx[k]? = none := by simp; omega
    have h2 : (maskPrefix fam plen pfx)[k]? = none := by
      simp only [maskPrefix, zeroFrom_getElem?]
      split_ifs <;> simp [List.getElem?_modify, h1]
    rw [h1, h2]; rfl

theorem maskPrefix_length : (maskPrefix fam plen pfx).length = pfx.length := by
  apply le_antisymm
  · rw [← List.getElem?_eq_none_iff, maskPrefix_getElem? fam plen hlen]
    simp
  · by_contra h
    have h1 : (maskPrefix fam plen pfx)[(maskPrefix fam plen pfx).length]? = none := by simp
    rw [maskPrefix_getElem? fam plen hlen] at h1
    simp at h1
    omega

theorem maskPrefix_getD {k : ℕ} (hk : k < pfx.length) :
    (maskPrefix fam plen pfx).getD k 0 = if k < plen / 8 then pfx.getD k 0
      else if k = plen / 8 ∧ plen % 8 ≠ 0 then maskByte plen (pfx.getD k 0) else 0 := by
  rw [List.getD_eq_getElem?_getD, maskPrefix_getElem? fam plen hlen, List.getD_eq_getElem?_getD,
    List.getElem?_eq_getElem hk]
  rfl

theorem maskPrefix_masked (hplen : plen ≤ 8 * rtIpAddrSize fam) {level : ℕ}
    (h1 : 8 * level < plen) (h2 : plen ≤ 8 * (level + 1)) :
    ((maskPrefix fam plen pfx).getD level 0).val % 2 ^ (8 * (level + 1) - plen) = 0 := by
  by_cases h0 : plen % 8 = 0
  · rw [show 8 * (level + 1) - plen = 0 by omega, pow_zero, Nat.mod_one]
  · rw [maskPrefix_getD fam plen hlen (by omega), if_neg (by omega), if_pos (by omega),
      maskByte_val, show 8 * (level + 1) - plen = 8 - plen % 8 by omega]
    exact Nat.sub_mod_eq_zero_of_mod_eq (by simp)

theorem maskPrefix_take (hplen : plen ≤ 8 * rtIpAddrSize fam) :
    (bits (maskPrefix fam plen pfx)).take plen = (bits pfx).take plen := by
  have hmlen := maskPrefix_length fam plen hlen
  have hwhole : (maskPrefix fam plen pfx).take (plen / 8) = pfx.take (plen / 8) := by
    apply List.ext_getElem?
    intro k
    by_cases hk : k < plen / 8
    · rw [List.getElem?_take_of_lt hk, List.getElem?_take_of_lt hk,
        maskPrefix_getElem? fam plen hlen]
      simp [hk]
    · rw [List.getElem?_take, List.getElem?_take, if_neg hk, if_neg hk]
  by_cases h0 : plen % 8 = 0
  · rw [show plen = 8 * (plen / 8) by omega, bits_take, bits_take]
    rw [← show plen = 8 * (plen / 8) by omega, hwhole]
  · have hsplit : plen = 8 * (plen / 8) + plen % 8 := by omega
    have key : (byteBits ((maskPrefix fam plen pfx).getD (plen / 8) 0)).take (plen % 8) =
        (byteBits (pfx.getD (plen / 8) 0)).take (plen % 8) := by
      rw [take_byteBits_eq (by omega), maskPrefix_getD fam plen hlen (by omega),
        if_neg (by omega), if_pos ⟨rfl, h0⟩, maskByte_val]
      generalize (pfx.getD (plen / 8) 0).val = v
      generalize 2 ^ (8 - plen % 8) = m
      rw [Nat.div_eq_sub_mod_div (m := v)]
    have e1 := bits_take_add (maskPrefix fam plen pfx) (n := plen / 8) (r := plen % 8)
      (by omega) (by omega)
    have e2 := bits_take_add pfx (n := plen / 8) (r := plen % 8) (by omega) (by omega)
    rw [← hsplit] at e1 e2
    rw [e1, e2, key, bits_take, bits_take, hwhole]

end Vrouter.Mtrie
