import Vrouter.Lib.Lpm
import Vrouter.Mtrie.Model

/-! # The trie represents a prefix table

The abstract object a VRF's trie stands for is a prefix table `T : List Bool → Option δ`, with
the longest-prefix match of `Vrouter.Lib`.  `Represents` relates the two: an entry reached by the
bits `b` is

* a leaf only if no prefix longer than `b` is installed beneath `b`; its prefix length and data
  are then the match of `b`;
* a bucket whose prefix length is the length of the match of `b`, and whose entries represent the
  blocks `b ++ byteBits j`.

The data `δ` that a leaf stands for is read by a function `view`, so that the same invariant
serves for the full result of a lookup and for the parts of it that a deletion restores. -/

namespace Vrouter.Mtrie

open Vrouter.Lib

variable {δ : Type} (env : Env) (ty : LeafType) (W : ℕ) (view : VoidPtr → EntryInfo → δ)
variable (T : List Bool → Option δ) (z : δ)

/-- A pointer that a leaf can hold: writing it to an entry stores that pointer. -/
def Fixed (env : Env) (t : LeafType) (d : VoidPtr) : Prop := setEntryData env t d = d ∧ d ≠ .null

/-- The entry reached by the bits `b` represents the table `T` beneath `b`. -/
def Represents : Entry → List Bool → Prop
  | .leaf t d i, b =>
    t = ty ∧ Fixed env t d ∧ lpm T z b b.length = (i.entryPrefixLen, view d i) ∧
      ∀ x, b <+: x → b.length < x.length → T x = none
  | .bucket i bkt, b =>
    b.length < W ∧ i.entryPrefixLen = (lpm T z b b.length).1 ∧
      ∀ j, Represents (bkt j) (b ++ byteBits j)

variable {env ty W view T z} {b : List Bool} {ent : Entry}

theorem Represents.plen (h : Represents env ty W view T z ent b) :
    ent.info.entryPrefixLen = (lpm T z b b.length).1 := by
  cases ent with
  | leaf t d i => rw [h.2.2.1]; rfl
  | bucket i bkt => exact h.2.1

/-- The representation of a block depends only on the matches of the words of the block and on
which of them are free. -/
theorem Represents.congr {T' : List Bool → Option δ} :
    ∀ {ent : Entry} {b : List Bool}, Represents env ty W view T z ent b →
      (∀ x, b <+: x → lpm T' z x x.length = lpm T z x x.length) →
      (∀ x, b <+: x → b.length < x.length → T x = none → T' x = none) →
      Represents env ty W view T' z ent b
  | .leaf t d i, b, ⟨ht, hd, hm, hx⟩, hl, hn =>
    ⟨ht, hd, by rw [hl b (List.prefix_refl b), hm], fun x h1 h2 => hn x h1 h2 (hx x h1 h2)⟩
  | .bucket i bkt, b, ⟨hW, hi, hb⟩, hl, hn => by
    refine ⟨hW, by rw [hl b (List.prefix_refl b), hi], fun j => (hb j).congr ?_ ?_⟩
    · intro x hx
      exact hl x ((List.prefix_append b _).trans hx)
    · intro x hx hlen
      have := (List.prefix_append b (byteBits j)).length_le
      exact hn x ((List.prefix_append b _).trans hx) (by omega)

/-- A leaf keeps its meaning when it is expanded into a bucket of copies. -/
theorem Represents.bktOf {dataIsNh : Bool} (h : Represents env (leafType dataIsNh) W view T z ent b)
    (j : Byte) :
    Represents env (leafType dataIsNh) W view T z (bktOf env dataIsNh ent j)
      (b ++ byteBits j) := by
  cases ent with
  | bucket i bkt => exact h.2.2 j
  | leaf t d i =>
    obtain ⟨ht, hd, hm, hx⟩ := h
    subst ht
    have hpre : b <+: b ++ byteBits j := List.prefix_append b _
    refine ⟨rfl, by rw [hd.1]; exact hd, ?_, ?_⟩
    · rw [lpm_of_isPrefix hpre (fun x h1 _ h3 => hx x h1 h3), hm, hd.1]
    · intro x h1 h2
      have := hpre.length_le
      exact hx x (hpre.trans h1) (by omega)

/-! ### Blocks -/

theorem block_unique {x : List Bool} {j k : Byte} (hj : b ++ byteBits j <+: x)
    (hk : b ++ byteBits k <+: x) : j = k := by
  have h1 := List.prefix_of_prefix_length_le hj hk (by simp)
  have h2 := h1.eq_of_length (by simp)
  exact byteBits_injective (List.append_cancel_left h2)

/-- A prefix that ends inside the stride after `b` covers a block of `b` iff the first bits of
the block's byte are those of the prefix. -/
theorem prefix_block_iff {y : List Bool} {j : Byte} :
    b ++ y <+: b ++ byteBits j ↔ (byteBits j).take y.length = y := by
  rw [List.prefix_append_right_inj, List.prefix_iff_eq_take, eq_comm]

end Vrouter.Mtrie
