import Mathlib.Data.List.Infix
import Mathlib.Data.List.FinRange
import Mathlib.Data.Nat.Bitwise
import Mathlib.Data.Fintype.BigOperators
import Mathlib.Data.Fintype.EquivFin
import Mathlib.Tactic.Common

/-! # Byte strings as bit strings

An address of a network protocol is a string of bytes, a prefix of it a string of bits.
`byteBits` writes a byte as its eight bits, most significant first, and `bits` a byte string
as the concatenation of those.  Two facts connect the arithmetic on bytes with the prefix
order on bit strings: a byte is determined by its bits (`byteBits_injective`), and the bytes
that share their first `r` bits with a byte are `2 ^ (8 - r)` consecutive ones
(`take_byteBits_eq_iff`). -/

namespace Vrouter.Lib

/-- A byte; addition wraps around as it does for `unsigned char`. -/
abbrev Byte := Fin 256

instance byte_neZero : NeZero 256 := ⟨by decide⟩

theorem byte_sub_val (j i : Byte) : (j - i).val = (256 - i.val + j.val) % 256 := by
  simp [Fin.sub_def]

theorem byte_succ_val (i : Byte) : (i + 1).val = (i.val + 1) % 256 := by
  rw [Fin.val_add]; rfl

theorem byte_sub_self_succ (j : Byte) : (j - (j + 1)).val = 255 := by
  rw [byte_sub_val, byte_succ_val]; omega

theorem byte_sub_succ {i j : Byte} (h : j ≠ i) : (j - i).val = (j - (i + 1)).val + 1 := by
  have : j.val ≠ i.val := fun e => h (Fin.ext e)
  rw [byte_sub_val, byte_sub_val, byte_succ_val]; omega

/-- The bits of a byte, most significant first. -/
def byteBits (b : Byte) : List Bool := (List.range 8).map fun i => b.val.testBit (7 - i)

/-- The bits of a byte string. -/
def bits (s : List Byte) : List Bool := s.flatMap byteBits

@[simp] theorem byteBits_length (b : Byte) : (byteBits b).length = 8 := by simp [byteBits]

@[simp] theorem bits_nil : bits [] = [] := rfl

theorem bits_cons (b : Byte) (s : List Byte) : bits (b :: s) = byteBits b ++ bits s := by
  simp [bits]

theorem bits_append (s t : List Byte) : bits (s ++ t) = bits s ++ bits t := by
  simp [bits]

@[simp] theorem bits_length : ∀ s : List Byte, (bits s).length = 8 * s.length
  | [] => rfl
  | b :: s => by
    rw [bits_cons, List.length_append, byteBits_length, bits_length s, List.length_cons]
    omega

theorem byteBits_getElem (b : Byte) (i : ℕ) (h : i < (byteBits b).length) :
    (byteBits b)[i] = b.val.testBit (7 - i) := by
  simp [byteBits]

/-- Two bytes agree on their first `r` bits iff they agree above the low `8 - r` bits. -/
theorem take_byteBits_eq {r : ℕ} (hr : r ≤ 8) (b c : Byte) :
    (byteBits b).take r = (byteBits c).take r ↔ b.val / 2 ^ (8 - r) = c.val / 2 ^ (8 - r) := by
  rw [← Nat.shiftRight_eq_div_pow, ← Nat.shiftRight_eq_div_pow]
  constructor
  · intro h
    apply Nat.eq_of_testBit_eq
    intro i
    rw [Nat.testBit_shiftRight, Nat.testBit_shiftRight]
    by_cases hi : i < r
    · have hget : ∀ d : Byte, ((byteBits d).take r)[r - 1 - i]? = some (d.val.testBit (8 - r + i)) := by
        intro d
        rw [List.getElem?_take_of_lt (by omega), List.getElem?_eq_getElem (by simp; omega),
          byteBits_getElem]
        congr 2; omega
      have := hget b
      rw [h, hget c] at this
      exact (Option.some.inj this).symm
    · have hbig : ∀ d : Byte, d.val.testBit (8 - r + i) = false := by
        intro d
        apply Nat.testBit_lt_two_pow
        calc d.val < 2 ^ 8 := d.isLt
          _ ≤ 2 ^ (8 - r + i) := Nat.pow_le_pow_right (by omega) (by omega)
      rw [hbig, hbig]
  · intro h
    apply List.ext_getElem (by simp)
    intro i hi _
    simp only [List.length_take, byteBits_length] at hi
    rw [List.getElem_take, List.getElem_take, byteBits_getElem, byteBits_getElem]
    have := congrArg (fun n => n.testBit (7 - i - (8 - r))) h
    simp only [Nat.testBit_shiftRight] at this
    rwa [show 8 - r + (7 - i - (8 - r)) = 7 - i by omega] at this

theorem byteBits_injective : Function.Injective byteBits := by
  intro b c h
  have := (take_byteBits_eq (le_refl 8) b c).mp (by rw [h])
  simpa [Fin.ext_iff] using this

/-- The bytes that agree with `c` on the first `r` bits are consecutive. -/
theorem take_byteBits_eq_iff {r : ℕ} (hr : r ≤ 8) {b c : Byte} :
    (byteBits b).take r = (byteBits c).take r ↔ c.val - c.val % 2 ^ (8 - r) ≤ b.val ∧
      b.val < 2 ^ (8 - r) + (c.val - c.val % 2 ^ (8 - r)) := by
  have hpos : 0 < 2 ^ (8 - r) := Nat.two_pow_pos _
  rw [take_byteBits_eq hr, Nat.div_eq_iff hpos, Nat.div_mul_self_eq_mod_sub_self]
  omega

/-- Cutting a byte string at a byte boundary. -/
theorem bits_take : ∀ (s : List Byte) (n : ℕ), (bits s).take (8 * n) = bits (s.take n)
  | [], n => by simp
  | b :: s, 0 => by simp
  | b :: s, n + 1 => by
    rw [bits_cons, List.take_succ_cons, bits_cons, ← bits_take s n,
      show 8 * (n + 1) = (byteBits b).length + 8 * n by simp; omega, List.take_length_add_append]

/-- One more byte of a byte string, as bits. -/
theorem bits_take_succ (s : List Byte) {n : ℕ} (h : n < s.length) :
    (bits s).take (8 * (n + 1)) = (bits s).take (8 * n) ++ byteBits (s.getD n 0) := by
  rw [bits_take, bits_take, List.take_succ_eq_append_getElem h, bits_append, bits_cons, bits_nil,
    List.append_nil, List.getD_eq_getElem s 0 h]

/-- Cutting a byte string inside its byte `n`. -/
theorem bits_take_add (s : List Byte) {n r : ℕ} (hn : n < s.length) (hr : r ≤ 8) :
    (bits s).take (8 * n + r) = (bits s).take (8 * n) ++ (byteBits (s.getD n 0)).take r := by
  have hlen : ((bits s).take (8 * n)).length = 8 * n := by simp; omega
  have e : (bits s).take (8 * n + r) = ((bits s).take (8 * (n + 1))).take (8 * n + r) := by
    rw [List.take_take, Nat.min_eq_left (by omega)]
  rw [e, bits_take_succ s hn, List.take_append, hlen, List.take_take, Nat.min_eq_right (by omega),
    Nat.add_sub_cancel_left]

/-- Every string of eight bits is a byte. -/
theorem exists_byteBits (y : List Bool) (h : y.length = 8) : ∃ b, byteBits b = y := by
  let f : Byte → List.Vector Bool 8 := fun b => ⟨byteBits b, byteBits_length b⟩
  have hinj : Function.Injective f := by
    intro b c hbc
    exact byteBits_injective (congrArg Subtype.val hbc)
  have hbij := (Fintype.bijective_iff_injective_and_card f).mpr ⟨hinj, by simp⟩
  obtain ⟨b, hb⟩ := hbij.2 ⟨y, h⟩
  exact ⟨b, congrArg Subtype.val hb⟩

end Vrouter.Lib
