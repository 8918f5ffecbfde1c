import Vrouter.Lib.Words
import Mathlib.Data.ZMod.Basic
import Mathlib.Tactic.LinearCombination

/-! # Sums in one's complement

The sum of the sixteen-bit words of a byte string, with the carries added back in, is a number
modulo `2 ^ 16 - 1`; `wordSum` is the plain sum and `ZMod 65535` the place where it is compared.  A
checksum is valid when the words that it covers, with the checksum itself, sum to zero there.

Additions with an end-around carry (`addCarry`), folds of a double word into a word (`fold16`) and
complements are operations of `ZMod 65535`; and writing to a byte string changes its sum by what is
written less what was there (`wordSum_set16`, `wordSum_setBytes`). -/

namespace Vrouter.Lib

/-! ### The sum of words -/

/-- What a byte counts at an offset: it is the low or the high part of its word. -/
def weight (i : ℕ) : ℕ := if i % 2 = 0 then 1 else 256

/-- The sum of the words of a byte string that starts at an offset. -/
def wordSumFrom (i : ℕ) : List Byte → ℕ
  | [] => 0
  | x :: xs => weight i * x.val + wordSumFrom (i + 1) xs

/-- The sum of the words of a byte string; an odd byte at the end is the low part of a word. -/
def wordSum (b : List Byte) : ℕ := wordSumFrom 0 b

variable {i k w a b x : ℕ}

theorem weight_add_even (h : i % 2 = 0) : weight (i + k) = weight k := by
  unfold weight
  rw [show (i + k) % 2 = k % 2 by omega]

theorem wordSumFrom_add_even (h : i % 2 = 0) : ∀ (k : ℕ) (b : List Byte),
    wordSumFrom (i + k) b = wordSumFrom k b
  | _, [] => rfl
  | k, x :: xs => by
    rw [wordSumFrom, wordSumFrom, weight_add_even h, Nat.add_assoc, wordSumFrom_add_even h]

theorem wordSumFrom_even (h : i % 2 = 0) (b : List Byte) : wordSumFrom i b = wordSum b :=
  wordSumFrom_add_even h 0 b

theorem wordSumFrom_append (a b : List Byte) (i : ℕ) :
    wordSumFrom i (a ++ b) = wordSumFrom i a + wordSumFrom (i + a.length) b := by
  induction a generalizing i with
  | nil => simp [wordSumFrom]
  | cons x a ih =>
    rw [List.cons_append, wordSumFrom, ih, wordSumFrom, List.length_cons, Nat.add_assoc i,
      Nat.add_comm 1, Nat.add_assoc]

theorem wordSum_append {a : List Byte} (h : a.length % 2 = 0) (b : List Byte) :
    wordSum (a ++ b) = wordSum a + wordSum b := by
  rw [wordSum, wordSumFrom_append, Nat.zero_add, wordSumFrom_even h]
  rfl

/-- The sum after one byte was changed. -/
theorem wordSumFrom_set : ∀ (b : List Byte) (i j : ℕ) (x : Byte), j < b.length →
    wordSumFrom i (b.set j x) + weight (i + j) * u8 b j = wordSumFrom i b + weight (i + j) * x.val
  | y :: b, i, 0, x, _ => by
    simp only [List.set_cons_zero, wordSumFrom, u8, List.getD_cons_zero, Nat.add_zero]
    omega
  | y :: b, i, j + 1, x, h => by
    have ih := wordSumFrom_set b (i + 1) j x (by simpa using h)
    rw [Nat.add_assoc i 1 j, Nat.add_comm 1 j] at ih
    simp only [List.set_cons_succ, wordSumFrom, u8, List.getD_cons_succ] at ih ⊢
    omega

/-- The sum after one word was changed. -/
theorem wordSum_set16 {b : List Byte} (heven : i % 2 = 0) (hi : i + 1 < b.length)
    (hw : w < 2 ^ 16) : wordSum (set16 b i w) + le16 b i = wordSum b + w := by
  have hlow := wordSumFrom_set b 0 i (Fin.ofNat 256 w) (by omega)
  have hhigh := wordSumFrom_set (b.set i (Fin.ofNat 256 w)) 0 (i + 1) (Fin.ofNat 256 (w / 256))
    (by simpa using hi)
  have hwi : weight (0 + i) = 1 := if_pos (by omega)
  have hwi' : weight (0 + (i + 1)) = 256 := if_neg (by omega)
  rw [u8_set_ne (by omega), hwi', Fin.val_ofNat] at hhigh
  rw [hwi, Fin.val_ofNat] at hlow
  unfold set16 le16 wordSum
  omega

/-- The sum after a word was changed that stands across two: it counts in the other order. -/
theorem wordSum_set16_odd {b : List Byte} (hodd : i % 2 = 1) (hi : i + 1 < b.length)
    (hw : w < 2 ^ 16) : wordSum (set16 b i (swap16 w)) + be16 b i = wordSum b + w := by
  have hhigh := wordSumFrom_set b 0 i (Fin.ofNat 256 (swap16 w)) (by omega)
  have hlow := wordSumFrom_set (b.set i (Fin.ofNat 256 (swap16 w))) 0 (i + 1)
    (Fin.ofNat 256 (swap16 w / 256)) (by simpa using hi)
  have hwi : weight (0 + i) = 256 := if_neg (by omega)
  have hwi' : weight (0 + (i + 1)) = 1 := if_pos (by omega)
  rw [u8_set_ne (by omega), hwi', Fin.val_ofNat] at hlow
  rw [hwi, Fin.val_ofNat] at hhigh
  have hfirst : swap16 w % 256 = w / 256 := by
    unfold swap16
    omega
  have hsecond : swap16 w / 256 = w % 256 := by
    unfold swap16
    omega
  unfold set16 be16 wordSum
  omega

/-- The sum over a slice is that of its parts. -/
theorem wordSum_slice_add (b : List Byte) {m n : ℕ} (hm : m % 2 = 0) (h : i + m ≤ b.length) :
    wordSum (slice b i (m + n)) = wordSum (slice b i m) + wordSum (slice b (i + m) n) := by
  rw [← wordSum_append (by rw [slice_length h, hm])]
  simp only [slice, List.take_add, List.drop_drop]

/-- The sum over a slice after a write inside it. -/
theorem wordSum_slice_of_sameOutside {b c : List Byte} {m n : ℕ}
    (h : SameOutside (i + m) (i + m + k) b c) (hm : m % 2 = 0) (hk : k % 2 = 0)
    (hlen : i + m + k ≤ b.length) :
    wordSum (slice c i (m + k + n)) + wordSum (slice b (i + m) k) =
      wordSum (slice b i (m + k + n)) + wordSum (slice c (i + m) k) := by
  have hlen' : i + m + k ≤ c.length := by rw [h.length]; exact hlen
  rw [wordSum_slice_add c (by omega) (by omega), wordSum_slice_add b (by omega) (by omega),
    wordSum_slice_add c hm (by omega), wordSum_slice_add b hm (by omega),
    h.slice (Or.inl (le_refl _)), ← Nat.add_assoc i m k, h.slice (Or.inr (le_refl _))]
  omega

/-! ### Words modulo `2 ^ 16 - 1` -/

theorem carry16 : ((65536 : ℕ) : ZMod 65535) = 1 := by
  have h : ((65535 : ℕ) : ZMod 65535) = 0 := ZMod.natCast_self 65535
  rw [show (65536 : ℕ) = 65535 + 1 from rfl, Nat.cast_add, h, zero_add, Nat.cast_one]

theorem carry32 : ((2 ^ 32 : ℕ) : ZMod 65535) = 1 := by
  rw [show (2 ^ 32 : ℕ) = 65536 * 65536 from rfl, Nat.cast_mul, carry16, one_mul]

/-- Numbers that differ by a multiple of `2 ^ 16 - 1` are the same. -/
theorem cast_eq_of_add {l : ℕ} (h : a + 65535 * k = b + 65535 * l) :
    (a : ZMod 65535) = (b : ZMod 65535) := by
  have h0 : ((65535 : ℕ) : ZMod 65535) = 0 := ZMod.natCast_self 65535
  have hcast := congrArg (Nat.cast : ℕ → ZMod 65535) h
  rwa [Nat.cast_add, Nat.cast_add, Nat.cast_mul, Nat.cast_mul, h0, zero_mul, zero_mul, add_zero,
    add_zero] at hcast

/-- Two words are the same up to the two representations of zero. -/
theorem cast_eq_iff (ha : a < 2 ^ 16) (hb : b < 2 ^ 16) :
    (a : ZMod 65535) = (b : ZMod 65535) ↔
      a = b ∨ (a = 0 ∧ b = 65535) ∨ (a = 65535 ∧ b = 0) := by
  rw [ZMod.natCast_eq_natCast_iff']
  omega

/-- The first word of a byte string, and the others; the bytes that are missing read as zero. -/
theorem wordSum_take_add_two (w : List Byte) (n : ℕ) :
    wordSum (w.take (2 * n + 2)) = le16 w 0 + wordSum ((w.drop 2).take (2 * n)) := by
  rcases w with - | ⟨x, - | ⟨y, w⟩⟩
  · simp [wordSum, wordSumFrom, le16, u8]
  · simp [wordSum, wordSumFrom, weight, le16, u8]
  · rw [List.take_succ_cons, List.take_succ_cons, wordSum, wordSumFrom, wordSumFrom,
      wordSumFrom_even rfl]
    change 1 * x.val + (256 * y.val + _) = x.val + 256 * y.val + _
    rw [List.drop_succ_cons, List.drop_succ_cons, List.drop_zero]
    omega

theorem wordSum_slice_two (b : List Byte) (i : ℕ) : wordSum (slice b i 2) = le16 b i := by
  rw [slice, wordSum_take_add_two _ 0, le16_drop]
  rfl

theorem wordSum_slice_four (b : List Byte) (i : ℕ) :
    wordSum (slice b i 4) = le16 b i + le16 b (i + 2) := by
  rw [slice, wordSum_take_add_two _ 1, le16_drop, List.drop_drop, ← wordSum_slice_two b (i + 2)]
  rfl

/-- A double word counts as its two words. -/
theorem le32_cast (b : List Byte) (i : ℕ) :
    (le32 b i : ZMod 65535) = (wordSum (slice b i 4) : ZMod 65535) := by
  rw [wordSum_slice_four, le32, Nat.cast_add, Nat.cast_mul, carry16, one_mul, Nat.cast_add]

theorem cast_compl (h : w < 2 ^ 16) : ((65535 - w : ℕ) : ZMod 65535) = -(w : ZMod 65535) := by
  rw [Nat.cast_sub (by omega), ZMod.natCast_self, zero_sub]

/-- A swap of bytes multiplies by 256. -/
theorem swap16_cast (h : w < 2 ^ 16) : (swap16 w : ZMod 65535) = 256 * (w : ZMod 65535) := by
  have hsum : swap16 w + 65535 * (w / 256) = 256 * w + 65535 * 0 := by
    unfold swap16
    omega
  have hcast := cast_eq_of_add hsum
  rw [hcast]
  push_cast
  rfl

theorem swap_twice (x : ZMod 65535) : 256 * (256 * x) = x := by
  have h : (256 * 256 : ZMod 65535) = 1 := by decide
  linear_combination x * h

/-- Two words are added, and the carry to them. -/
def addCarry (a b : ℕ) : ℕ :=
  let sum := (a + b) % 2 ^ 32
  if sum < b then (sum + 1) % 2 ^ 32 else sum

theorem addCarry_lt (a b : ℕ) : addCarry a b < 2 ^ 32 := by
  unfold addCarry
  dsimp only
  split_ifs
  · exact Nat.mod_lt _ (by decide)
  · exact Nat.mod_lt _ (by decide)

theorem addCarry_cast (ha : a < 2 ^ 32) (hb : b < 2 ^ 32) :
    (addCarry a b : ZMod 65535) = a + b := by
  rw [← Nat.cast_add]
  unfold addCarry
  dsimp only
  split_ifs with h
  · exact cast_eq_of_add (k := 65537) (l := 0) (by omega)
  · exact cast_eq_of_add (k := 0) (l := 0) (by omega)

/-- A double word is folded into a word. -/
def fold16 (x : ℕ) : ℕ :=
  let x := x / 2 ^ 16 + x % 2 ^ 16
  if x / 2 ^ 16 ≠ 0 then x % 2 ^ 16 + 1 else x

theorem fold16_lt (h : x < 2 ^ 32) : fold16 x < 2 ^ 16 := by
  unfold fold16
  dsimp only
  split_ifs
  · omega
  · omega

theorem fold16_cast (h : x < 2 ^ 32) : (fold16 x : ZMod 65535) = x := by
  unfold fold16
  dsimp only
  split_ifs
  · exact cast_eq_of_add (k := x / 2 ^ 16 + 1) (l := 0) (by omega)
  · exact cast_eq_of_add (k := x / 2 ^ 16) (l := 0) (by omega)

/-- A fold is zero for zero only. -/
theorem fold16_eq_zero : fold16 x = 0 ↔ x = 0 := by
  unfold fold16
  dsimp only
  split_ifs with h
  · refine iff_of_false not_false ?_
    rintro rfl
    exact h rfl
  · omega

theorem fold16_of_lt (h : x < 2 ^ 16) : fold16 x = x := by
  unfold fold16
  dsimp only
  split_ifs <;> omega

/-- Every other multiple of `65535` is folded into all ones. -/
theorem fold16_eq_ones (h : x < 2 ^ 32) : fold16 x = 65535 ↔ x ≠ 0 ∧ (x : ZMod 65535) = 0 := by
  have hlt := fold16_lt h
  have hne := fold16_eq_zero (x := x)
  rw [← fold16_cast h, ZMod.natCast_eq_zero_iff]
  omega

/-- The value of a sum in one's complement: a sum that is not zero is one of `1` to `65535`. -/
def onesSum (x : ℕ) : ℕ := if x = 0 then 0 else (x - 1) % 65535 + 1

theorem onesSum_lt (x : ℕ) : onesSum x < 2 ^ 16 := by
  unfold onesSum
  split_ifs <;> omega

theorem onesSum_of_lt (h : x < 2 ^ 16) : onesSum x = x := by
  unfold onesSum
  split_ifs <;> omega

/-- The carries may be added back in. -/
theorem onesSum_carry (x : ℕ) : onesSum (x / 2 ^ 16 + x % 2 ^ 16) = onesSum x := by
  unfold onesSum
  split_ifs <;> omega

theorem onesSum_add (a b : ℕ) : onesSum (onesSum a + onesSum b) = onesSum (a + b) := by
  unfold onesSum
  split_ifs <;> omega

theorem onesSum_cast (x : ℕ) : (onesSum x : ZMod 65535) = x := by
  unfold onesSum
  split_ifs with h
  · rw [h]
  · exact cast_eq_of_add (k := (x - 1) / 65535) (l := 0) (by omega)

end Vrouter.Lib
