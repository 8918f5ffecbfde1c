import Vrouter.Packet.Headers
import Vrouter.Lib.OnesSum
import Mathlib.Tactic.Ring

/-! # The checksum of an IPv4 header

A translation of the checksum functions of `vr_packet.h` and `vr_proto_ip.c`: the difference that a
changed field makes (`vr_incremental_diff`), the update of the checksum by such a difference
(`vr_ip_incremental_csum`) and the checksum computed anew (`vr_ip_csum`).

The words of a header sum to zero modulo `2 ^ 16 - 1` iff the checksum in it is the computed one,
up to the two representations of zero (`headerSum_eq_zero_iff`).  An update takes the difference
off the sum (`headerSum_vrIpIncrementalCsum`), so it makes good for a field that was changed by
that difference. -/

namespace Vrouter.Packet

open Vrouter.Lib

/-! ### The functions -/

/-- `~w & 0xffff` -/
def not16 (w : ℕ) : ℕ := 65535 - w % 2 ^ 16

/-- `vr_incremental_diff`: the new value of `*diff`. -/
def vrIncrementalDiff (oldval newval diff : ℕ) : ℕ :=
  addCarry diff (addCarry (2 ^ 32 - 1 - oldval) newval)

def vrIpIncrementalCsum (ip : List Byte) (diff : ℕ) : List Byte :=
  set16 ip 10 (not16 (fold16 (not16 (ipCsum ip) + fold16 diff)))

/-- The loop of `vr_ip_csum`; an odd byte is the low part of a word. -/
def vrIpCsumLoop : List Byte → ℕ → ℕ → ℕ
  | w, nleft + 2, sum => vrIpCsumLoop (w.drop 2) nleft (sum + le16 w 0)
  | w, 1, sum => sum + u8 w 0
  | _, 0, sum => sum

/-- `vr_ip_csum`; the field itself counts as zero. -/
def vrIpCsum (ip : List Byte) : ℕ :=
  let sum := vrIpCsumLoop (set16 ip 10 0) (ipHl ip * 4) 0
  let sum := sum / 2 ^ 16 + sum % 2 ^ 16
  let sum := sum + sum / 2 ^ 16
  not16 sum

/-! ### Their meaning -/

theorem not16_lt (w : ℕ) : not16 w < 2 ^ 16 := by
  unfold not16
  omega

theorem not16_cast {w : ℕ} (h : w < 2 ^ 16) : (not16 w : ZMod 65535) = -(w : ZMod 65535) := by
  rw [not16, Nat.mod_eq_of_lt h, cast_compl h]

theorem vrIncrementalDiff_lt (oldval newval diff : ℕ) :
    vrIncrementalDiff oldval newval diff < 2 ^ 32 := addCarry_lt _ _

theorem vrIncrementalDiff_cast {oldval newval diff : ℕ} (hold : oldval < 2 ^ 32)
    (hnew : newval < 2 ^ 32) (hdiff : diff < 2 ^ 32) :
    (vrIncrementalDiff oldval newval diff : ZMod 65535) = diff + newval - oldval := by
  have hcompl : ((2 ^ 32 - 1 - oldval : ℕ) : ZMod 65535) = -(oldval : ZMod 65535) := by
    have hsum : ((2 ^ 32 - 1 - oldval + oldval + 1 : ℕ) : ZMod 65535) = 1 := by
      rw [show 2 ^ 32 - 1 - oldval + oldval + 1 = 2 ^ 32 by omega]
      exact carry32
    push_cast at hsum ⊢
    linear_combination hsum
  rw [vrIncrementalDiff, addCarry_cast hdiff (addCarry_lt _ _), addCarry_cast (by omega) hnew,
    hcompl]
  ring

/-- Nothing is added for a field only if it had all bits set before and has none now. -/
theorem vrIncrementalDiff_eq_zero {oldval newval diff : ℕ} (hold : oldval < 2 ^ 32)
    (hnew : newval < 2 ^ 32) (hdiff : diff < 2 ^ 32) :
    vrIncrementalDiff oldval newval diff = 0 ↔ diff = 0 ∧ oldval = 2 ^ 32 - 1 ∧ newval = 0 := by
  have hzero : ∀ a b : ℕ, a < 2 ^ 32 → b < 2 ^ 32 → (addCarry a b = 0 ↔ a = 0 ∧ b = 0) := by
    intro a b ha hb
    unfold addCarry
    dsimp only
    split_ifs <;> omega
  rw [vrIncrementalDiff, hzero _ _ hdiff (addCarry_lt _ _), hzero _ _ (by omega) hnew]
  omega

theorem vrIpCsumLoop_eq : ∀ (n : ℕ) (w : List Byte) (sum : ℕ),
    vrIpCsumLoop w (2 * n) sum = sum + wordSum (w.take (2 * n))
  | 0, w, sum => by simp [vrIpCsumLoop, wordSum, wordSumFrom]
  | n + 1, w, sum => by
    rw [Nat.mul_succ, vrIpCsumLoop, vrIpCsumLoop_eq n, wordSum_take_add_two, Nat.add_assoc]

/-- The sum of the words of a header. -/
def headerSum (ip : List Byte) : ℕ := wordSum (ip.take (ipHl ip * 4))

/-- The header has its fixed fields, and is all there. -/
structure HeaderFits (ip : List Byte) : Prop where
  five_le : 5 ≤ ipHl ip
  le_length : ipHl ip * 4 ≤ ip.length

/-- The checksum in the header is the computed one, up to the two representations of zero. -/
def HeaderVerifies (ip : List Byte) : Prop :=
  ipCsum ip = vrIpCsum ip ∨ (ipCsum ip = 0 ∧ vrIpCsum ip = 65535) ∨
    (ipCsum ip = 65535 ∧ vrIpCsum ip = 0)

theorem ipCsum_lt (ip : List Byte) : ipCsum ip < 2 ^ 16 := le16_lt ip 10

theorem vrIpCsum_lt (ip : List Byte) : vrIpCsum ip < 2 ^ 16 := not16_lt _

theorem ipHl_lt (ip : List Byte) : ipHl ip < 16 := Nat.mod_lt _ (by decide)

theorem wordSumFrom_le : ∀ (b : List Byte) (i : ℕ), wordSumFrom i b ≤ 65280 * b.length
  | [], _ => Nat.zero_le _
  | x :: b, i => by
    have ih := wordSumFrom_le b (i + 1)
    have hx := x.isLt
    have hw : weight i * x.val ≤ 256 * 255 :=
      Nat.mul_le_mul (by unfold weight; split_ifs <;> omega) (by omega)
    rw [wordSumFrom, List.length_cons]
    omega

variable {ip : List Byte}

theorem headerSum_set16 (h : HeaderFits ip) {i w : ℕ} (heven : i % 2 = 0) (hpos : 0 < i)
    (hi : i + 1 < ipHl ip * 4) (hw : w < 2 ^ 16) :
    headerSum (set16 ip i w) + le16 ip i = headerSum ip + w := by
  have hhl : ipHl (set16 ip i w) = ipHl ip := by
    rw [ipHl, ipHl, u8_set16_of_ne (by omega)]
  have hlen : (ip.take (ipHl ip * 4)).length = ipHl ip * 4 := by
    rw [List.length_take, Nat.min_eq_left h.le_length]
  rw [headerSum, headerSum, hhl, take_set16, ← le16_take hi]
  exact wordSum_set16 heven (by omega) hw

theorem vrIpCsum_cast (h : HeaderFits ip) :
    (vrIpCsum ip : ZMod 65535) = ipCsum ip - headerSum ip := by
  have hset := headerSum_set16 h (i := 10) (w := 0) rfl (by decide)
    (by have := h.five_le; omega) (by decide)
  have hhl : ipHl (set16 ip 10 0) = ipHl ip := by
    rw [ipHl, ipHl, u8_set16_of_ne (by decide)]
  have hloop : vrIpCsumLoop (set16 ip 10 0) (ipHl ip * 4) 0 = headerSum (set16 ip 10 0) := by
    rw [show ipHl ip * 4 = 2 * (2 * ipHl ip) by omega, vrIpCsumLoop_eq, Nat.zero_add, headerSum, hhl,
      show ipHl ip * 4 = 2 * (2 * ipHl ip) by omega]
  -- sixty bytes do not overflow
  have hbound : headerSum (set16 ip 10 0) < 2 ^ 22 := by
    have hle := wordSumFrom_le ((set16 ip 10 0).take (ipHl ip * 4)) 0
    have hhl' := ipHl_lt ip
    rw [List.length_take] at hle
    rw [headerSum, hhl, wordSum]
    omega
  have hfold : (vrIpCsum ip : ZMod 65535) = -(headerSum (set16 ip 10 0) : ZMod 65535) := by
    simp only [vrIpCsum, hloop]
    generalize headerSum (set16 ip 10 0) = s at hbound
    have hsum : ((s / 2 ^ 16 + s % 2 ^ 16 + (s / 2 ^ 16 + s % 2 ^ 16) / 2 ^ 16) % 2 ^ 16 : ℕ) =
        fold16 s := by
      have ht : s / 2 ^ 16 + s % 2 ^ 16 < 2 ^ 16 + 64 := by omega
      unfold fold16
      dsimp only
      generalize s / 2 ^ 16 + s % 2 ^ 16 = t at ht
      split_ifs with hc
      · omega
      · omega
    have hlt := fold16_lt (x := s) (by omega)
    rw [not16, hsum, cast_compl hlt, fold16_cast (by omega)]
  have hcast := congrArg (Nat.cast : ℕ → ZMod 65535) hset
  rw [Nat.cast_add, Nat.cast_add, Nat.cast_zero] at hcast
  rw [hfold, ipCsum]
  linear_combination -hcast

/-- **A header verifies iff its words sum to zero.** -/
theorem headerVerifies_iff (h : HeaderFits ip) :
    HeaderVerifies ip ↔ (headerSum ip : ZMod 65535) = 0 := by
  have hcast := vrIpCsum_cast h
  rw [HeaderVerifies, ← cast_eq_iff (ipCsum_lt ip) (vrIpCsum_lt ip), hcast]
  constructor
  · intro heq
    linear_combination heq
  · intro hsum
    rw [hsum, sub_zero]

theorem HeaderFits.of_ipHl {ip' : List Byte} (h : HeaderFits ip) (hhl : ipHl ip' = ipHl ip)
    (hlen : ip'.length = ip.length) : HeaderFits ip' :=
  ⟨hhl ▸ h.five_le, hhl ▸ hlen ▸ h.le_length⟩

theorem ipHl_vrIpIncrementalCsum (ip : List Byte) (diff : ℕ) :
    ipHl (vrIpIncrementalCsum ip diff) = ipHl ip := by
  rw [ipHl, ipHl, vrIpIncrementalCsum, u8_set16_of_ne (by decide)]

/-- **An update takes the difference off the sum.** -/
theorem headerSum_vrIpIncrementalCsum (h : HeaderFits ip) {diff : ℕ} (hdiff : diff < 2 ^ 32) :
    (headerSum (vrIpIncrementalCsum ip diff) : ZMod 65535) = headerSum ip - diff := by
  have hset := headerSum_set16 h (i := 10)
    (w := not16 (fold16 (not16 (ipCsum ip) + fold16 diff))) rfl (by decide)
    (by have := h.five_le; omega) (not16_lt _)
  have hlt := fold16_lt hdiff
  have hnot := not16_lt (ipCsum ip)
  have hcast := congrArg (Nat.cast : ℕ → ZMod 65535) hset
  rw [Nat.cast_add, Nat.cast_add, not16_cast (fold16_lt (by omega)), fold16_cast (by omega),
    Nat.cast_add, not16_cast (ipCsum_lt ip), fold16_cast hdiff] at hcast
  rw [vrIpIncrementalCsum]
  rw [ipCsum] at hcast ⊢
  linear_combination hcast

end Vrouter.Packet
