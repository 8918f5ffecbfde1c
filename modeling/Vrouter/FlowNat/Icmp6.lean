import Vrouter.FlowNat.Model

/-! # The checksum of ICMPv6

`vr_icmp6_checksum` sums the pseudo-header and the message, and then the two sums.  Its complement is the
checksum of RFC 4443 (`icmp6Checksum_exact`), except that `vr_sum` takes the byte behind an odd message
for a part of it (`icmp6Checksum_odd`).  The sums are those of the host's words, as sums in one's
complement may be. -/

namespace Vrouter.FlowNat

open Vrouter.Lib Vrouter.Packet

/-- The sum over the pseudo-header and over the message, whose checksum counts as zero. -/
def rfc4443Sum (ip6 message : List Byte) : ℕ :=
  wordSum (ip6Src ip6 ++ ip6Dst ip6 ++ (beBytes32 message.length ++ [0, 0, 0, 58] ++
    set16 message 2 0))

/-- The checksum of RFC 4443: the complement of the sum. -/
def rfc4443Checksum (ip6 message : List Byte) : ℕ := not16 (onesSum (rfc4443Sum ip6 message))

/-- The message that the header announces is there. -/
structure Icmp6At (ip6 icmph : List Byte) : Prop where
  header : 40 ≤ ip6.length
  nxt : ip6Nxt ip6 = vrIpProtoIcmp6
  inside : ntohs (ip6Plen ip6) ≤ icmph.length

/-- The byte behind the message, once the checksum field is cleared. -/
def byteBehind (ip6 icmph : List Byte) : ℕ := u8 (set16 icmph 2 0) (ntohs (ip6Plen ip6))

variable {ip6 icmph buf : List Byte} {n : ℕ}

/-! ### The sums -/

theorem vrSumLoop_eq : ∀ (n : ℕ) (ptr : List Byte) (total : ℕ),
    vrSumLoop ptr n total = total + wordSum (ptr.take (2 * n))
  | 0, ptr, total => by simp [vrSumLoop, wordSum, wordSumFrom]
  | n + 1, ptr, total => by
    rw [Nat.mul_succ, vrSumLoop, vrSumLoop_eq n, wordSum_take_add_two, Nat.add_assoc]

theorem foldLoop_eq (total : ℕ) : foldLoop total = onesSum total := by
  induction total using foldLoop.induct with
  | case1 total h =>
    rw [foldLoop, if_pos h, onesSum_of_lt (by omega)]
  | case2 total h ih =>
    rw [foldLoop, if_neg h, ih, onesSum_carry]

/-- `vr_sum` sums words, so the length is rounded up. -/
theorem vrSum_eq (buf : List Byte) (length : ℕ) :
    vrSum buf length = onesSum (wordSum (buf.take (2 * ((length + 1) / 2)))) := by
  rw [vrSum, foldLoop_eq, vrSumLoop_eq, Nat.zero_add]

theorem vrSum_lt (buf : List Byte) (length : ℕ) : vrSum buf length < 2 ^ 16 :=
  vrSum_eq buf length ▸ onesSum_lt _

theorem wordSum_leBytes {a b : ℕ} (ha : a < 2 ^ 16) (hb : b < 2 ^ 16) :
    wordSum ((leBytes a ++ leBytes b).take 4) = a + b := by
  simp only [leBytes, List.cons_append, List.nil_append, List.take_succ_cons, List.take_zero,
    wordSum, wordSumFrom, weight, Fin.val_ofNat]
  norm_num
  omega

theorem wordSum_addrs (h : 40 ≤ ip6.length) (t : List Byte) :
    wordSum (ip6Src ip6 ++ ip6Dst ip6 ++ t) = wordSum (slice ip6 8 32) + wordSum t := by
  have haddrs : ip6Src ip6 ++ ip6Dst ip6 = slice ip6 8 32 := by
    simp only [ip6Src, ip6Dst, slice, show 32 = 16 + 16 from rfl, List.take_add, List.drop_drop]
  rw [haddrs, wordSum_append (by rw [slice_length (by omega)])]

theorem wordSum_ip6Pseudo (h : 40 ≤ ip6.length) : wordSum ((ip6Pseudo ip6).take 40) =
    wordSum (slice ip6 8 32) + (ip6Plen ip6 + 256 * ip6Nxt ip6) := by
  have hnxt : ip6Nxt ip6 < 256 := u8_lt ip6 6
  have hlast : wordSum [0, 0, 0, 0, 0, (Fin.ofNat 256 (ip6Nxt ip6) : Byte)] = 256 * ip6Nxt ip6 := by
    simp only [wordSum, wordSumFrom, weight, Fin.val_ofNat]
    norm_num
    omega
  rw [List.take_of_length_le ?_, ip6Pseudo, List.append_assoc, List.append_assoc, wordSum_addrs h,
    wordSum_append (by rw [slice_length (by omega)]), wordSum_slice_two, ← hlast]
  · rfl
  · simp [ip6Pseudo, ip6Src, ip6Dst, slice]
    omega

theorem wordSum_take_succ : wordSum (buf.take (n + 1)) = wordSum (buf.take n) + weight n * u8 buf n := by
  rw [List.take_add_one, wordSum, wordSumFrom_append, u8, List.getD_eq_getElem?_getD]
  cases hn : buf[n]? with
  | none => rfl
  | some x =>
    have hlt : n < buf.length := (List.getElem?_eq_some_iff.mp hn).1
    rw [Nat.zero_add, List.length_take, Nat.min_eq_left hlt.le]
    rfl

/-- What `vr_sum` adds to the sum of the message: the byte behind one with an odd number of bytes. -/
def extraSum (ip6 icmph : List Byte) : ℕ :=
  if ntohs (ip6Plen ip6) % 2 = 0 then 0 else 256 * byteBehind ip6 icmph

theorem message_sum (ip6 icmph : List Byte) :
    wordSum ((set16 icmph 2 0).take (2 * ((ntohs (ip6Plen ip6) + 1) / 2))) =
      wordSum (set16 (icmph.take (ntohs (ip6Plen ip6))) 2 0) + extraSum ip6 icmph := by
  unfold extraSum byteBehind
  generalize ntohs (ip6Plen ip6) = plen
  have htake : set16 (icmph.take plen) 2 0 = (set16 icmph 2 0).take plen := by
    unfold set16
    rw [List.take_set, List.take_set]
  rw [htake]
  split_ifs with heven
  · rw [show 2 * ((plen + 1) / 2) = plen by omega, Nat.add_zero]
  · rw [show 2 * ((plen + 1) / 2) = plen + 1 by omega, wordSum_take_succ, weight, if_neg heven]

/-- The length and the protocol count the same where the pseudo-header of the RFC has them. -/
theorem wordSum_length (h : n < 2 ^ 16) :
    wordSum (beBytes32 n ++ [0, 0, 0, 58]) = swap16 n + 256 * 58 := by
  simp only [beBytes32, swap16, List.cons_append, List.nil_append, wordSum, wordSumFrom, weight,
    Fin.val_ofNat]
  norm_num
  omega

theorem Icmp6At.checksum_eq (h : Icmp6At ip6 icmph) : vrIcmp6Checksum ip6 icmph =
    onesSum (rfc4443Sum ip6 (icmph.take (ntohs (ip6Plen ip6))) + extraSum ip6 icmph) := by
  have hsum : vrIcmp6Checksum ip6 icmph =
      onesSum (vrSum (ip6Pseudo ip6) 40 + vrSum (set16 icmph 2 0) (ntohs (ip6Plen ip6))) :=
    (vrSum_eq _ 4).trans (congrArg onesSum (wordSum_leBytes (vrSum_lt _ _) (vrSum_lt _ _)))
  have hplen : swap16 (ntohs (ip6Plen ip6)) = ip6Plen ip6 := swap16_swap16 (le16_lt ip6 4)
  have hlen := wordSum_length (n := ntohs (ip6Plen ip6)) (swap16_lt _)
  rw [hplen] at hlen
  rw [hsum, vrSum_eq, vrSum_eq, onesSum_add, message_sum, wordSum_ip6Pseudo h.header, h.nxt,
    rfc4443Sum, wordSum_addrs h.header, wordSum_append (by simp), List.length_take,
    Nat.min_eq_left h.inside, hlen, vrIpProtoIcmp6]
  congr 1
  omega

/-- The sum has at least the next header in it. -/
theorem Icmp6At.sum_pos (h : Icmp6At ip6 icmph) :
    0 < rfc4443Sum ip6 (icmph.take (ntohs (ip6Plen ip6))) := by
  have hlen := wordSum_length (n := ntohs (ip6Plen ip6)) (swap16_lt _)
  rw [rfc4443Sum, wordSum_addrs h.header, wordSum_append (by simp), List.length_take,
    Nat.min_eq_left h.inside, hlen]
  omega

theorem u8_set16_succ_zero (b : List Byte) (i : ℕ) : u8 (set16 b i 0) (i + 1) = 0 := by
  unfold set16
  by_cases hlt : i + 1 < (b.set i (Fin.ofNat 256 0)).length
  · exact u8_set_self hlt _
  · rw [u8, List.getD_eq_default _ _ (by simpa using Nat.le_of_not_lt hlt)]
    rfl

theorem byteBehind_lt (ip6 icmph : List Byte) : byteBehind ip6 icmph < 256 := u8_lt _ _

/-- A sum in one's complement tells the extra byte: it is too small to come around. -/
theorem onesSum_extra_iff {x b : ℕ} (hx : 0 < x) (hb : b < 256) :
    not16 (onesSum (x + 256 * b)) = not16 (onesSum x) ↔ b = 0 := by
  have h₁ := onesSum_lt (x + 256 * b)
  have h₂ := onesSum_lt x
  constructor
  · intro h
    have hsame : onesSum (x + 256 * b) = onesSum x := by
      unfold not16 at h
      omega
    unfold onesSum at hsame
    rw [if_neg (by omega), if_neg (by omega)] at hsame
    omega
  · rintro rfl
    rfl

theorem Icmp6At.checksum_iff (h : Icmp6At ip6 icmph) :
    not16 (vrIcmp6Checksum ip6 icmph) = rfc4443Checksum ip6 (icmph.take (ntohs (ip6Plen ip6))) ↔
      ntohs (ip6Plen ip6) % 2 = 0 ∨ byteBehind ip6 icmph = 0 := by
  rw [h.checksum_eq, rfc4443Checksum, extraSum]
  split_ifs with heven
  · exact iff_of_true rfl (.inl heven)
  · rw [onesSum_extra_iff h.sum_pos (byteBehind_lt ip6 icmph)]
    exact (or_iff_right heven).symm

/-- The message and one more byte. -/
def withByte (ip6 icmph : List Byte) (x : Byte) : List Byte := icmph.take (ntohs (ip6Plen ip6)) ++ [x]

theorem Icmp6At.withByte (h : Icmp6At ip6 icmph) (x : Byte) : Icmp6At ip6 (withByte ip6 icmph x) where
  header := h.header
  nxt := h.nxt
  inside := by simp [FlowNat.withByte, h.inside]

theorem Icmp6At.take_withByte (h : Icmp6At ip6 icmph) (x : Byte) :
    (FlowNat.withByte ip6 icmph x).take (ntohs (ip6Plen ip6)) =
      icmph.take (ntohs (ip6Plen ip6)) :=
  List.take_left' (List.length_take_of_le h.inside)

theorem Icmp6At.byteBehind_withByte (h : Icmp6At ip6 icmph) (hodd : ntohs (ip6Plen ip6) % 2 ≠ 0)
    (hthree : ntohs (ip6Plen ip6) ≠ 3) (x : Byte) :
    byteBehind ip6 (FlowNat.withByte ip6 icmph x) = x.val := by
  have hlen : (icmph.take (ntohs (ip6Plen ip6))).length = ntohs (ip6Plen ip6) :=
    List.length_take_of_le h.inside
  rw [byteBehind, u8, List.getD_eq_getElem?_getD, set16, List.getElem?_set_ne (by omega),
    List.getElem?_set_ne (by omega), FlowNat.withByte, List.getElem?_append_right hlen.le, hlen,
    Nat.sub_self]
  rfl

/-- **The checksum of RFC 4443** comes out if and only if the message has an even number of bytes or the
byte behind it is zero.  It is the same whatever stands behind the message if and only if the number is
even, or three: then the byte behind is a part of the checksum field. -/
theorem icmp6Checksum_exact (h : Icmp6At ip6 icmph) :
    (not16 (vrIcmp6Checksum ip6 icmph) = rfc4443Checksum ip6 (icmph.take (ntohs (ip6Plen ip6))) ↔
        ntohs (ip6Plen ip6) % 2 = 0 ∨ byteBehind ip6 icmph = 0) ∧
      ((∀ icmph', Icmp6At ip6 icmph' →
          icmph'.take (ntohs (ip6Plen ip6)) = icmph.take (ntohs (ip6Plen ip6)) →
          not16 (vrIcmp6Checksum ip6 icmph') = not16 (vrIcmp6Checksum ip6 icmph)) ↔
        ntohs (ip6Plen ip6) % 2 = 0 ∨ ntohs (ip6Plen ip6) = 3) := by
  refine ⟨h.checksum_iff, fun hsame => ?_, fun hfree icmph' h' htake => ?_⟩
  · by_contra hodd
    obtain ⟨hodd, hthree⟩ := not_or.mp hodd
    -- with a zero behind the message it is the RFC's, with a one it is not
    have hzero := (h.withByte 0).checksum_iff.mpr (.inr (h.byteBehind_withByte hodd hthree 0))
    have hone := mt (h.withByte 1).checksum_iff.mp
      (not_or.mpr ⟨hodd, by rw [h.byteBehind_withByte hodd hthree]; decide⟩)
    rw [h.take_withByte] at hzero hone
    refine hone ?_
    rw [hsame _ (h.withByte 1) (h.take_withByte 1), ← hsame _ (h.withByte 0) (h.take_withByte 0), hzero]
  · have hpadded : ∀ b, ntohs (ip6Plen ip6) % 2 = 0 ∨ byteBehind ip6 b = 0 := by
      refine fun b => hfree.imp_right fun hthree => ?_
      rw [byteBehind, hthree]
      exact u8_set16_succ_zero b 2
    rw [h.checksum_iff.mpr (hpadded icmph), h'.checksum_iff.mpr (hpadded icmph'), htake]

/-- A header without addresses that announces a number of bytes. -/
def icmp6Header (plen : Byte) : List Byte := [96, 0, 0, 0, 0, plen, 58, 255] ++ List.replicate 32 0

theorem icmp6Checksum_exact_echo :
    not16 (vrIcmp6Checksum (icmp6Header 8) [128, 0, 0, 0, 0, 1, 0, 1, 7]) =
        rfc4443Checksum (icmp6Header 8) [128, 0, 0, 0, 0, 1, 0, 1] ∧
      ¬ not16 (vrIcmp6Checksum (icmp6Header 9) [128, 0, 0, 0, 0, 1, 0, 1, 7, 1]) =
        rfc4443Checksum (icmp6Header 9) [128, 0, 0, 0, 0, 1, 0, 1, 7] :=
  ⟨(@icmp6Checksum_exact (icmp6Header 8) [128, 0, 0, 0, 0, 1, 0, 1, 7]
      ⟨by decide, rfl, by decide⟩).1.mpr (.inl rfl),
    mt (@icmp6Checksum_exact (icmp6Header 9) [128, 0, 0, 0, 0, 1, 0, 1, 7, 1]
      ⟨by decide, rfl, by decide⟩).1.mp (by decide)⟩

/-- The byte behind a message of nine bytes changes the checksum. -/
theorem icmp6Checksum_odd :
    vrIcmp6Checksum (icmp6Header 9) [128, 0, 0, 0, 0, 1, 0, 1, 7, 0] ≠
      vrIcmp6Checksum (icmp6Header 9) [128, 0, 0, 0, 0, 1, 0, 1, 7, 1] ∧
    not16 (vrIcmp6Checksum (icmp6Header 9) [128, 0, 0, 0, 0, 1, 0, 1, 7, 1]) ≠
      rfc4443Checksum (icmp6Header 9) [128, 0, 0, 0, 0, 1, 0, 1, 7] := by
  simp only [vrIcmp6Checksum, vrIp6PseudoHeaderSum, vrSum_eq]
  decide

end Vrouter.FlowNat
