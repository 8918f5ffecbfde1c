import Vrouter.Gro.Flush

/-! # The checksum of a TCP segment

The one's-complement sum over the pseudo-header and the segment (`tcpSum`) is all ones when the
checksum in it is right (`TcpVerifies`), that is, when it is zero modulo `2 ^ 16 - 1`.  What
`dpdk_gro_process` computes for a segment is the checksum that makes the sum zero
(`computedCsum_cast`), with zero for both representations of zero. -/

namespace Vrouter.Gro

open Vrouter.Lib Vrouter.Packet Vrouter.Dpdk

variable {f : Frame} {p : IpPart} {b : List Byte} {v : ℕ}

/-! ### The sum -/

/-- The addresses and the protocol of a pseudo-header. -/
def GroKey.pseudoSum (k : GroKey) : ℕ := wordSum k.ipSrc + wordSum k.ipDst + 256 * k.proto

/-- The sum over the pseudo-header and the segment. -/
def tcpSum (p : IpPart) (b : List Byte) : ℕ :=
  p.key.pseudoSum + swap16 p.l4Len + wordSum (slice b p.hlen p.l4Len)

/-- The one's-complement sum is all ones. -/
def TcpVerifies (p : IpPart) (b : List Byte) : Prop := fold16 (tcpSum p b) = 65535

instance (p : IpPart) (b : List Byte) : Decidable (TcpVerifies p b) :=
  inferInstanceAs (Decidable (_ = _))

/-- A segment behind an IP header without options is all there. -/
structure Segment (v : ℕ) (b : List Byte) (p : IpPart) : Prop where
  part : parseIp v b = some p
  hlen : p.hlen = if p.key.isIpv6 then 40 else 20
  tcp : 20 ≤ p.l4Len
  inside : p.hlen + p.l4Len ≤ b.length
  small : b.length < 2 ^ 16

/-- The words of the pseudo-header of an IPv4 or of an IPv6 packet. -/
def phdrSum (isIpv6 : Bool) (b : List Byte) : ℕ :=
  if isIpv6 then ipv6PhdrSum b else ipv4PhdrSum b

theorem parseIp_l4Len_lt (h : parseIp v b = some p) : p.l4Len < 2 ^ 16 := by
  have := be16_lt b 4
  rw [(parseIp_parsed h).l4Len]
  split_ifs <;> omega

/-- An IPv4 packet without options ends where its length says. -/
theorem Segment.ipv4 (h : Segment v b p) (h4 : p.key.isIpv6 = false) :
    ipHl b = 5 ∧ be16 b 2 = p.l4Len + 20 := by
  have hp := parseIp_parsed h.part
  have hhlen := hp.hlen.symm.trans h.hlen
  have hl4 := hp.l4Len
  have hin := h.inside
  have hsmall := h.small
  have hbe := be16_lt b 2
  rw [h.hlen] at hin
  simp only [h4, Bool.false_eq_true, if_false] at hhlen hl4 hin
  omega

theorem Segment.phdrSum_eq (h : Segment v b p) :
    phdrSum p.key.isIpv6 b = p.key.pseudoSum + swap16 p.l4Len := by
  have hhlen := h.hlen
  have hlen : p.hlen ≤ b.length := by
    have := h.inside
    omega
  have hpart := h.part
  have hipv4 := h.ipv4
  unfold parseIp at hpart
  split_ifs at hpart
  · cases hpart
    have hadd := wordSum_slice_add b (i := 8) (m := 16) (n := 16) rfl (by
      change 40 ≤ b.length at hlen
      omega)
    rw [phdrSum, if_pos rfl]
    change wordSum (slice b 8 (16 + 16)) + ip6Plen b + 256 * ip6Nxt b =
      wordSum (slice b 8 16) + wordSum (slice b 24 16) + 256 * ip6Nxt b + swap16 (be16 b 4)
    rw [hadd, ← swap16_le16, swap16_swap16 (le16_lt b 4), ip6Plen]
    ring
  · cases hpart
    obtain ⟨hhl, hbe⟩ := hipv4 rfl
    dsimp only at hbe
    have hl4 : (be16 b 2 + 2 ^ 16 - ipHl b * 4) % 2 ^ 16 = be16 b 2 - 20 := by omega
    have hadd := wordSum_slice_add b (i := 12) (m := 4) (n := 4) rfl (by
      change ipHl b * 4 ≤ b.length at hlen
      omega)
    rw [phdrSum, if_neg Bool.false_ne_true]
    change wordSum (slice b 12 (4 + 4)) + 256 * ipProto b + swap16 (be16 b 2 - 20) =
      wordSum (slice b 12 4) + wordSum (slice b 16 4) + 256 * ipProto b +
        swap16 ((be16 b 2 + 2 ^ 16 - ipHl b * 4) % 2 ^ 16)
    rw [hadd, hl4]

theorem tcpSum_lt (h : parseIp v b = some p) (c : List Byte) : tcpSum p c < 2 ^ 32 := by
  obtain ⟨-, -, h3, hsrc, hdst, -⟩ := parseIp_parsed h
  have h1 := wordSumFrom_le p.key.ipSrc 0
  have h2 := wordSumFrom_le p.key.ipDst 0
  have h4 := swap16_lt p.l4Len
  have h5 := wordSum_slice_le c p.hlen p.l4Len
  have h6 := parseIp_l4Len_lt h
  unfold vrIpProtoTcp at h3
  unfold tcpSum GroKey.pseudoSum
  rw [h3]
  unfold wordSum at *
  omega

/-- **A checksum is right iff the sum is zero.** -/
theorem tcpVerifies_iff (h : parseIp v b = some p) (c : List Byte) :
    TcpVerifies p c ↔ (tcpSum p c : ZMod 65535) = 0 := by
  have hlt := tcpSum_lt h c
  have hpos : fold16 (tcpSum p c) ≠ 0 := by
    rw [Ne, fold16_eq_zero]
    unfold tcpSum GroKey.pseudoSum
    rw [(parseIp_parsed h).proto, vrIpProtoTcp]
    omega
  have hiff := cast_eq_iff (fold16_lt hlt) (b := 0) (by decide)
  rw [fold16_cast hlt, Nat.cast_zero] at hiff
  rw [hiff, TcpVerifies]
  omega

/-! ### The checksum that is computed -/

theorem Segment.phdrSum_set16 (h : Segment v b p) (w : ℕ) :
    phdrSum p.key.isIpv6 (set16 b (p.hlen + 16) w) = phdrSum p.key.isIpv6 b := by
  have hhlen := h.hlen
  have hsame := set16_sameOutside b (p.hlen + 16) w
  unfold phdrSum
  split_ifs at hhlen ⊢
  · rw [ipv6PhdrSum, ipv6PhdrSum, hsame.slice (.inl (by omega)), ip6Plen, ip6Plen,
      hsame.le16 (.inl (by omega)), ip6Nxt, ip6Nxt, hsame.bytes 6 (.inl (by omega))]
  · rw [ipv4PhdrSum, ipv4PhdrSum, hsame.slice (.inl (by omega)), ipProto, ipProto,
      hsame.bytes 9 (.inl (by omega)), be16, be16, hsame.bytes 2 (.inl (by omega)),
      hsame.bytes 3 (.inl (by omega))]

theorem Segment.wordSum_set16 (h : Segment v b p) :
    wordSum (slice (set16 b (p.hlen + 16) 0) p.hlen p.l4Len) + tcpCsum b p.hlen =
      wordSum (slice b p.hlen p.l4Len) := by
  have htcp := h.tcp
  have hin := h.inside
  have hsum := wordSum_slice_of_sameOutside (m := 16) (k := 2) (n := p.l4Len - 18)
    (set16_sameOutside b (p.hlen + 16) 0) rfl rfl (by omega)
  rw [show 16 + 2 + (p.l4Len - 18) = p.l4Len by omega, wordSum_slice_two, wordSum_slice_two,
    le16_set16_self (by omega) (by decide)] at hsum
  exact hsum

section Library

variable [Rte] [LawfulRte]

/-- The checksum of a pseudo-header. -/
def phdrCksum (isIpv6 : Bool) (b : List Byte) : Fin (2 ^ 16) :=
  if isIpv6 then rteIpv6PhdrCksum b 0 else rteIpv4PhdrCksum b 0

theorem Segment.phdrCksum_cast (h : Segment v b p) :
    ((phdrCksum p.key.isIpv6 b : ℕ) : ZMod 65535) = p.key.pseudoSum + swap16 p.l4Len := by
  rw [← Nat.cast_add, ← h.phdrSum_eq, phdrCksum, phdrSum]
  cases h6 : p.key.isIpv6 with
  | true => exact LawfulRte.ipv6Phdr b
  | false =>
    obtain ⟨hhl, hbe⟩ := h.ipv4 h6
    exact LawfulRte.ipv4Phdr b hhl (by omega)

/-- What the library computes is the complement of the sum without the checksum. -/
theorem Segment.udptcpCksum_cast (h : Segment v b p) :
    (((if p.key.isIpv6 then rteIpv6UdptcpCksum (set16 b (p.hlen + 16) 0) p.hlen
        else rteIpv4UdptcpCksum (set16 b (p.hlen + 16) 0) p.hlen : Fin (2 ^ 16)) : ℕ) : ZMod 65535) =
      tcpCsum b p.hlen - tcpSum p b := by
  have hsum := congrArg (Nat.cast : ℕ → ZMod 65535) h.wordSum_set16
  have hphdr := h.phdrSum_set16 0
  have hhlen := h.hlen
  have hin := h.inside
  have hp := parseIp_parsed h.part
  have hsame := set16_sameOutside b (p.hlen + 16) 0
  have hbe : ∀ j < 10, be16 (set16 b (p.hlen + 16) 0) j = be16 b j := by
    intro j hj
    have hj' : j + 1 < p.hlen + 16 := by omega
    rw [be16, be16, hsame.bytes j (.inl (by omega)), hsame.bytes (j + 1) (.inl hj')]
  -- both helpers add up the same words
  suffices hcast : (((if p.key.isIpv6 then rteIpv6UdptcpCksum (set16 b (p.hlen + 16) 0) p.hlen
      else rteIpv4UdptcpCksum (set16 b (p.hlen + 16) 0) p.hlen : Fin (2 ^ 16)) : ℕ) : ZMod 65535) =
      -((phdrSum p.key.isIpv6 b : ℕ) +
        (wordSum (slice (set16 b (p.hlen + 16) 0) p.hlen p.l4Len) : ℕ)) by
    rw [hcast, h.phdrSum_eq, tcpSum]
    push_cast at hsum ⊢
    linear_combination -hsum
  rw [← hphdr]
  cases h6 : p.key.isIpv6 with
  | true =>
    have hl4 := hp.l4Len
    rw [h6, if_pos rfl] at hhlen hl4
    have hlaw := LawfulRte.ipv6Udptcp (set16 b (p.hlen + 16) 0) (by
      rw [hbe 4 (by decide), set16_length]
      omega)
    rw [hbe 4 (by decide), ← hl4, ← hhlen] at hlaw
    exact hlaw
  | false =>
    obtain ⟨hhl, hlen⟩ := h.ipv4 h6
    rw [h6, if_neg Bool.false_ne_true] at hhlen
    have hlaw := LawfulRte.ipv4Udptcp (set16 b (p.hlen + 16) 0) (by
      rw [ipHl, hsame.bytes 0 (.inl (by omega))]
      exact hhl) (by rw [hbe 2 (by decide)]; omega) (by
      rw [hbe 2 (by decide), set16_length]
      omega)
    rw [hbe 2 (by decide), hlen, Nat.add_sub_cancel, ← hhlen] at hlaw
    exact hlaw

/-- **What is computed is the checksum that makes the sum zero.** -/
theorem computedCsum_cast (h : Segment v f.nw p) :
    (f.computedCsum p : ZMod 65535) = tcpCsum f.nw p.hlen - tcpSum p f.nw := by
  rw [← h.udptcpCksum_cast]
  unfold Frame.computedCsum
  dsimp only
  generalize (if p.key.isIpv6 = true then _ else _ : Fin (2 ^ 16)) = c
  split_ifs with hones
  · rw [hones, Nat.cast_zero]
    exact (ZMod.natCast_self 65535).symm
  · rfl

end Library

end Vrouter.Gro
