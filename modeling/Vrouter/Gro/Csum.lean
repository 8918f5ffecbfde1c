import Vrouter.Gro.TcpSum
import Vrouter.Gro.Runs

/-! # The checksums of a merged packet

An entry keeps, with the bytes swapped, the sum over the pseudo-header without its length and over
the payloads (`Summed`): the complement of the checksum of the first segment, less its length and its
header, and for each further segment the same less its whole pseudo-header.  A flush adds the length
and the header that is sent, so the checksum it writes is right (`flushed_tcp`); and the checksum of an
IPv4 header is updated for the new length (`flushed_ip`).  So in every run in which the frames that
can be merged have no padding and a right IPv4 header, every merged packet has right checksums
(`gro_checksums`). -/

namespace Vrouter.Gro

open Vrouter.Lib Vrouter.Packet Vrouter.Dpdk

variable {env : Env} {dev : Vif} {f g : Frame} {p q : IpPart} {e : GroEntry}
  {k : GroKey} {gs held : List Frame} {r : Router} {b : List Byte} {t : ℕ}

/-! ### Headers -/

theorem tcpHlen_even (b : List Byte) (t : ℕ) : tcpHlen b t % 2 = 0 := by
  unfold tcpHlen
  omega

theorem tcpHlen_lt (b : List Byte) (t : ℕ) : tcpHlen b t < 64 := by
  have := u8_lt b (t + 12)
  unfold tcpHlen tcpOffset
  omega

theorem dpdkGroCsumTcph_lt (b : List Byte) (t : ℕ) : dpdkGroCsumTcph b t < 2 ^ 16 := by
  have h1 := wordSum_slice_le (set16 b (t + 16) 0) t (tcpHlen b t)
  have h2 := tcpHlen_lt b t
  exact fold16_lt (by omega)

theorem dpdkGroCsumTcph_cast (htcp : 20 ≤ tcpHlen b t) (hlen : t + tcpHlen b t ≤ b.length) {w : ℕ}
    (hw : w < 2 ^ 16) : (wordSum (slice (set16 b (t + 16) w) t (tcpHlen b t)) : ZMod 65535) =
      dpdkGroCsumTcph b t + w := by
  have hsum : ∀ x < 2 ^ 16, wordSum (slice (set16 b (t + 16) x) t (tcpHlen b t)) + le16 b (t + 16) =
      wordSum (slice b t (tcpHlen b t)) + x := by
    intro x hx
    have hsum := wordSum_slice_of_sameOutside (m := 16) (k := 2) (n := tcpHlen b t - 18)
      (set16_sameOutside b (t + 16) x) rfl rfl (by omega)
    rwa [show 16 + 2 + (tcpHlen b t - 18) = tcpHlen b t by omega, wordSum_slice_two,
      wordSum_slice_two, le16_set16_self (by omega) hx] at hsum
  have hzero := congrArg (Nat.cast : ℕ → ZMod 65535) (hsum 0 (by decide))
  have hword := congrArg (Nat.cast : ℕ → ZMod 65535) (hsum w hw)
  have h1 := wordSum_slice_le (set16 b (t + 16) 0) t (tcpHlen b t)
  have h2 := tcpHlen_lt b t
  rw [dpdkGroCsumTcph, fold16_cast (by omega)]
  push_cast at hzero hword
  linear_combination hword - hzero

/-! ### Segments -/

theorem Frame.Whole.segment (h : f.Whole p) : Segment f.vif.vifIdx f.nw p where
  part := h.part
  hlen := h.hlen
  tcp := by
    have := h.nw_length
    have := h.headers
    have := h.tcp
    omega
  inside := h.nw_length.ge
  small := f.nw_lt

theorem Frame.Whole.tcpSum_eq (h : f.Whole p) : (tcpSum p f.nw : ZMod 65535) =
    p.key.pseudoSum + 256 * p.l4Len + (dpdkGroCsumTcph f.nw p.hlen + tcpCsum f.nw p.hlen) +
      wordSum f.payload := by
  have hlen := h.nw_length
  have hhdr := h.headers
  have hsplit := wordSum_slice_add f.nw (i := p.hlen) (n := p.l4Len - tcpHlen f.nw p.hlen)
    (tcpHlen_even f.nw p.hlen) hhdr
  have hpay : slice f.nw (p.hlen + tcpHlen f.nw p.hlen) (p.l4Len - tcpHlen f.nw p.hlen) =
      f.payload := by
    rw [h.payload_eq, slice, List.take_of_length_le (by rw [List.length_drop]; omega)]
  have hcsum := dpdkGroCsumTcph_cast h.tcp hhdr (le16_lt f.nw (p.hlen + 16))
  rw [set16_le16_self] at hcsum
  rw [Nat.add_sub_cancel' (by omega), hpay] at hsplit
  rw [tcpSum, hsplit, tcpCsum]
  push_cast
  rw [hcsum, swap16_cast (parseIp_l4Len_lt h.part)]
  ring

theorem Frame.Whole.l4Len_eq (h : f.Whole p) :
    (if p.key.isIpv6 then be16 f.nw 4 else (be16 f.nw 2 + 2 ^ 16 - 20) % 2 ^ 16) = p.l4Len := by
  have hp := parseIp_parsed h.part
  have hhlen := hp.hlen.symm.trans h.hlen
  rw [hp.l4Len]
  split_ifs at hhlen ⊢
  · rfl
  · rw [hhlen]

/-! ### Entries -/

/-- **An entry keeps the sum of its payloads.** -/
structure Summed (k : GroKey) (e : GroEntry) (f : Frame) (p : IpPart) (gs : List Frame) : Prop where
  first : TcpVerifies p f.nw
  header : k.isIpv6 = false → HeaderVerifies f.nw
  even : ((f :: gs).map Frame.payload).flatten.length % 2 = 0
  bound : e.ulpCsum ≤ 65535 * e.mbufCnt
  sum : (e.ulpCsum : ZMod 65535) =
    256 * (k.pseudoSum + wordSum ((f :: gs).map Frame.payload).flatten)

/-! ### What a flush writes -/

/-- The checksums of a packet are right. -/
structure Verifies (k : GroKey) (m : Merged) : Prop where
  tcp : ∃ q, parseIp k.vifIdx m.bytes = some q ∧ q.key = k ∧ q.hlen + q.l4Len = m.bytes.length ∧
    TcpVerifies q m.bytes
  ip : k.isIpv6 = false → HeaderVerifies m.bytes

section

variable (h : Holds k e f p gs)
include h

theorem Holds.bytes_eq : e.packet.bytes = e.header.data ++ (gs.map Frame.payload).flatten := by
  change e.header.data.drop 0 ++ chainData e.mbufNext = _
  rw [List.drop_zero, h.next]

theorem Holds.bytes_single (hcnt : ¬ 1 < e.mbufCnt) : gs = [] ∧ e.packet.bytes = f.nw := by
  have hnil : gs = [] := List.length_eq_zero_iff.mp (by have := h.mbufCnt; omega)
  refine ⟨hnil, ?_⟩
  rw [h.bytes_eq, GroEntry.header, if_neg hcnt, h.data, hnil]
  exact List.append_nil _

/-- The sum that an entry ends with does not overflow. -/
theorem ulpCsum_cast (hs : Summed k e f p gs) (d : List Byte) :
    (((e.ulpCsum + (e.pLen + 2 ^ 32 - e.tcpOff) + swap16 (dpdkGroCsumTcph d e.tcpOff)) % 2 ^ 32 : ℕ) :
        ZMod 65535) =
      e.ulpCsum + (e.pLen - e.tcpOff : ℕ) + 256 * dpdkGroCsumTcph d e.tcpOff := by
  have hcnt := h.mbufCnt
  have hnonempty := h.nonempty
  have hpLen := h.pLen
  have hhdr := h.whole.headers
  have htcp := h.whole.tcp
  have hlt := h.small
  have hbound := hs.bound
  have hswap := swap16_lt (dpdkGroCsumTcph d e.tcpOff)
  have hoff := h.tcpOff
  rw [show (e.ulpCsum + (e.pLen + 2 ^ 32 - e.tcpOff) + swap16 (dpdkGroCsumTcph d e.tcpOff)) % 2 ^ 32 =
      e.ulpCsum + (e.pLen - e.tcpOff) + swap16 (dpdkGroCsumTcph d e.tcpOff) by omega,
    Nat.cast_add, Nat.cast_add, swap16_cast (dpdkGroCsumTcph_lt ..)]

/-- **The TCP checksum that is sent is right.** -/
theorem flushed_tcp (hs : Summed k e f p gs) (hcnt : 1 < e.mbufCnt)
    (hq : parseIp k.vifIdx e.packet.bytes = some q) (hkey : q.key = k) (hhlen : q.hlen = p.hlen)
    (hl4 : q.hlen + q.l4Len = e.pLen) : TcpVerifies q e.packet.bytes := by
  have hlen := h.bytes_length
  have hhdr := h.whole.headers
  have htcp := h.whole.tcp
  have hsmall := h.small
  have hoff := h.tcpOff
  have hpLen := h.pLen
  have hsame := h.sameFlow.tcpHlen
  -- the header before its checksum is written
  obtain ⟨d, hd⟩ : ∃ d, d = e.writeTcp (e.writeIp e.mbufHead.data) := ⟨_, rfl⟩
  have hdlen : d.length = f.nw.length := by
    rw [hd, writeTcp_length, writeIp_length, h.data]
  have hdata : e.header.data = e.writeCsum d := by rw [GroEntry.header, if_pos hcnt, hd]
  have hdh : tcpHlen d p.hlen = tcpHlen f.nw p.hlen := by
    have hnot : ¬ Written e.tcpOff e.timestamp (p.hlen + 12) := by
      unfold Written
      rw [hoff]
      omega
    rw [tcpHlen, tcpOffset, hd, writeTcp_u8 hnot, writeIp_u8 hnot, h.data]
    rfl
  -- the segment is the header and the payload
  have hsplit := wordSum_slice_add e.packet.bytes (i := p.hlen)
    (n := q.l4Len - tcpHlen f.nw p.hlen) (tcpHlen_even f.nw p.hlen) (by omega)
  have hpay : slice e.packet.bytes (p.hlen + tcpHlen f.nw p.hlen) (q.l4Len - tcpHlen f.nw p.hlen) =
      ((f :: gs).map Frame.payload).flatten := by
    obtain ⟨q', hq', -, -, hpay, -⟩ := h.packet_describes.part
    obtain rfl : q = q' := Option.some.inj (hq.symm.trans hq')
    rwa [IpPart.payload, hhlen, hsame] at hpay
  have hhead : slice e.packet.bytes p.hlen (tcpHlen f.nw p.hlen) =
      slice (e.writeCsum d) p.hlen (tcpHlen f.nw p.hlen) := by
    rw [h.bytes_eq, hdata, slice_append_left (by rw [writeCsum_length, hdlen]; exact hhdr)]
  rw [Nat.add_sub_cancel' (by omega), hpay, hhead] at hsplit
  -- the checksum is the complement of what it is added to
  have hU := ulpCsum_cast h hs d
  have hUlt : (e.ulpCsum + (e.pLen + 2 ^ 32 - e.tcpOff) + swap16 (dpdkGroCsumTcph d e.tcpOff)) %
      2 ^ 32 < 2 ^ 32 := Nat.mod_lt _ (by decide)
  have hcsum := dpdkGroCsumTcph_cast (b := d) (t := p.hlen)
    (w := swap16 (not16 (fold16 ((e.ulpCsum + (e.pLen + 2 ^ 32 - e.tcpOff) +
      swap16 (dpdkGroCsumTcph d e.tcpOff)) % 2 ^ 32)))) (by omega) (by omega) (swap16_lt _)
  rw [swap16_cast (not16_lt _), not16_cast (fold16_lt hUlt), fold16_cast hUlt, hU, hdh, hoff] at hcsum
  rw [tcpVerifies_iff hq, tcpSum, hhlen, hsplit, hkey]
  unfold GroEntry.writeCsum
  dsimp only
  rw [Nat.cast_add, Nat.cast_add, Nat.cast_add, hoff, hcsum, swap16_cast (by omega), hs.sum,
    show e.pLen - p.hlen = q.l4Len by omega]
  have h1 := swap_twice (k.pseudoSum + wordSum ((f :: gs).map Frame.payload).flatten)
  have h2 := swap_twice (dpdkGroCsumTcph d p.hlen)
  linear_combination -h1 - h2

end

theorem writeIp_headerSum (h : HeaderFits b) (h6 : e.isIpv6 = false) (hsmall : e.pLen < 2 ^ 16) :
    (headerSum (e.writeIp b) : ZMod 65535) = headerSum b := by
  have hfive := h.five_le
  have hcl : swap16 (not16 (ipCsum b)) + swap16 (not16 (ipLen b)) + e.pLen < 2 ^ 32 := by
    have h1 := swap16_lt (not16 (ipCsum b))
    have h2 := swap16_lt (not16 (ipLen b))
    omega
  have hlenlt : ipLen b < 2 ^ 16 := le16_lt b 2
  rw [GroEntry.writeIp, h6, if_neg Bool.false_ne_true]
  dsimp only
  obtain ⟨c, hc⟩ : ∃ c, c = swap16 (not16 (fold16 (swap16 (not16 (ipCsum b)) +
    swap16 (not16 (ipLen b)) + e.pLen))) := ⟨_, rfl⟩
  have hccast : (c : ZMod 65535) = ipCsum b + ipLen b - 256 * e.pLen := by
    have h1 := swap_twice (ipCsum b)
    have h2 := swap_twice (ipLen b)
    rw [hc, swap16_cast (not16_lt _), not16_cast (fold16_lt hcl), fold16_cast hcl, Nat.cast_add,
      Nat.cast_add, swap16_cast (not16_lt _), swap16_cast (not16_lt _), not16_cast (ipCsum_lt _),
      not16_cast hlenlt]
    linear_combination h1 + h2
  have hclt : c < 2 ^ 16 := hc ▸ swap16_lt _
  have hhl : ipHl (set16 b 10 c) = ipHl b := by
    rw [ipHl, ipHl, u8_set16_of_ne (by decide)]
  have hset₁ := headerSum_set16 h (i := 10) rfl (by decide) (by omega) hclt
  have hset₂ := headerSum_set16 (h.of_ipHl hhl (set16_length ..)) (i := 2) rfl (by decide)
    (by omega) (swap16_lt e.pLen)
  rw [le16_set16_of_disjoint (by omega)] at hset₂
  have hcast₁ := congrArg (Nat.cast : ℕ → ZMod 65535) hset₁
  have hcast₂ := congrArg (Nat.cast : ℕ → ZMod 65535) hset₂
  rw [Nat.cast_add, Nat.cast_add] at hcast₁ hcast₂
  rw [swap16_cast hsmall] at hcast₂
  rw [← hc, Nat.mod_eq_of_lt hsmall]
  unfold ipCsum ipLen at hccast
  linear_combination hcast₂ + hcast₁ + hccast

theorem Frame.Whole.ipHl_eq (h : f.Whole p) (hv4 : p.key.isIpv6 = false) : ipHl f.nw * 4 = 20 := by
  have hhlen := (parseIp_parsed h.part).hlen.symm.trans h.hlen
  rw [hv4] at hhlen
  exact hhlen

/-- **The checksum of the IPv4 header that is sent is right.** -/
theorem flushed_ip (h : Holds k e f p gs) (hs : Summed k e f p gs) (hcnt : 1 < e.mbufCnt)
    (hv4 : k.isIpv6 = false) : HeaderVerifies e.packet.bytes := by
  have h6 : e.isIpv6 = false := h.isIpv6.trans hv4
  have hip := h.whole.hlen
  rw [h.key, hv4, if_neg Bool.false_ne_true] at hip
  have hhdr := h.whole.headers
  have htcp := h.whole.tcp
  have hlen := h.bytes_length
  have hpLen := h.pLen
  have hoff : e.tcpOff = 20 := h.tcpOff.trans hip
  have hhl := h.whole.ipHl_eq (h.key ▸ hv4)
  have hfits : HeaderFits f.nw := ⟨by omega, by omega⟩
  have h0 : u8 e.packet.bytes 0 = u8 f.nw 0 :=
    h.sameFlow.u8 (by omega) (not_written_of_lt h.whole.ip (by omega))
  have hhl' : ipHl e.packet.bytes = ipHl f.nw := by rw [ipHl, ipHl, h0]
  have hfits' : HeaderFits e.packet.bytes := ⟨by omega, by omega⟩
  -- what is written behind the IP header does not count
  have htake : e.packet.bytes.take 20 = (e.writeIp f.nw).take 20 := by
    rw [h.bytes_eq, List.take_append_of_le_length (by rw [header_length, h.data]; omega),
      GroEntry.header, if_pos hcnt, GroEntry.writeCsum, GroEntry.writeTcp, hoff, h.data]
    dsimp only
    rw [take_set16_of_le (by omega)]
    split_ifs
    · rw [take_setBytes_of_le (by omega), take_setBytes_of_le (by omega), take_set16_of_le (by omega),
        take_setBytes_of_le (by omega)]
    · rw [take_set16_of_le (by omega), take_setBytes_of_le (by omega)]
  have hsum : headerSum e.packet.bytes = headerSum (e.writeIp f.nw) := by
    have hu : ipHl (e.writeIp f.nw) = ipHl f.nw := by
      rw [ipHl, ipHl, writeIp_u8]
      unfold Written
      omega
    rw [headerSum, headerSum, hhl', hu, hhl, htake]
  rw [headerVerifies_iff hfits', hsum, writeIp_headerSum hfits h6 h.small]
  exact (headerVerifies_iff hfits).mp (hs.header hv4)

/-- **A flushed packet has right checksums.** -/
theorem Holds.verifies (h : Holds k e f p gs) (hs : Summed k e f p gs) : Verifies k e.packet := by
  obtain ⟨q, hq, hkey, hhlen, -, hl4⟩ := h.parsed
  by_cases hcnt : 1 < e.mbufCnt
  · exact ⟨⟨q, hq, hkey, hl4.trans h.bytes_length.symm, flushed_tcp h hs hcnt hq hkey hhlen hl4⟩,
      fun hv4 => flushed_ip h hs hcnt hv4⟩
  · obtain ⟨-, hbytes⟩ := h.bytes_single hcnt
    have hv : f.vif.vifIdx = k.vifIdx := by
      rw [← h.key]
      exact (parseIp_parsed h.whole.part).vifIdx.symm
    have hp : parseIp k.vifIdx f.nw = some p := hv ▸ h.whole.part
    rw [hbytes] at hq
    obtain rfl : p = q := Option.some.inj (hp.symm.trans hq)
    refine ⟨⟨p, hbytes ▸ hq, h.key, hl4.trans h.bytes_length.symm, hbytes ▸ hs.first⟩, fun hv4 => ?_⟩
    rw [hbytes]
    exact hs.header hv4

/-- What is asked of a frame of a flow: if it can be merged, it has no padding, and its IPv4 header
has a right checksum. -/
def Sane (k : GroKey) : Event → Prop
  | .frame _ f => ∀ p, f.part = some p → p.key = k → f.flush p = false → p.tcpDataLen f.nw ≠ 0 →
      f.Plain p ∧ (k.isIpv6 = false → HeaderVerifies f.nw)
  | .tick _ => True

section Library

variable [Rte] [LawfulRte]

/-! ### What an entry keeps -/

omit [LawfulRte] in
theorem dpdkGroRxCsumFixup_lt {cnt c : ℕ} {isIpv6 : Bool} (hc : c < 2 ^ 16) :
    dpdkGroRxCsumFixup cnt isIpv6 b t c < 2 ^ 16 := by
  unfold dpdkGroRxCsumFixup
  dsimp only
  generalize (if isIpv6 = true then _ else _ : ℕ) = cs
  have h1 := not16_lt cs
  have h2 := swap16_lt (not16 (dpdkGroCsumTcph b t))
  exact fold16_lt (by omega)

/-- What is left of a checksum. -/
theorem Frame.Whole.fixup_cast (h : f.Whole p) (cnt : ℕ) :
    (dpdkGroRxCsumFixup cnt p.key.isIpv6 f.nw p.hlen (not16 (swap16 (tcpCsum f.nw p.hlen))) :
        ZMod 65535) =
      -(256 * (dpdkGroCsumTcph f.nw p.hlen + tcpCsum f.nw p.hlen)) -
        if cnt = 1 then (p.l4Len : ZMod 65535)
        else 256 * (p.key.pseudoSum + 256 * p.l4Len) := by
  have hcsum : tcpCsum f.nw p.hlen < 2 ^ 16 := le16_lt ..
  have htcph := dpdkGroCsumTcph_lt f.nw p.hlen
  have hl4 := parseIp_l4Len_lt h.part
  -- the pseudo-header, or its length
  obtain ⟨cs, hcs, hlt, hcast⟩ : ∃ cs : ℕ, (if p.key.isIpv6 then
        if cnt = 1 then be16 f.nw 4 else swap16 (rteIpv6PhdrCksum f.nw 0)
      else if cnt = 1 then (be16 f.nw 2 + 2 ^ 16 - 20) % 2 ^ 16
      else swap16 (rteIpv4PhdrCksum f.nw 0)) = cs ∧ cs < 2 ^ 16 ∧ (cs : ZMod 65535) =
        if cnt = 1 then (p.l4Len : ZMod 65535)
        else 256 * (p.key.pseudoSum + 256 * p.l4Len) := by
    by_cases hcnt : cnt = 1
    · refine ⟨p.l4Len, ?_, hl4, (if_pos hcnt).symm⟩
      rw [if_pos hcnt, if_pos hcnt]
      exact h.l4Len_eq
    · refine ⟨swap16 (phdrCksum p.key.isIpv6 f.nw), ?_, swap16_lt _, ?_⟩
      · rw [if_neg hcnt, if_neg hcnt, phdrCksum]
        split_ifs <;> rfl
      · rw [if_neg hcnt, swap16_cast (Fin.isLt _), h.segment.phdrCksum_cast, swap16_cast hl4]
  have h1 := not16_lt (swap16 (tcpCsum f.nw p.hlen))
  have h2 := not16_lt cs
  have h3 := swap16_lt (not16 (dpdkGroCsumTcph f.nw p.hlen))
  unfold dpdkGroRxCsumFixup
  dsimp only
  rw [hcs, fold16_cast (by omega), Nat.cast_add, Nat.cast_add, not16_cast (swap16_lt _),
    swap16_cast hcsum, not16_cast hlt, swap16_cast (not16_lt _), not16_cast htcph, hcast]
  ring

theorem newEntry_summed (h : f.Whole p) (hv : TcpVerifies p f.nw)
    (hip : p.key.isIpv6 = false → HeaderVerifies f.nw) :
    Summed p.key (newEntry env dev f p) f p [] where
  first := hv
  header := hip
  even := by
    have := h.even
    rw [← h.payload_length] at this
    simpa using this
  bound := by
    have hlt : (newEntry env dev f p).ulpCsum < 2 ^ 16 := dpdkGroRxCsumFixup_lt (not16_lt _)
    change _ ≤ 65535 * 1
    omega
  sum := by
    have hsum := (tcpVerifies_iff h.part f.nw).mp hv
    have hfix := h.fixup_cast 1
    rw [h.tcpSum_eq] at hsum
    change (dpdkGroRxCsumFixup 1 p.key.isIpv6 f.nw p.hlen _ : ZMod 65535) = _
    rw [hfix, if_pos rfl, List.map_singleton, List.flatten_singleton]
    have htwice := swap_twice p.l4Len
    linear_combination (-256 : ZMod 65535) * hsum + htwice

theorem append_summed (h : Holds k e f p gs) (hs : Summed k e f p gs) (hg : g.Whole q)
    (hv : TcpVerifies q g.nw) :
    Summed k (append env e g q) f p (gs ++ [g]) := by
  have hcnt := h.mbufCnt
  have hnonempty := h.nonempty
  have hpLen := h.pLen
  have hhdr := h.whole.headers
  have htcp := h.whole.tcp
  have hlt := h.small
  have hbound := hs.bound
  have hflat : ((f :: (gs ++ [g])).map Frame.payload).flatten =
      ((f :: gs).map Frame.payload).flatten ++ g.payload := by simp
  have hmod : (e.mbufCnt + 1) % 2 ^ 16 = e.mbufCnt + 1 := Nat.mod_eq_of_lt (by omega)
  have hfixlt : dpdkGroRxCsumFixup ((e.mbufCnt + 1) % 2 ^ 16) q.key.isIpv6 g.nw q.hlen
      (not16 (swap16 (tcpCsum g.nw q.hlen))) < 2 ^ 16 := dpdkGroRxCsumFixup_lt (not16_lt _)
  have hulp : (append env e g q).ulpCsum = e.ulpCsum +
      dpdkGroRxCsumFixup ((e.mbufCnt + 1) % 2 ^ 16) q.key.isIpv6 g.nw q.hlen
        (not16 (swap16 (tcpCsum g.nw q.hlen))) := Nat.mod_eq_of_lt (by omega)
  refine ⟨hs.first, hs.header, ?_, ?_, ?_⟩
  · have heven := hg.even
    rw [← hg.payload_length] at heven
    rw [hflat, List.length_append, Nat.add_mod, hs.even, heven]
  · rw [hulp]
    change _ ≤ 65535 * ((e.mbufCnt + 1) % 2 ^ 16)
    rw [hmod] at hfixlt ⊢
    omega
  · have hsum := (tcpVerifies_iff hg.part g.nw).mp hv
    rw [hg.tcpSum_eq] at hsum
    rw [hulp, Nat.cast_add, hg.fixup_cast, hmod, if_neg (by omega), hs.sum, hflat,
      wordSum_append hs.even, Nat.cast_add]
    linear_combination (-256 : ZMod 65535) * hsum

/-! ### What is sent -/

variable {m : Merged}

omit [Rte] [LawfulRte] in
theorem source_ok {x : Except DropReason Unit} {y : Except DropReason Merged}
    (h : (do x; y) = .ok m) : x = .ok () ∧ y = .ok m := by
  cases x with
  | error d => exact nomatch h
  | ok u => exact ⟨rfl, h⟩

theorem send_bytes {nh : Nh} (h : r.send nh e = .ok m) : m.bytes = e.packet.bytes := by
  unfold Router.send at h
  dsimp only at h
  by_cases hb : nh.bridge = true
  · rw [if_pos hb] at h
    cases hprep : rtePktmbufPrepend e.packet.head vrEtherHlen with
    | none =>
      rw [hprep] at h
      exact nomatch h
    | some head =>
      rw [hprep] at h
      obtain ⟨-, h⟩ := source_ok h
      split_ifs at h
      cases h
      exact congrArg (· ++ chainData e.mbufNext) (drop_of_prepend hprep)
  · rw [if_neg hb] at h
    obtain ⟨-, h⟩ := source_ok h
    split_ifs at h
    cases h
    rfl

theorem deliver_bytes (h : r.deliver e = .ok m) : m.bytes = e.packet.bytes := by
  unfold Router.deliver at h
  cases hnh : r.nexthop e.nhId with
  | none =>
    rw [hnh] at h
    exact nomatch h
  | some nh =>
    rw [hnh] at h
    dsimp only at h
    cases hdev : nh.nhDev with
    | none =>
      rw [hdev] at h
      exact nomatch h
    | some vif =>
      rw [hdev] at h
      dsimp only at h
      split_ifs at h
      exact send_bytes h

/-! ### Runs -/

/-- An entry whose sums are right. -/
def Good (k : GroKey) (e : GroEntry) : Prop := ∃ f p gs, Holds k e f p gs ∧ Summed k e f p gs

/-- A segment that is merged with right sums. -/
structure Mergeable (f : Frame) (p : IpPart) : Prop where
  whole : f.Whole p
  tcp : TcpVerifies p f.nw
  ip : p.key.isIpv6 = false → HeaderVerifies f.nw

theorem flush_verifies {k' : GroKey} (h : Good k e) (hm : dpdkGroFlush r k e = .merged k' m) :
    Verifies k m := by
  obtain ⟨f, p, gs, hholds, hsummed⟩ := h
  obtain ⟨⟨q, hq, hkey, hlen, htcp⟩, hip⟩ := hholds.verifies hsummed
  unfold dpdkGroFlush at hm
  cases hd : r.deliver e with
  | error d =>
    rw [hd] at hm
    exact nomatch hm
  | ok m' =>
    rw [hd] at hm
    obtain rfl := (Out.merged.inj hm).2
    have hbytes := deliver_bytes hd
    rw [← hbytes] at hq hlen htcp hip
    exact ⟨⟨q, hq, hkey, hlen, htcp⟩, hip⟩

variable [RteHash GroKey GroEntry] [LawfulRteHash GroKey GroEntry] {tbl : Table}

/-- What is sent for a flow has right checksums, and what is kept has right sums. -/
def Right (k : GroKey) (s : List Out × Table) : Prop :=
  (∀ m, .merged k m ∈ s.1 → Verifies k m) ∧ ∀ e, rteHashLookupData s.2 k = some e → Good k e

theorem create_right (hf : p.key = k → f.flush p = false → p.tcpDataLen f.nw ≠ 0 → Mergeable f p)
    (ht : ∀ e, rteHashLookupData tbl k = some e → Good k e) : Right k (create env dev tbl f p) := by
  have hpass : Right k ([.passed f], tbl) := ⟨by simp, ht⟩
  unfold create
  by_cases hempty : p.tcpDataLen f.nw = 0 ∨ f.flush p = true
  · rw [if_pos hempty]
    exact hpass
  · rw [if_neg hempty]
    rw [not_or, Bool.not_eq_true] at hempty
    split_ifs
    · refine ⟨by simp, fun e he => ?_⟩
      rw [LawfulRteHash.lookup_add] at he
      split_ifs at he with hkey
      · cases he
        subst hkey
        have hm := hf rfl hempty.2 hempty.1
        exact ⟨f, p, [], newEntry_holds hm.whole, newEntry_summed hm.whole hm.tcp hm.ip⟩
      · exact ht e he
    · exact hpass
    · exact hpass

omit [LawfulRteHash GroKey GroEntry] in
/-- A flush in front. -/
theorem Right.flush {s : List Out × Table} (h : Right k s) (he : q.key = k → Good k e) :
    Right k (dpdkGroFlush r q.key e :: s.1, s.2) := by
  refine ⟨fun m hm => ?_, h.2⟩
  rcases List.mem_cons.mp hm with heq | hm
  · have hkey := congrArg Out.key heq
    rw [flush_key] at hkey
    obtain rfl : k = q.key := Option.some.inj hkey
    exact flush_verifies (he rfl) heq.symm
  · exact h.1 m hm

theorem update_right
    (hg : q.key = k → g.flush q = false → q.tcpDataLen g.nw ≠ 0 → Mergeable g q)
    (ht : ∀ e, rteHashLookupData tbl k = some e → Good k e) : Right k (update env dev tbl g q) := by
  have hdel : ∀ e, rteHashLookupData (rteHashDelKey tbl q.key) k = some e → Good k e := fun e he => ht e (lookup_of_del he)
  have hpass : Right k ([.passed g], rteHashDelKey tbl q.key) := ⟨by simp, hdel⟩
  unfold update
  cases he : rteHashLookupData tbl q.key with
  | none => exact create_right hg ht
  | some e =>
    have hgood : q.key = k → Good k e := fun hkey =>
      ht e (hkey ▸ he)
    dsimp only
    by_cases hflush : g.flush q = true
    · rw [if_pos hflush]
      exact hpass.flush hgood
    rw [if_neg hflush]
    by_cases hover : e.pLen > 65535 - q.tcpDataLen g.nw
    · rw [if_pos hover]
      exact (create_right hg hdel).flush hgood
    rw [if_neg hover]
    by_cases horder : outOfOrder e g.nw q = true
    · rw [if_pos horder]
      exact hpass.flush hgood
    rw [if_neg horder]
    rw [Bool.not_eq_true] at hflush horder
    have hne : q.tcpDataLen g.nw ≠ 0 := by
      simp only [outOfOrder, Bool.or_eq_false_iff, decide_eq_false_iff_not] at horder
      exact horder.1.2
    have happ : q.key = k → Good k (append env e g q) := by
      intro hkey
      obtain ⟨f, p, gs, hholds, hsummed⟩ := hgood hkey
      have hm := hg hkey hflush hne
      exact ⟨f, p, gs ++ [g], append_holds hholds hm.whole hover horder,
        append_summed hholds hsummed hm.whole hm.tcp⟩
    split_ifs
    · have hnone : Right k ([], rteHashDelKey tbl q.key) := ⟨by simp, hdel⟩
      exact hnone.flush happ
    · refine ⟨by simp, fun e' he' => ?_⟩
      rw [LawfulRteHash.lookup_add] at he'
      split_ifs at he' with hkey
      · cases he'
        exact happ hkey.symm
      · exact ht e' he'

theorem process_right (hf : Sane k (.frame env f)) (ht : ∀ e, rteHashLookupData tbl k = some e → Good k e) :
    Right k (dpdkGroProcess env tbl f) := by
  cases hp : f.part with
  | none =>
    rw [process_other hp]
    exact ⟨by simp, ht⟩
  | some p =>
    rcases process_cases env tbl hp with ⟨-, heq⟩ | heq | ⟨dev, heq, hcsum⟩
    · rw [heq]
      exact ⟨by simp, ht⟩
    · rw [heq]
      exact ⟨by simp, ht⟩
    · rw [heq]
      refine update_right (fun hkey hno hne => ?_) ht
      obtain ⟨hplain, hip⟩ := hf p hp hkey hno hne
      have hwhole := hplain.whole hp hno
      refine ⟨hwhole, ?_, hkey ▸ hip⟩
      -- the check has just been made
      have hcast := computedCsum_cast hwhole.segment
      rw [← hcsum hno] at hcast
      rw [tcpVerifies_iff hp]
      linear_combination hcast

theorem round_right (ht : ∀ e, rteHashLookupData tbl k = some e → Good k e) :
    Right k (dpdkGroFlushAllInactive env tbl) := by
  refine ⟨fun m hm => ?_, fun e he => ?_⟩
  swap
  · rw [round_lookup] at he
    exact ht e (Option.filter_eq_some_iff.mp he).1
  obtain ⟨⟨k', e⟩, he, heq⟩ := List.mem_map.mp hm
  have hkey := congrArg Out.key heq
  rw [flush_key] at hkey
  obtain rfl : k' = k := Option.some.inj hkey
  exact flush_verifies (ht e (LawfulRteHash.mem_iterate.mp (List.mem_of_mem_filter he))) heq

/-- **Merged packets have right checksums**: in every run in which the frames of a flow that can be
merged are sane, every packet that was merged for the flow has a right TCP checksum, and a right
checksum in its IPv4 header. -/
theorem gro_checksums {s : Sys} {k : GroKey} {m : Merged}
    (h : Reach step (fun _ ev => Sane k ev) {} s) (hm : .merged k m ∈ s.out) : Verifies k m := by
  suffices hinv : Right k (s.out, s.tbl) from hinv.1 m hm
  refine h.invariant (I := fun s => Right k (s.out, s.tbl)) ⟨by simp, fun e he => ?_⟩ ?_
  · rw [LawfulRteHash.lookup_create] at he
    cases he
  intro s ev s' hs hsane hstep
  have hright : ∀ {res : List Out × Table}, Right k res → Right k (s.out ++ res.1, res.2) := by
    intro res hres
    refine ⟨fun m hm => ?_, hres.2⟩
    rcases List.mem_append.mp hm with hm | hm
    · exact hs.1 m hm
    · exact hres.1 m hm
  cases ev with
  | frame env f =>
    cases hstep
    exact hright (process_right hsane hs.2)
  | tick env =>
    cases hstep
    exact hright (round_right hs.2)

end Library

open scoped Sample

/-- The two short segments, merged. -/
def shortMerged : Merged where
  nhId := 5
  l2Len := 0
  head :=
    { headroom := []
      data := [69, 0, 0, 44, 0, 0, 0, 0, 64, 6, 102, 202, 10, 0, 0, 1, 10, 0, 0, 2,
        0, 80, 0, 81, 0, 0, 0, 1, 0, 0, 0, 1, 80, 16, 0, 100, 150, 193, 0, 0, 1, 2] }
  rest := [(rtePktmbufAdj (shortFrame true false).head 40).getD ⟨[], []⟩]
  pktLen := 44
  nbSegs := 2
  tsoSegsz := 2

theorem gro_checksums_short :
    .merged shortKey shortMerged ∈ (shortState 3).out ∧ Verifies shortKey shortMerged := by
  have hsane : ∀ second env, Sane shortKey (.frame env (shortFrame second false)) := by
    intro second env p hp _ _ _
    obtain rfl : shortPart = p := Option.some.inj ((shortFrame_part second).symm.trans hp)
    refine ⟨shortFrame_plain second, fun _ => .inl ?_⟩
    clear hp
    revert second
    decide +kernel
  have h₁ : Reach step (fun _ ev => Sane shortKey ev) {} (shortState 1) :=
    Reach.init.step _ (hsane false ⟨oneGuest, 0, true, true⟩) rfl
  have h₂ : Reach step (fun _ ev => Sane shortKey ev) {} (shortState 2) :=
    h₁.step _ (hsane true ⟨oneGuest, 0, true, true⟩) rfl
  have h₃ : Reach step (fun _ ev => Sane shortKey ev) {} (shortState 3) :=
    h₂.step (.tick ⟨oneGuest, 10000, true, true⟩) trivial rfl
  have hmem : .merged shortKey shortMerged ∈ (shortState 3).out := by decide +kernel
  exact ⟨hmem, gro_checksums h₃ hmem⟩

end Vrouter.Gro
