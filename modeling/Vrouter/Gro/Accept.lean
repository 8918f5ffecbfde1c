import Vrouter.Gro.Csum
import Vrouter.Gso.Exact

/-! # Which segments are dropped

`dpdk_gro_process` computes the checksum of a segment anew and drops the segment if that is not the
one it has (`dropped_iff`).  The computed one is zero for both representations of zero, so it is the
one of the segment exactly if that is right and not all ones (`computedCsum_eq_iff`).  Segmentation
writes right checksums (`MadeBy.verifies`), and with them all ones for zero if the library does: such a
segment is dropped, though its sum is right (`allOnes_dropped`). -/

namespace Vrouter.Gro

open Vrouter.Lib Vrouter.Packet Vrouter.Dpdk

variable {env : Env} {dev : Vif} {f g : Frame} {p : IpPart} {r : Router} {k : GroKey} {e : GroEntry}

/-- The checksum of a frame is looked at. -/
structure Checked (env : Env) (f : Frame) (p : IpPart) : Prop where
  vif : f.vif.groNeeded = true ∧ f.vif.mrgRxbuf = true
  target : (env.router.target f).isSome = true
  mergeable : f.flush p = false

instance : Decidable (Checked env f p) :=
  decidable_of_iff ((f.vif.groNeeded = true ∧ f.vif.mrgRxbuf = true) ∧
    (env.router.target f).isSome = true ∧ f.flush p = false)
    ⟨fun h => ⟨h.1, h.2.1, h.2.2⟩, fun h => ⟨h.1, h.2, h.3⟩⟩

section Library

variable [Rte]

/-! ### Where a frame is dropped -/

theorem flush_not_dropped : dpdkGroFlush r k e ≠ .cksumErr f := by
  unfold dpdkGroFlush
  cases r.deliver e <;> exact nofun

section Dropped

variable [RteHash GroKey GroEntry] {tbl : Table}

theorem create_not_dropped : .cksumErr f ∉ (create env dev tbl g p).1 := by
  unfold create
  split_ifs <;> simp

theorem update_not_dropped : .cksumErr f ∉ (update env dev tbl g p).1 := by
  have hflush : ∀ {e : GroEntry} {outs : List Out}, .cksumErr f ∉ outs →
      .cksumErr f ∉ dpdkGroFlush env.router p.key e :: outs := by
    intro e outs h hmem
    rcases List.mem_cons.mp hmem with heq | hmem
    · exact flush_not_dropped heq.symm
    · exact h hmem
  unfold update
  cases rteHashLookupData tbl p.key with
  | none => exact create_not_dropped
  | some e =>
    dsimp only
    split_ifs
    · exact hflush (by simp)
    · exact hflush create_not_dropped
    · exact hflush (by simp)
    · exact hflush (by simp)
    · simp

/-- **A frame is dropped** exactly if its checksum is looked at and is not the computed one. -/
theorem dropped_iff (hp : f.part = some p) : .cksumErr f ∈ (dpdkGroProcess env tbl f).1 ↔
    Checked env f p ∧ tcpCsum f.nw p.hlen ≠ f.computedCsum p := by
  have hparse : parseIp f.vif.vifIdx f.nw = some p := hp
  unfold dpdkGroProcess
  by_cases hvif : f.vif.groNeeded ∧ f.vif.mrgRxbuf
  swap
  · rw [if_pos hvif]
    exact iff_of_false (by simp) fun h => hvif h.1.vif
  rw [if_neg (not_not.mpr hvif), hparse]
  cases htarget : env.router.target f with
  | none =>
    refine iff_of_false (by simp) fun h => ?_
    have hsome := h.1.target
    rw [htarget] at hsome
    cases hsome
  | some dev =>
    dsimp only
    by_cases hflush : f.flush p = true
    · rw [if_pos hflush]
      exact iff_of_false update_not_dropped fun h => absurd (hflush.symm.trans h.1.mergeable) (by decide)
    rw [if_neg hflush]
    have hchecked : Checked env f p := ⟨hvif, by rw [htarget]; rfl, by simpa using hflush⟩
    by_cases hcsum : tcpCsum f.nw p.hlen = f.computedCsum p
    · rw [← hcsum, if_neg (not_not.mpr rfl)]
      exact iff_of_false update_not_dropped fun h => h.2 rfl
    · rw [if_pos fun heq => hcsum (swap16_injective (le16_lt _ _) (computedCsum_lt f p) heq)]
      exact iff_of_true (List.mem_singleton.mpr rfl) ⟨hchecked, hcsum⟩

end Dropped

/-! ### Valid segments -/

omit [Rte] in
theorem segment_of_part (hp : f.part = some p) (hflush : f.flush p = false) (htcp : 20 ≤ p.l4Len)
    (hin : p.hlen + p.l4Len ≤ f.nw.length) : Segment f.vif.vifIdx f.nw p := by
  have hpflush : p.flush = false := by
    simp only [Frame.flush, Bool.or_eq_false_iff] at hflush
    exact hflush.1.1.1.2
  exact ⟨hp, parseIp_hlen hp hpflush, htcp, hin, f.nw_lt⟩

theorem computedCsum_ne_ones (f : Frame) (p : IpPart) : f.computedCsum p ≠ 65535 := by
  unfold Frame.computedCsum
  dsimp only
  generalize (if p.key.isIpv6 = true then _ else _ : Fin (2 ^ 16)) = c
  split_ifs with hc
  · decide
  · exact hc

variable [LawfulRte]

/-- **The computed checksum is that of the segment** exactly if that is right and not all ones. -/
theorem computedCsum_eq_iff (h : Segment f.vif.vifIdx f.nw p) :
    tcpCsum f.nw p.hlen = f.computedCsum p ↔
      TcpVerifies p f.nw ∧ tcpCsum f.nw p.hlen ≠ 65535 := by
  have hcast := computedCsum_cast h
  have hne := computedCsum_ne_ones f p
  constructor
  · intro heq
    rw [← heq] at hcast hne
    refine ⟨(tcpVerifies_iff h.part f.nw).mpr ?_, hne⟩
    linear_combination hcast
  · rintro ⟨hv, hones⟩
    rw [(tcpVerifies_iff h.part f.nw).mp hv, sub_zero] at hcast
    have hiff := (cast_eq_iff (computedCsum_lt f p) (le16_lt f.nw (p.hlen + 16))).mp hcast
    unfold tcpCsum at hones ⊢
    omega

/-! ### Segments that were made -/

/-- The checksum of the IPv4 header does not count in that of the segment. -/
theorem ipv4UdptcpCksum_cast {b c : List Byte} (h : SameOutside 10 12 b c) (hhl : ipHl c = 5)
    (hle : 20 ≤ be16 c 2) (hlen : be16 c 2 ≤ c.length) :
    ((rteIpv4UdptcpCksum b 20 : ℕ) : ZMod 65535) = ((rteIpv4UdptcpCksum c 20 : ℕ) : ZMod 65535) := by
  have hbe : be16 c 2 = be16 b 2 := by
    rw [be16, be16, h.bytes 2 (by omega), h.bytes 3 (by omega)]
  have hhl' : ipHl c = ipHl b := by rw [ipHl, ipHl, h.bytes 0 (by omega)]
  have hphdr : ipv4PhdrSum c = ipv4PhdrSum b := by
    rw [ipv4PhdrSum, ipv4PhdrSum, h.slice (.inr (by omega)), hbe, ipProto, ipProto,
      h.bytes 9 (by omega)]
  rw [LawfulRte.ipv4Udptcp c hhl hle hlen, LawfulRte.ipv4Udptcp b (hhl'.symm.trans hhl) (by omega)
    (by rw [← hbe, ← h.length]; exact hlen), hphdr, hbe, h.slice (.inr (by omega))]

variable {st : Gso.GsoState} {v : ℕ}

/-- **Segmentation writes a right checksum.** -/
theorem segmentInner_verifies {first last : Bool} {olFlags pktLen : ℕ} {ip x : List Byte}
    (hoff : st.txCksumOffload = false) (h6 : st.isIpv6 = p.key.isIpv6) (hhlen : st.ipHlen = p.hlen)
    (hx : x = Gso.segmentInner st first last olFlags pktLen ip) (h : Segment v x p) :
    TcpVerifies p x := by
  -- what is there before the checksums are written
  obtain ⟨z, hz⟩ : ∃ z, z = Gso.writeLengths st pktLen
    (Gso.writeFlags first last ip st.ipHlen) := ⟨_, rfl⟩
  rw [Gso.segmentInner_eq, ← hz, Gso.writeCsums, hoff, h6, hhlen] at hx
  have hzlen : x.length = z.length := by
    rw [hx]
    dsimp only
    split_ifs <;> simp
  have hin : p.hlen + 16 + 1 < z.length := by
    have := h.inside
    have := h.tcp
    omega
  have hcast := h.udptcpCksum_cast
  suffices hfield : (tcpCsum x p.hlen : ZMod 65535) = tcpCsum x p.hlen - tcpSum p x by
    rw [tcpVerifies_iff h.part]
    linear_combination hfield
  rw [← hcast]
  cases hv : p.key.isIpv6 with
  | true =>
    rw [hv, if_pos rfl] at hx
    dsimp only at hx
    rw [if_neg Bool.false_ne_true] at hx
    rw [if_pos rfl, hx, set16_set16, set16_set16, tcpCsum,
      le16_set16_self hin (Fin.isLt _)]
  | false =>
    obtain ⟨hhl, hbe⟩ := h.ipv4 hv
    have h20 : p.hlen = 20 := by
      rw [h.hlen, hv]
      rfl
    rw [hv, if_neg Bool.false_ne_true, if_neg Bool.false_ne_true, h20] at hx
    dsimp only at hx
    rw [if_neg Bool.false_ne_true, h20]
    have hfield : tcpCsum x 20 = rteIpv4UdptcpCksum (set16 z (20 + 16) 0) 20 := by
      rw [hx, tcpCsum, le16_set16_of_disjoint (by omega), le16_set16_of_disjoint (by omega),
        le16_set16_self (by rw [set16_length]; omega) (Fin.isLt _)]
    have hsame : SameOutside 10 12 (set16 z (20 + 16) 0) (set16 x (20 + 16) 0) := by
      rw [hx, set16_comm (i := 10) (j := 20 + 16) (by omega),
        set16_comm (i := 10) (j := 20 + 16) (by omega), set16_set16 _ (20 + 16),
        set16_set16 _ (20 + 16)]
      exact (set16_sameOutside ..).trans (set16_sameOutside ..)
    have hkeep : ∀ j < 36, u8 (set16 x (20 + 16) 0) j = u8 x j :=
      fun j hj => u8_set16_of_ne (by omega) 0
    have hlen' := h.inside
    rw [hfield]
    refine ipv4UdptcpCksum_cast hsame ?_ ?_ ?_
    · rw [ipHl, hkeep 0 (by omega)]
      exact hhl
    · rw [be16_of_u8 (hkeep 2 (by omega)) (hkeep 3 (by omega))]
      omega
    · rw [be16_of_u8 (hkeep 2 (by omega)) (hkeep 3 (by omega)), set16_length]
      omega

omit [LawfulRte] in
/-- The inner packet of a segment, as the first pass writes it. -/
structure MadeBy (isIpv6 csum : Bool) (ip : List Byte) (st : Gso.GsoState) (x : List Byte) : Prop where
  version : st.isIpv6 = isIpv6
  offload : st.txCksumOffload = csum
  hlen : st.ipHlen = Gso.innerHlen isIpv6 ip
  inside : 20 ≤ st.ipHlen ∧ st.ipHlen + 20 ≤ ip.length
  small : st.macHlen + ip.length < 2 ^ 16
  made : ∃ first last olFlags,
    x = Gso.segmentInner st first last olFlags (st.macHlen + ip.length) ip

/-- **Every segment is made by the first pass.** -/
theorem loops_made {isIpv6 csum : Bool} {L : ℕ} {h₀ : List Byte} (hh : Gso.Headers isIpv6 L h₀)
    {out : List Gso.Buf} {pays : List (List Byte)} {mbufIn : Gso.MbufMd} (first : Bool) {sent : ℕ} (v : ℕ)
    (hst : Gso.Along isIpv6 L h₀ sent st) (hoff : st.txCksumOffload = csum)
    (hall : List.Forall₂ (Gso.Carries (h₀.take (L + Gso.payloadOff isIpv6 (h₀.drop L)))) out pays) :
    ∀ m ∈ Gso.adjustLoop L mbufIn v (Gso.segmentLoop first st out),
      ∃ ip st, MadeBy isIpv6 csum ip st (m.data.drop L) := by
  induction hall generalizing first sent st v with
  | nil => exact nofun
  | @cons m pay ms pays hm _ ih =>
    have htcp := hh.tcp
    obtain ⟨hlen, hbytes⟩ := hm.headers hh
    have hL : L ≤ m.data.length := by omega
    rw [Gso.segmentLoop, Gso.adjustLoop_cons]
    intro m' hm'
    rcases List.mem_cons.mp hm' with rfl | hm'
    · have hL' : L ≤ (Gso.segmentOne st first ms.isEmpty m).data.length := by
        rwa [Gso.segmentOne_length]
      obtain ⟨hone, -⟩ := Gso.adjust_data hL' v
      have hfits := hh.outer.congr (d := (Gso.segmentOne st first ms.isEmpty m).data)
        fun j hj => by rw [Gso.segmentOne_outer hL hst.mac hj, hbytes j (by omega)]
      have hmac : st.macHlen + (m.data.drop L).length = m.data.length := by
        rw [hst.mac, List.length_drop]
        omega
      refine ⟨m.data.drop L, st, hst.version, hoff, ?_, ⟨hst.ip ▸ hh.ip, ?_⟩, hmac ▸ hm.2, first,
        ms.isEmpty, m.md.olFlags, ?_⟩
      · rw [hst.ip, (hh.copied hbytes).1]
      · rw [List.length_drop, hlen, hst.ip]
        omega
      · rw [hone, hmac, ← Gso.segmentOne_inner hL hst.mac]
        exact Gso.writeOuter_drop hfits
    · obtain ⟨-, -, -, -, hkeep⟩ := Gso.next_keeps st m.data.length
      exact ih false _ (hst.next (hst.hlen.symm ▸ hlen)) (hkeep.trans hoff) m' hm'

/-- **A segment that was made is all there and has a right checksum.** -/
theorem MadeBy.verifies {isIpv6 : Bool} {ip x : List Byte} (h : MadeBy isIpv6 false ip st x)
    (hx : f.nw = x) (hp : f.part = some p) (hflush : f.flush p = false)
    (hver : p.key.isIpv6 = isIpv6) : Segment f.vif.vifIdx f.nw p ∧ TcpVerifies p f.nw := by
  obtain ⟨first, last, olFlags, hmade⟩ := h.made
  have hparsed := parseIp_parsed hp
  have hin := h.inside
  have hxlen : f.nw.length = ip.length := by rw [hx, hmade, Gso.segmentInner_length]
  have hst : st.ipHlen = Gso.innerHlen st.isIpv6 ip := by rw [h.version, h.hlen]
  -- the IP header is as long for merging as for segmentation
  have hsame : st.ipHlen = p.hlen := by
    have hinner : Gso.innerHlen st.isIpv6 x = st.ipHlen := by
      rw [hmade]
      exact (Gso.segmentInner_off hst hin.1).1
    rw [← hinner, h.version, ← hver, hparsed.hlen, ← hx]
    rfl
  have hlen : Gso.innerLen p.key.isIpv6 f.nw = f.nw.length := by
    rw [hxlen, hver, ← h.version, hx, hmade]
    exact Gso.segmentInner_len hst hin.1 hin.2 rfl h.small
  have hpflush : p.flush = false := by
    simp only [Frame.flush, Bool.or_eq_false_iff] at hflush
    exact hflush.1.1.1.2
  have hphlen := parseIp_hlen hp hpflush
  have hl4 : p.hlen + p.l4Len = f.nw.length := by
    have hlt := f.nw_lt
    have hhl := hparsed.hlen.symm.trans hphlen
    rw [hparsed.l4Len]
    unfold Gso.innerLen at hlen
    split_ifs at hlen hphlen hhl ⊢ <;> omega
  have hseg := segment_of_part hp hflush (by omega) hl4.le
  refine ⟨hseg, ?_⟩
  rw [hx] at hseg ⊢
  exact segmentInner_verifies h.offload (h.version.trans hver.symm) hsame hmade hseg

omit [LawfulRte] in
/-- A frame is a segment that `dpdk_segment_packet` made, with the checksums in software. -/
def Emitted (f : Frame) (p : IpPart) : Prop :=
  ∃ vrIpId c L outNum mss out, Gso.Headers p.key.isIpv6 L c.head.data ∧
    Gso.dpdkSegmentPacket vrIpId c p.key.isIpv6 L outNum mss false = .segments out ∧
    ∃ m ∈ out, f.nw = m.data.drop L

theorem Emitted.verifies (h : Emitted f p) (hp : f.part = some p) (hflush : f.flush p = false) :
    Segment f.vif.vifIdx f.nw p ∧ TcpVerifies p f.nw := by
  obtain ⟨vrIpId, c, L, outNum, mss, out, hh, hout, m, hm, hnw⟩ := h
  obtain ⟨st, split, hst, hsplit, rfl⟩ := Gso.segments_eq hout
  have halong := Gso.Along.init hst
  have hoff : st.txCksumOffload = false := by
    unfold Gso.dpdkGsoInitState at hst
    dsimp only at hst
    rw [if_neg (not_not.mpr hh.proto)] at hst
    cases hst
    rfl
  rw [halong.hlen] at hsplit
  obtain ⟨ip, st', hmade⟩ := loops_made hh true vrIpId halong hoff
    (Gso.split_ok hh.inside hsplit).1 m hm
  exact hmade.verifies hnw hp hflush rfl

/-- **Which valid segments are dropped**: a segment that is all there is dropped with a right sum exactly
if its checksum is looked at and is all ones, and so is a segment that segmentation made. -/
theorem gro_accepts [RteHash GroKey GroEntry] {env : Env} {tbl : Table} {f : Frame} {p : IpPart}
    (hp : f.part = some p) :
    (20 ≤ p.l4Len → p.hlen + p.l4Len ≤ f.nw.length →
      ((.cksumErr f ∈ (dpdkGroProcess env tbl f).1 → ¬ TcpVerifies p f.nw) ↔
        ¬ (Checked env f p ∧ TcpVerifies p f.nw ∧ tcpCsum f.nw p.hlen = 0xFFFF))) ∧
    (Emitted f p → (.cksumErr f ∉ (dpdkGroProcess env tbl f).1 ↔
      ¬ (Checked env f p ∧ tcpCsum f.nw p.hlen = 0xFFFF))) := by
  rw [dropped_iff hp]
  refine ⟨fun htcp hin => ?_, fun hmade => not_congr (and_congr_right fun hchecked => ?_)⟩
  · have hiff : Checked env f p → _ := fun hc =>
      computedCsum_eq_iff (segment_of_part hp hc.mergeable htcp hin)
    constructor
    · rintro h ⟨hc, hv, hones⟩
      exact h ⟨hc, fun heq => ((hiff hc).mp heq).2 hones⟩ hv
    · rintro h ⟨hc, hne⟩ hv
      exact hne ((hiff hc).mpr ⟨hv, fun hones => h ⟨hc, hv, hones⟩⟩)
  · obtain ⟨hseg, hv⟩ := hmade.verifies hp hchecked.mergeable
    rw [Ne, computedCsum_eq_iff hseg]
    exact ⟨fun h => by_contra fun hones => h ⟨hv, hones⟩, fun hones h => h.2 hones⟩

end Library

/-! ### A segment with a checksum of all ones -/

open scoped Sample

theorem gro_accepts_short :
    Checked ⟨oneGuest, 0, true, true⟩ (shortFrame false false) shortPart ∧
      TcpVerifies shortPart (shortFrame false false).nw ∧ .cksumErr (shortFrame false false) ∉
        (dpdkGroProcess ⟨oneGuest, 0, true, true⟩ rteHashCreate (shortFrame false false)).1 := by
  have hv : TcpVerifies shortPart (shortFrame false false).nw := by decide +kernel
  refine ⟨by decide +kernel, hv, fun hdrop => ?_⟩
  exact ((gro_accepts (shortFrame_part false)).1 (by decide) (by decide +kernel)).mpr
    (by decide +kernel) hdrop hv

/-- A packet of one buffer whose words sum to all ones without the checksum. -/
def onesChain : Gso.Chain where
  head :=
    { addr := 1
      mbuf := ⟨[], Gso.greHeaders.take 75 ++ [16, 0, 100, 0, 0, 0, 0, 154, 201]⟩ }
  rest := []
  nbSegs := 1
  pktLen := 84
  fits := by decide
  distinct := by decide

/-- Its one segment, as it comes out of the tunnel. -/
def onesFrame : Frame where
  vif := { vifIdx := 3 }
  vgVifId := 1
  vgNhId := 5
  head :=
    { headroom := []
      data := [69, 0, 0, 42, 0, 7, 0, 0, 64, 6, 102, 197, 10, 0, 0, 1, 10, 0, 0, 2,
        0, 80, 0, 81, 0, 0, 0, 1, 0, 0, 0, 1, 80, 16, 0, 100, 255, 255, 0, 0, 154, 201] }
  nwOff := 0
  fits := by decide

/-- **A valid segment is dropped**: its sum is all ones, and so is its checksum, which no library makes
`dpdk_gro_process` compute.  With a library that writes all ones for zero, segmentation makes it. -/
theorem allOnes_dropped :
    onesFrame.part = some shortPart ∧ TcpVerifies shortPart onesFrame.nw ∧
    (∀ [Rte] [RteHash GroKey GroEntry] (tbl : Table),
      .cksumErr onesFrame ∈ (dpdkGroProcess ⟨oneGuest, 0, true, true⟩ tbl onesFrame).1) ∧
    ∃ m, Gso.dpdkSegmentPacket 0 onesChain false 42 2 2 false = .segments [m] ∧
      onesFrame.nw = m.data.drop 42 := by
  have hpart : onesFrame.part = some shortPart := by decide +kernel
  have hfield : tcpCsum onesFrame.nw shortPart.hlen = 65535 := by decide +kernel
  refine ⟨hpart, by decide +kernel, fun tbl => (dropped_iff hpart).mpr ⟨by decide +kernel, ?_⟩,
    (Gso.adjustLoop 42 {} 0 (Gso.segmentLoop true ⟨false, 42, 20, 82, 1, 7, false⟩
      [onesChain.head])).headD onesChain.head, ?_, ?_⟩
  · rw [hfield]
    exact (computedCsum_ne_ones _ _).symm
  all_goals decide +kernel

end Vrouter.Gro
