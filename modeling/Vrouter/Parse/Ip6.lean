import Vrouter.Parse.Bounds

/-! # Transport parsing of IPv6

What `vr_ip_transport_parse` returns for a packet of IPv6 should not depend on its addresses, and the
checksum that it reports should be that of the transport header.  One line is in the way: whether the
packet is one of UDP is looked up in `iph->ip_proto`, and in a header of IPv6 that byte is the second
of the source address (`vrIpTransportParse_address`).  So the checksum of UDP is reported for some
source addresses only, that of ICMPv6 never, unless the numbers that are read instead happen to agree
(`vrIpTransportParse_ip6`). -/

namespace Vrouter.Parse

open Vrouter.Lib Vrouter.Packet

variable {va va' : List Byte} {off fragSize pullLen hlen tcph icmph : ℕ} {adj : Option MssAdj}
  {toVmMssAdj : Bool}

/-! ### Packets that differ in their addresses -/

/-- Two results agree in all but the buffer. -/
structure SameOutputs (r r' : Transport) : Prop where
  thp : r.thp = r'.thp
  hlen : r.hlen = r'.hlen
  thCsum : r.thCsum = r'.thCsum
  tcphPullLen : r.tcphPullLen = r'.tcphPullLen
  pullLen : r.pullLen = r'.pullLen

/-- The same for a part of the packet. -/
structure SameParsed (p p' : Parsed) : Prop where
  thCsum : p.thCsum = p'.thCsum
  pullLen : p.pullLen = p'.pullLen

theorem fits_alike (fragSize pullLen : ℕ) :
    Alike Eq (fits fragSize pullLen) (fits fragSize pullLen) := Alike.of_eq rfl

section

-- the addresses are the bytes from eight to forty of the header
variable (h : SameOutside (off + 8) (off + ip6HdrSize) va va')
include h

theorem vrIp6TransportHeaderValid_alike :
    Alike Eq (vrIp6TransportHeaderValid va off) (vrIp6TransportHeaderValid va' off) := by
  refine .bind (.readU8 h (Or.inl (by omega))) fun nxt _ heq => ?_
  rw [heq]
  refine .ite (fun _ => ?_) fun _ => .pure rfl
  exact .bind (.readLe16 h (by omega)) fun _ _ heq => Alike.of_eq (by rw [heq])

theorem parseIp6_alike :
    Alike (fun net net' => net = net' ∧ ip6HdrSize ≤ net.hlen)
      (parseIp6 va off fragSize pullLen) (parseIp6 va' off fragSize pullLen) := by
  refine .bind (.readU8 h (Or.inl (by omega))) fun nxt _ heq => ?_
  rw [heq]
  refine .ite (fun _ => ?_) fun _ => ?_
  · refine .bind (fits_alike _ _) fun _ _ _ => ?_
    refine .bind (.readU8 h (Or.inr (le_refl _))) fun proto _ hproto => ?_
    refine .bind (vrIp6TransportHeaderValid_alike h) fun valid _ hvalid => ?_
    rw [hproto, hvalid]
    exact .pure ⟨rfl, Nat.le_add_right _ _⟩
  · refine .bind (vrIp6TransportHeaderValid_alike h) fun valid _ hvalid => ?_
    rw [hvalid]
    exact .pure ⟨rfl, le_refl _⟩

theorem MssAdj.apply_sameOutside (adj : MssAdj) (htcph : off + ip6HdrSize ≤ tcph)
    (hle : tcph ≤ va.length) (hlen : ℕ) :
    SameOutside (off + 8) (off + ip6HdrSize) (adj.apply va tcph hlen) (adj.apply va' tcph hlen) := by
  have hlength := h.length
  have hdrop : va'.drop tcph = va.drop tcph :=
    drop_congr hlength fun j hj => h.bytes j (Or.inr (htcph.trans hj))
  refine ⟨?_, fun j hj => ?_⟩
  · rw [adj.apply_length (by omega), adj.apply_length hle, hlength]
  · have hbytes := h.bytes j hj
    rw [MssAdj.apply, MssAdj.apply, hdrop]
    simp only [u8, List.getD_eq_getElem?_getD, List.getElem?_append, List.length_take, hlength,
      min_eq_left hle] at hbytes ⊢
    split_ifs with hlt
    · rwa [List.getElem?_take_of_lt hlt, List.getElem?_take_of_lt hlt]
    · rfl

theorem adjustMss_alike (htcph : off + ip6HdrSize ≤ tcph) :
    Alike (SameOutside (off + 8) (off + ip6HdrSize)) (adjustMss va tcph hlen adj toVmMssAdj)
      (adjustMss va' tcph hlen adj toVmMssAdj) := by
  by_cases hread : tcph + 12 + 2 ≤ va.length
  · refine .bind (.readLe16 h (by omega)) fun flags _ heq => ?_
    rw [heq]
    refine .ite (fun _ => ?_) fun _ => .pure h
    cases adj with
    | none => exact .leave _
    | some adj => exact .pure (adj.apply_sameOutside h htcph (by omega) _)
  · have hoob : ∀ b : List Byte, b.length = va.length →
        adjustMss b tcph hlen adj toVmMssAdj = .error .oob := by
      intro b hb
      have hnot : ¬ tcph + 12 + 2 ≤ b.length := by omega
      unfold adjustMss
      rw [readLe16, if_neg hnot]
      rfl
    rw [hoob va rfl, hoob va' h.length]
    rfl

end

theorem parseTcp_alike (h : SameOutside (off + 8) (off + ip6HdrSize) va va')
    (htcph : off + ip6HdrSize ≤ tcph) :
    Alike SameParsed (parseTcp va tcph hlen fragSize pullLen adj toVmMssAdj)
      (parseTcp va' tcph hlen fragSize pullLen adj toVmMssAdj) := by
  refine .bind (adjustMss_alike h htcph) fun b b' hb => ?_
  refine .bind (.readLe16 hb (by omega)) fun flags _ heq => ?_
  rw [heq]
  refine .ite (fun _ => ?_) fun _ => ?_
  · refine .bind (fits_alike _ _) fun _ _ _ => ?_
    exact .bind (.readLe16 hb (by omega)) fun _ _ hcsum => .pure ⟨hcsum, rfl⟩
  · exact .bind (.readLe16 hb (by omega)) fun _ _ hcsum => .pure ⟨hcsum, rfl⟩

section

variable (h : SameOutside (off + 8) (off + ip6HdrSize) va va')
include h

theorem readCsum_alike {icmp proto thdr thCsum : ℕ} (hthdr : off + ip6HdrSize ≤ thdr) :
    Alike Eq (readCsum va icmp proto thdr thCsum) (readCsum va' icmp proto thdr thCsum) := by
  unfold readCsum
  refine .ite (fun _ => ?_) fun _ => .ite (fun _ => ?_) fun _ => .ite (fun _ => ?_) fun _ => .pure rfl
  · exact .readLe16 h (by omega)
  · exact .readLe16 h (by omega)
  · exact .readLe16 h (by omega)

theorem parseIcmp_alike (hicmph : off + ip6HdrSize ≤ icmph) :
    Alike SameParsed (parseIcmp va icmph fragSize pullLen) (parseIcmp va' icmph fragSize pullLen) := by
  refine .bind (.readLe16 h (by omega)) fun csum _ hcsum => ?_
  refine .bind (.readU8 h (by omega)) fun type _ htype => ?_
  rw [hcsum, htype]
  refine .ite (fun _ => ?_) fun _ => .pure ⟨rfl, rfl⟩
  refine .bind (fits_alike _ _) fun _ _ _ => ?_
  refine .bind (.readU8 h (by omega)) fun hl hl' hhl => ?_
  rw [hhl]
  dsimp only
  generalize add32 (add32 pullLen vrIpSize) (hl' % 16 * 4 + (2 ^ 32 - vrIpSize)) = pullLen₁
  refine .bind (fits_alike _ _) fun _ _ _ => ?_
  refine .bind (.readU8 h (by omega)) fun proto _ hproto => ?_
  rw [hproto]
  refine .ite (fun _ => ?_) fun _ => .pure ⟨rfl, rfl⟩
  refine .bind (fits_alike _ _) fun _ _ _ => ?_
  exact .bind (readCsum_alike h (by omega)) fun _ _ heq => .pure ⟨heq, rfl⟩

theorem parseQuoted6_alike {ip6h : ℕ} (hip6h : off + ip6HdrSize ≤ ip6h) :
    Alike SameParsed (parseQuoted6 va ip6h fragSize pullLen)
      (parseQuoted6 va' ip6h fragSize pullLen) := by
  refine .bind (.readU8 h (by omega)) fun nxt _ hnxt => ?_
  rw [hnxt]
  refine .ite (fun _ => .ite (fun _ => ?_) fun _ => ?_) fun _ => .pure ⟨rfl, rfl⟩
  · refine .bind (fits_alike _ _) fun _ _ _ => ?_
    refine .bind (.readU8 h (by omega)) fun proto _ hproto => ?_
    rw [hproto]
    exact .bind (readCsum_alike h (by omega)) fun _ _ heq => .pure ⟨heq, rfl⟩
  · refine .bind (fits_alike _ _) fun _ _ _ => ?_
    exact .bind (readCsum_alike h (by omega)) fun _ _ heq => .pure ⟨heq, rfl⟩

theorem parseIcmp6_alike (hicmph : off + ip6HdrSize ≤ icmph) :
    Alike SameParsed (parseIcmp6 va icmph fragSize pullLen)
      (parseIcmp6 va' icmph fragSize pullLen) := by
  refine .bind (.readU8 h (Or.inr hicmph)) fun type _ htype => ?_
  rw [htype]
  refine .bind (R := SameParsed) ?_ fun p p' hp => ?_
  · refine .ite (fun _ => .pure ⟨rfl, rfl⟩) fun _ => .ite (fun _ => .pure ⟨rfl, rfl⟩) fun _ => ?_
    refine .ite (fun _ => ?_) fun _ => .pure ⟨rfl, rfl⟩
    exact .bind (fits_alike _ _) fun _ _ _ => parseQuoted6_alike h (by omega)
  · rw [hp.pullLen]
    exact .bind (fits_alike _ _) fun _ _ _ => .pure hp

end

theorem parseNetwork_alike (hip6 : u8 va off / 16 = 6)
    (h : SameOutside (off + 8) (off + ip6HdrSize) va va') :
    Alike (fun net net' => net = net' ∧ ip6HdrSize ≤ net.hlen)
      (parseNetwork va off (some off) fragSize pullLen)
      (parseNetwork va' off (some off) fragSize pullLen) := by
  have hread : Alike (fun b b' => b = b' ∧ b = true) (vrIpIsIp6 va off) (vrIpIsIp6 va' off) := by
    unfold vrIpIsIp6 readU8
    rw [h.length, h.bytes off (Or.inl (by omega))]
    split_ifs
    · exact ⟨rfl, decide_eq_true hip6⟩
    · rfl
  refine .bind hread fun b b' hb => ?_
  obtain ⟨rfl, rfl⟩ := hb
  exact parseIp6_alike h

/-- The two branches that a packet can take by its source address do the same: the checksum of UDP
would be zero, and the packet is no message of ICMPv6 of which more has to be pulled. -/
structure UdpZero (va : List Byte) (thdr ipProto : ℕ) : Prop where
  length : thdr + 8 ≤ va.length
  csum : le16 va (thdr + 6) = 0
  icmp6 : ipProto = vrIpProtoIcmp6 → 128 ≤ u8 va thdr ∧ u8 va thdr ≠ vrIcmp6TypeNeighSol ∧
    u8 va thdr ≠ vrIcmp6TypeRouterSol

/-- The addresses of the two packets make no difference: the branch that asks for UDP is not reached,
or it is answered in the same way, or the answer does not matter. -/
def AddressFree (va va' : List Byte) (off pullLen : ℕ) : Prop :=
  ∀ net, Reached va off (some off) pullLen net →
    (u8 va (off + 9) = vrIpProtoUdp ↔ u8 va' (off + 9) = vrIpProtoUdp) ∨
      UdpZero va (off + net.hlen) net.ipProto

/-- The branch for UDP. -/
def udpBranch (va : List Byte) (thdr pullLen : ℕ) : Checked PktRet Parsed := do
  let thCsum ← readLe16 va (thdr + 6)
  pure ⟨va, thCsum, pullLen⟩

/-- The branches behind it. -/
def otherBranch (va : List Byte) (thdr ipProto fragSize pullLen : ℕ) : Checked PktRet Parsed :=
  if ipProto = vrIpProtoIcmp6 then parseIcmp6 va thdr fragSize pullLen else pure ⟨va, 0, pullLen⟩

theorem parseProto_branch {ipProto : ℕ} (htcp : ipProto ≠ vrIpProtoTcp)
    (hicmp : ipProto ≠ vrIpProtoIcmp) (hlen9 : off + 9 + 1 ≤ va.length) :
    parseProto va off (some off) ipProto hlen fragSize pullLen adj toVmMssAdj =
      if u8 va (off + 9) = vrIpProtoUdp then udpBranch va (off + hlen) pullLen
      else otherBranch va (off + hlen) ipProto fragSize pullLen := by
  have hread : (readU8 va (off + 9) : Checked PktRet ℕ) = .ok _ := if_pos hlen9
  rw [parseProto, if_neg htcp, if_neg hicmp, hread]
  rfl

theorem UdpZero.branches {thdr ipProto : ℕ} (h : UdpZero va thdr ipProto) (hpull : pullLen ≤ fragSize) :
    udpBranch va thdr pullLen = .ok ⟨va, 0, pullLen⟩ ∧
      otherBranch va thdr ipProto fragSize pullLen = .ok ⟨va, 0, pullLen⟩ := by
  have hlength := h.length
  constructor
  · have hread : (readLe16 va (thdr + 6) : Checked PktRet ℕ) = .ok 0 := by
      rw [readLe16, if_pos (by omega), h.csum]
    rw [udpBranch, hread]
    rfl
  · unfold otherBranch
    split_ifs with hproto
    · obtain ⟨htype, hsol, hrsol⟩ := h.icmp6 hproto
      have hread : (readU8 va thdr : Checked PktRet ℕ) = .ok _ := if_pos (by omega)
      have hparse : parseIcmp6Type va (u8 va thdr) thdr fragSize pullLen = .ok ⟨va, 0, pullLen⟩ := by
        rw [parseIcmp6Type, if_neg hsol, if_neg hrsol, if_neg (by omega)]
        rfl
      rw [parseIcmp6, hread]
      change (parseIcmp6Type va (u8 va thdr) thdr fragSize pullLen >>= _) = _
      rw [hparse]
      exact fits_bind hpull _
    · rfl

theorem UdpZero.transfer (h : SameOutside (off + 8) (off + ip6HdrSize) va va') {thdr ipProto : ℕ}
    (hthdr : off + ip6HdrSize ≤ thdr) (hz : UdpZero va thdr ipProto) : UdpZero va' thdr ipProto := by
  refine ⟨?_, ?_, ?_⟩
  · rw [h.length]
    exact hz.length
  · rw [h.le16 (by omega)]
    exact hz.csum
  · rw [h.bytes thdr (by omega)]
    exact hz.icmp6

/-- **Packets that differ in their addresses are parsed alike**, if the addresses make no
difference. -/
theorem vrIpTransportParse_alike (hn : va.length + 2 ^ 8 ≤ 2 ^ 32)
    (hheader : HeaderAt va (some off) (some off) pullLen) (hip6 : u8 va off / 16 = 6)
    (h : SameOutside (off + 8) (off + ip6HdrSize) va va') (hfree : AddressFree va va' off pullLen) :
    Alike SameOutputs
      (vrIpTransportParse va (some off) (some off) va.length adj toVmMssAdj pullLen)
      (vrIpTransportParse va' (some off) (some off) va'.length adj toVmMssAdj pullLen) := by
  have hlen9 : off + 9 + 1 ≤ va.length := by
    have hoff := (hheader.ip6 off rfl).2
    have hpull := hheader.pull
    have hsize : ip6HdrSize = 40 := rfl
    omega
  rw [h.length]
  refine .bind (parseNetwork_alike hip6 h).result fun net _ hnet => ?_
  obtain ⟨⟨rfl, hhlen⟩, hnetwork⟩ := hnet
  refine .ite (fun hvalid => ?_) fun _ => .pure ⟨rfl, rfl, rfl, rfl, rfl⟩
  have hok : NetworkOk va off net := by
    have hnet := parseNetwork_inBounds hn hheader
    rwa [hnetwork] at hnet
  have hbound := hok.bound
  have hsize := transportSize_le net.ipProto
  rw [add32_eq (by omega)]
  dsimp only
  by_cases hpulled : net.pullLen + transportSize net.ipProto ≤ va.length
  swap
  · have hleave : fits va.length (net.pullLen + transportSize net.ipProto) = leave .slowPath :=
      if_pos (by omega)
    rw [hleave]
    exact .leave _
  rw [fits_bind hpulled, fits_bind hpulled]
  have hthdr : off + ip6HdrSize ≤ off + net.hlen := by omega
  refine .bind (R := SameParsed) ?_ fun p p' hp => .pure ⟨rfl, rfl, hp.thCsum, rfl, hp.pullLen⟩
  by_cases htcp : net.ipProto = vrIpProtoTcp
  · rw [parseProto, parseProto, if_pos htcp, if_pos htcp]
    exact parseTcp_alike h hthdr
  by_cases hicmp : net.ipProto = vrIpProtoIcmp
  · rw [parseProto, parseProto, if_neg htcp, if_neg htcp, if_pos hicmp, if_pos hicmp]
    exact parseIcmp_alike h hthdr
  rw [parseProto_branch htcp hicmp hlen9, parseProto_branch htcp hicmp (by rw [h.length]; exact hlen9)]
  rcases hfree net ⟨hnetwork, hvalid, hpulled, htcp, hicmp⟩ with hsrc | hzero
  · rw [if_congr hsrc rfl rfl]
    refine .ite (fun _ => ?_) fun _ => ?_
    · exact .bind (.readLe16 h (by omega)) fun _ _ hcsum => .pure ⟨hcsum, rfl⟩
    · exact .ite (fun _ => parseIcmp6_alike h hthdr) fun _ => .pure ⟨rfl, rfl⟩
  · obtain ⟨hudp, hother⟩ := hzero.branches hpulled
    obtain ⟨hudp', hother'⟩ := (hzero.transfer h hthdr).branches hpulled
    rw [hudp, hother, hudp', hother', ite_self, ite_self]
    exact ⟨rfl, rfl⟩

/-! ### What is read in place of the checksum -/

/-- The checksum of the transport header at `thdr`, or zero for a protocol without one. -/
def csumOf (va : List Byte) (proto thdr : ℕ) : ℕ :=
  if proto = vrIpProtoTcp then le16 va (thdr + 16)
  else if proto = vrIpProtoUdp then le16 va (thdr + 6)
  else if proto = vrIpProtoIcmp6 then le16 va (thdr + 2)
  else 0

/-- The checksum in the packet that an error of ICMPv6 quotes. -/
def quotedCsum (va : List Byte) (ip6h : ℕ) : ℕ :=
  if u8 va (ip6h + 6) = vrIp6ProtoFrag then
    csumOf va (u8 va (ip6h + ip6HdrSize)) (ip6h + ip6HdrSize + ip6FragSize)
  else csumOf va (u8 va (ip6h + 6)) (ip6h + ip6HdrSize)

theorem readCsum_ensures {proto thdr : ℕ} :
    Ensures (readCsum va vrIpProtoIcmp6 proto thdr 0) (fun c => c = csumOf va proto thdr) := by
  unfold readCsum csumOf
  split_ifs
  · exact .readLe16
  · exact .readLe16
  · exact .readLe16
  · exact .pure rfl

theorem fits_ensures (n : ℕ) : Ensures (fits fragSize n) (fun _ => n ≤ fragSize) := by
  intro u hu
  unfold fits at hu
  split_ifs at hu with hlt
  · cases hu
  · exact Nat.le_of_not_lt hlt

section

variable (hn : va.length + 2 ^ 8 ≤ 2 ^ 32) (hpull : pullLen ≤ va.length)
include hn hpull

theorem parseQuoted6_ensures (ip6h : ℕ) :
    Ensures (parseQuoted6 va ip6h va.length pullLen)
      (fun p => p.data = va ∧ p.thCsum = quotedCsum va ip6h ∧ pullLen ≤ p.pullLen) := by
  refine .bind .readU8 fun nxt hnxt => ?_
  unfold quotedCsum
  rw [← hnxt]
  refine .ite (fun _ => .ite (fun hfrag => ?_) fun hfrag => ?_) fun hother => .pure ?_
  · refine .bind (fits_ensures _) fun _ hfits => .bind .readU8 fun proto hproto => ?_
    refine .bind readCsum_ensures fun c hc => .pure ⟨rfl, ?_, ?_⟩
    · rw [if_pos hfrag, hc, hproto]
    · have hsize := quotedSize_le proto
      have hfsize : ip6FragSize = 8 := rfl
      dsimp only
      rw [add32_eq (a := pullLen) (by omega), add32_eq (by split_ifs <;> omega)]
      omega
  · refine .bind (fits_ensures _) fun _ hfits => .bind readCsum_ensures fun c hc => .pure ⟨rfl, ?_, ?_⟩
    · rw [if_neg hfrag, hc]
    · have hsize := quotedSize_le nxt
      dsimp only
      rw [add32_eq (by omega)]
      omega
  · simp only [vrIp6ProtoPull, Bool.or_eq_true, decide_eq_true_eq, not_or] at hother
    obtain ⟨⟨⟨⟨htcp, hudp⟩, hicmp6⟩, -⟩, hfrag⟩ := hother
    rw [if_neg hfrag, csumOf, if_neg htcp, if_neg hudp, if_neg hicmp6]
    exact ⟨rfl, rfl, le_refl _⟩

/-- A message of ICMPv6 is given the checksum of what it quotes, and only then, or for the two
solicitations, more of it is pulled. -/
theorem parseIcmp6_ensures :
    Ensures (parseIcmp6 va icmph va.length pullLen) (fun p => p.data = va ∧
      p.thCsum = (if u8 va icmph < 128 then quotedCsum va (icmph + icmpHdrSize) else 0) ∧
      (p.pullLen ≠ pullLen ∨ 128 ≤ u8 va icmph ∧ u8 va icmph ≠ vrIcmp6TypeNeighSol ∧
        u8 va icmph ≠ vrIcmp6TypeRouterSol)) := by
  have hip6 : ip6HdrSize = 40 := rfl
  refine .bind .readU8 fun type htype => ?_
  rw [← htype]
  refine .bind (Q := fun p => p.data = va ∧
      p.thCsum = (if type < 128 then quotedCsum va (icmph + icmpHdrSize) else 0) ∧
      (p.pullLen ≠ pullLen ∨ 128 ≤ type ∧ type ≠ vrIcmp6TypeNeighSol ∧ type ≠ vrIcmp6TypeRouterSol))
    ?_ fun p hp => .bind (fits_ensures _) fun _ _ => .pure hp
  refine .ite (fun hsol => .pure ⟨rfl, ?_, ?_⟩) fun hsol => .ite (fun hrsol => .pure ⟨rfl, ?_, ?_⟩)
    fun hrsol => .ite (fun herror => ?_) fun herror => .pure ⟨rfl, ?_, ?_⟩
  · rw [hsol]
    rfl
  · left
    dsimp only
    rw [add32_eq (by unfold vrNeighborOptionSize vrIp6AddressLen vrEtherAlen; omega)]
    unfold vrNeighborOptionSize
    omega
  · rw [hrsol]
    rfl
  · left
    dsimp only
    rw [add32_eq (by omega)]
    omega
  · rw [add32_eq (by omega), if_pos herror]
    refine .bind (fits_ensures _) fun _ hfits => ?_
    refine (parseQuoted6_ensures hn hfits _).mono fun p hp => ⟨hp.1, hp.2.1, Or.inl ?_⟩
    have := hp.2.2
    omega
  · rw [if_neg herror]
  · exact Or.inr ⟨by omega, hsol, hrsol⟩

/-- If the two branches do the same, the checksum of UDP would be zero. -/
theorem udpZero_of_branches {thdr ipProto : ℕ} {va' : List Byte}
    (h : SameOutside (off + 8) (off + ip6HdrSize) va va') (hthdr : off + ip6HdrSize ≤ thdr)
    (hsize : thdr + transportSize ipProto ≤ pullLen)
    (halike : Alike SameParsed (udpBranch va' thdr pullLen)
      (otherBranch va thdr ipProto va.length pullLen)) : UdpZero va thdr ipProto := by
  by_cases hlength : thdr + 8 ≤ va.length
  · have hread : (readLe16 va' (thdr + 6) : Checked PktRet ℕ) = .ok (le16 va (thdr + 6)) := by
      rw [readLe16, h.length, if_pos hlength, h.le16 (by omega)]
    rw [udpBranch, hread] at halike
    obtain ⟨p, hp, hsame⟩ := Alike.of_ok halike
    unfold otherBranch at hp
    split_ifs at hp with hicmp6
    · obtain ⟨-, hcsum, htype⟩ := parseIcmp6_ensures hn hpull p hp
      have hplain := htype.resolve_left (not_not.mpr hsame.pullLen.symm)
      rw [if_neg (by omega), ← hsame.thCsum] at hcsum
      exact ⟨hlength, hcsum, fun _ => hplain⟩
    · obtain rfl := Except.ok.inj hp
      exact ⟨hlength, hsame.thCsum, fun h => absurd h hicmp6⟩
  · have hread : (readLe16 va' (thdr + 6) : Checked PktRet ℕ) = .error .oob := by
      rw [readLe16, h.length, if_neg hlength]
    rw [udpBranch, hread] at halike
    by_cases hicmp6 : ipProto = vrIpProtoIcmp6
    · rw [hicmp6] at hsize
      have hicmp : transportSize vrIpProtoIcmp6 = 8 := rfl
      omega
    · rw [otherBranch, if_neg hicmp6] at halike
      exact halike.elim

end

/-- Packets that are parsed alike are so because their addresses make no difference. -/
theorem addressFree_of_alike (hn : va.length + 2 ^ 8 ≤ 2 ^ 32)
    (hheader : HeaderAt va (some off) (some off) pullLen) (hip6 : u8 va off / 16 = 6)
    (h : SameOutside (off + 8) (off + ip6HdrSize) va va')
    (halike : Alike SameOutputs
      (vrIpTransportParse va (some off) (some off) va.length adj toVmMssAdj pullLen)
      (vrIpTransportParse va' (some off) (some off) va'.length adj toVmMssAdj pullLen)) :
    AddressFree va va' off pullLen := by
  intro net hr
  by_cases hsrc : u8 va (off + 9) = vrIpProtoUdp ↔ u8 va' (off + 9) = vrIpProtoUdp
  · exact Or.inl hsrc
  right
  have hok : NetworkOk va off net := by
    have hnet := parseNetwork_inBounds hn hheader
    rwa [hr.network] at hnet
  have hl4 := hok.pulled hr.valid
  rw [← hok.offset hr.valid] at hl4
  have hlen9 : off + 9 + 1 ≤ va.length := by
    have hoff := (hheader.ip6 off rfl).2
    have hpull := hheader.pull
    have hsize : ip6HdrSize = 40 := rfl
    omega
  have hnet := @parseNetwork_alike va va' off va.length pullLen hip6 h
  rw [hr.network] at hnet
  obtain ⟨_, hnetwork, rfl, hhlen⟩ := hnet.of_ok
  have hr' : Reached va' off (some off) pullLen net := by
    refine ⟨?_, hr.valid, ?_, hr.notTcp, hr.notIcmp⟩
    · rw [h.length]
      exact hnetwork
    · rw [h.length]
      exact hr.pulled
  rw [vrIpTransportParse_reached hr hn, vrIpTransportParse_reached hr' (by rw [h.length]; exact hn)]
    at halike
  have hproto : Alike SameParsed _ _ := halike.of_bind_pure.mono fun p p' hp => ⟨hp.thCsum, hp.pullLen⟩
  rw [parseProto_branch hr.notTcp hr.notIcmp hlen9,
    parseProto_branch hr.notTcp hr.notIcmp (by rw [h.length]; exact hlen9)] at hproto
  have hthdr : off + ip6HdrSize ≤ off + net.hlen := by omega
  have hsize := Nat.add_le_add_right hl4 (transportSize net.ipProto)
  by_cases hudp : u8 va (off + 9) = vrIpProtoUdp
  · have hudp' : u8 va' (off + 9) ≠ vrIpProtoUdp := fun h' => hsrc ⟨fun _ => h', fun _ => hudp⟩
    rw [if_pos hudp, if_neg hudp'] at hproto
    have hback : SameOutside (off + 8) (off + ip6HdrSize) va' va :=
      ⟨h.length.symm, fun j hj => (h.bytes j hj).symm⟩
    have hpulled := hr'.pulled
    exact (udpZero_of_branches (by rw [h.length]; exact hn) hpulled hback hthdr hsize hproto).transfer
      hback hthdr
  · have hudp' : u8 va' (off + 9) = vrIpProtoUdp := by
      by_contra h'
      exact hsrc ⟨fun h => absurd h hudp, fun h => absurd h h'⟩
    rw [if_neg hudp, if_pos hudp'] at hproto
    have hsymm : Alike SameParsed _ _ := hproto.symm.mono fun _ _ hp => ⟨hp.thCsum.symm, hp.pullLen.symm⟩
    exact udpZero_of_branches hn hr.pulled h hthdr hsize hsymm

/-! ### The reported checksum -/

/-- What is read in place of the checksum of UDP and ICMPv6, behind the branch that asks for UDP. -/
def readInstead (va : List Byte) (off : ℕ) : ℕ :=
  if u8 va (off + 9) = vrIpProtoUdp then le16 va (off + ip6HdrSize + 6)
  else if u8 va (off + 6) = vrIpProtoIcmp6 ∧ u8 va (off + ip6HdrSize) < 128 then
    quotedCsum va (off + ip6HdrSize + icmpHdrSize)
  else 0

/-- The packets whose own checksum is reported: those of TCP, and those whose checksum is what is read
in its place, such as a packet of UDP that is taken for one. -/
def ReportsCsum (va : List Byte) (off : ℕ) : Prop :=
  u8 va (off + 6) = vrIpProtoTcp ∨
    csumOf va (u8 va (off + 6)) (off + ip6HdrSize) = readInstead va off

instance (va : List Byte) (off : ℕ) : Decidable (ReportsCsum va off) :=
  inferInstanceAs (Decidable (_ ∨ _))

/-- The length of the header of TCP or UDP, with the options of TCP. -/
def headerLen (va : List Byte) (off : ℕ) : ℕ :=
  if u8 va (off + 6) = vrIpProtoTcp then
    max vrTcpSize (ntohs (le16 va (off + ip6HdrSize + 12)) / 2 ^ 12 * 4)
  else vrUdpSize

/-- The packet is a SYN whose MSS is to be adjusted. -/
def AdjustsMss (va : List Byte) (off : ℕ) (toVmMssAdj : Bool) : Prop :=
  u8 va (off + 6) = vrIpProtoTcp ∧ ntohs (le16 va (off + ip6HdrSize + 12)) / 2 % 2 = 1 ∧
    toVmMssAdj = true

theorem parseNetwork_ip6 (hlen : off + ip6HdrSize ≤ va.length) (hip6 : u8 va off / 16 = 6)
    (hfrag : u8 va (off + 6) ≠ vrIp6ProtoFrag) :
    parseNetwork va off (some off) fragSize pullLen =
      .ok ⟨u8 va (off + 6), ip6HdrSize, pullLen, true⟩ := by
  have hsize : ip6HdrSize = 40 := rfl
  have hversion : (readU8 va off : Checked PktRet ℕ) = .ok (u8 va off) := if_pos (by omega)
  have hnxt : (readU8 va (off + 6) : Checked PktRet ℕ) = .ok (u8 va (off + 6)) :=
    if_pos (by omega)
  have hvalid : vrIp6TransportHeaderValid va off = .ok true := by
    rw [vrIp6TransportHeaderValid, hnxt]
    exact if_neg hfrag
  have hparse : parseIp6 va off fragSize pullLen =
      .ok ⟨u8 va (off + 6), ip6HdrSize, pullLen, true⟩ := by
    rw [parseIp6, hnxt]
    refine (if_neg hfrag).trans ?_
    rw [hvalid]
    rfl
  rw [parseNetwork, vrIpIsIp6, hversion]
  refine (if_pos (decide_eq_true hip6)).trans ?_
  exact hparse

/-- The packet is one of TCP, UDP or ICMPv6, and no fragment. -/
def Unfragmented (va : List Byte) (off : ℕ) : Prop :=
  u8 va (off + 6) = vrIpProtoTcp ∨ u8 va (off + 6) = vrIpProtoUdp ∨
    u8 va (off + 6) = vrIpProtoIcmp6

instance (va : List Byte) (off : ℕ) : Decidable (Unfragmented va off) :=
  inferInstanceAs (Decidable (_ ∨ _ ∨ _))

section

variable (hn : va.length + 2 ^ 8 ≤ 2 ^ 32) (hheader : HeaderAt va (some off) (some off) pullLen)
  (hip6 : u8 va off / 16 = 6) (h : Unfragmented va off)
include hn hheader hip6 h

theorem vrIpTransportParse_unfragmented :
    vrIpTransportParse va (some off) (some off) va.length adj toVmMssAdj pullLen =
      (fits va.length (pullLen + transportSize (u8 va (off + 6))) >>= fun _ =>
        parseProto va off (some off) (u8 va (off + 6)) ip6HdrSize va.length
          (pullLen + transportSize (u8 va (off + 6))) adj toVmMssAdj >>= fun parsed =>
        pure ⟨some (off + ip6HdrSize), ip6HdrSize, parsed.thCsum, pullLen, parsed.pullLen,
          parsed.data⟩) := by
  have hpull := hheader.pull
  have hle := (hheader.ip6 off rfl).2
  have hsize := transportSize_le (u8 va (off + 6))
  have hfrag : u8 va (off + 6) ≠ vrIp6ProtoFrag := by
    rcases h with h | h | h <;> rw [h] <;> decide
  unfold vrIpTransportParse
  dsimp only
  rw [parseNetwork_ip6 (by omega) hip6 hfrag, ← add32_eq (a := pullLen) (by omega)]
  rfl

omit hip6 in
theorem parseProto_ensures (hpulled : pullLen + transportSize (u8 va (off + 6)) ≤ va.length)
    (adj : Option MssAdj) (toVmMssAdj : Bool) :
    Ensures (parseProto va off (some off) (u8 va (off + 6)) ip6HdrSize va.length
        (pullLen + transportSize (u8 va (off + 6))) adj toVmMssAdj) (fun p =>
      if u8 va (off + 6) = vrIpProtoTcp then p.thCsum = le16 p.data (off + ip6HdrSize + 16)
      else p.data = va ∧ p.thCsum = readInstead va off) := by
  have hle := (hheader.ip6 off rfl).2
  have hpull := hheader.pull
  have hsize : ip6HdrSize = 40 := rfl
  by_cases htcp : u8 va (off + 6) = vrIpProtoTcp
  · intro p hp
    rw [htcp] at hp hpulled ⊢
    rw [if_pos rfl]
    have hparse := parseTcp_inBounds (Nat.add_le_add_right hle _) hpulled ip6HdrSize adj toVmMssAdj
    rw [parseProto, if_pos rfl] at hp
    rw [show transportSize vrIpProtoTcp = vrTcpSize from rfl] at hp
    rw [hp] at hparse
    exact hparse.2
  · have hicmp : u8 va (off + 6) ≠ vrIpProtoIcmp := by
      rcases h with h | h | h <;> rw [h] <;> decide
    rw [parseProto_branch htcp hicmp (by omega)]
    simp only [htcp, if_false]
    unfold readInstead
    refine .ite (fun hudp => ?_) fun hudp => ?_
    · rw [if_pos hudp]
      exact .bind .readLe16 fun _ hc => .pure ⟨rfl, hc⟩
    · rw [if_neg hudp]
      refine .ite (fun hicmp6 => ?_) fun hicmp6 => .pure ⟨rfl, ?_⟩
      · refine (parseIcmp6_ensures hn hpulled).mono fun p hp => ⟨hp.1, ?_⟩
        rw [hp.2.1]
        exact if_congr (by rw [and_iff_right hicmp6]) rfl rfl
      · rw [if_neg fun h => hicmp6 h.1]

/-- The checksum that is reported, if there is a result. -/
theorem reported_csum_iff (adj : Option MssAdj) (toVmMssAdj : Bool) :
    Ensures (vrIpTransportParse va (some off) (some off) va.length adj toVmMssAdj pullLen) (fun r =>
      r.thCsum = csumOf r.data (u8 va (off + 6)) (off + ip6HdrSize) ↔ ReportsCsum va off) := by
  rw [vrIpTransportParse_unfragmented hn hheader hip6 h]
  refine .bind (fits_ensures _) fun _ hpulled => ?_
  refine .bind (parseProto_ensures hn hheader h hpulled adj toVmMssAdj) fun p hp => .pure ?_
  dsimp only
  split_ifs at hp with htcp
  · rw [hp, htcp, csumOf, if_pos rfl]
    exact ⟨fun _ => Or.inl htcp, fun _ => rfl⟩
  · rw [hp.1, hp.2]
    exact ⟨fun heq => Or.inr heq.symm, fun hr => (hr.resolve_left htcp).symm⟩

theorem csum_reported (hreports : ReportsCsum va off) (hfits : pullLen + headerLen va off ≤ va.length)
    (hicmp6 : u8 va (off + 6) ≠ vrIpProtoIcmp6) (hmss : ¬ AdjustsMss va off toVmMssAdj)
    (adj : Option MssAdj) :
    Succeeds (vrIpTransportParse va (some off) (some off) va.length adj toVmMssAdj pullLen)
      (fun r => r.thCsum = csumOf va (u8 va (off + 6)) (off + ip6HdrSize)) := by
  have hle := (hheader.ip6 off rfl).2
  have hpull := hheader.pull
  have hip6Size : ip6HdrSize = 40 := rfl
  have htcpSize : vrTcpSize = 20 := rfl
  have hudpSize : vrUdpSize = 8 := rfl
  rw [vrIpTransportParse_unfragmented hn hheader hip6 h]
  unfold headerLen at hfits
  by_cases htcp : u8 va (off + 6) = vrIpProtoTcp
  · rw [if_pos htcp] at hfits
    have hsize : transportSize vrIpProtoTcp = 20 := rfl
    rw [htcp, fits_bind (by omega), parseProto, if_pos rfl]
    refine .bind (Q := fun p => p.thCsum = le16 va (off + ip6HdrSize + 16)) ?_ fun p hp => .pure hp
    set offset := ntohs (le16 va (off + ip6HdrSize + 12)) / 2 ^ 12 * 4 with hoffset
    have hmax : offset ≤ max vrTcpSize offset := le_max_right _ _
    have hmax' : vrTcpSize ≤ max vrTcpSize offset := le_max_left _ _
    have hflags : (readLe16 va (off + ip6HdrSize + 12) : Checked PktRet ℕ) = .ok _ :=
      if_pos (by omega)
    have hadjust : adjustMss va (off + ip6HdrSize) ip6HdrSize adj toVmMssAdj = .ok va := by
      have hnot : ¬ (ntohs (le16 va (off + ip6HdrSize + 12)) / 2 % 2 = 1 ∧ toVmMssAdj = true) :=
        fun hsyn => hmss ⟨htcp, hsyn⟩
      unfold adjustMss
      rw [hflags]
      exact if_neg hnot
    have hcsum : Succeeds (readLe16 va (off + ip6HdrSize + 16) : Checked PktRet ℕ) _ :=
      .readLe16 (by omega)
    unfold parseTcp
    rw [hadjust]
    refine .bind (Q := fun b => b = va) ⟨va, rfl, rfl⟩ fun b hb => ?_
    rw [hb, hflags]
    refine .bind (Q := fun w => w = le16 va (off + ip6HdrSize + 12)) ⟨_, rfl, rfl⟩ fun w hw => ?_
    dsimp only
    rw [hw, ← hoffset]
    refine .ite (fun hopts => ?_) fun _ => ?_
    · rw [add32_eq (by omega), fits_bind (by omega)]
      exact .bind hcsum fun _ heq => .pure heq
    · exact .bind hcsum fun _ heq => .pure heq
  · have hudp : u8 va (off + 6) = vrIpProtoUdp := (h.resolve_left htcp).resolve_right hicmp6
    have hsize : transportSize vrIpProtoUdp = 8 := rfl
    rw [if_neg htcp] at hfits
    have hbranch : Succeeds (parseProto va off (some off) (u8 va (off + 6)) ip6HdrSize va.length
        (pullLen + transportSize (u8 va (off + 6))) adj toVmMssAdj) (fun _ => True) := by
      rw [parseProto_branch htcp (by rw [hudp]; decide) (by omega)]
      refine .ite (fun _ => .bind (.readLe16 (by omega)) fun _ _ => .pure trivial) fun _ => ?_
      rw [otherBranch, if_neg hicmp6]
      exact .pure trivial
    obtain ⟨p, hp, -⟩ := hbranch
    have hensures := parseProto_ensures hn hheader h (by rw [hudp]; omega) adj toVmMssAdj p hp
    dsimp only at hensures
    rw [if_neg htcp] at hensures
    rw [fits_bind (by rw [hudp]; omega), hp]
    exact .pure (hensures.2.trans (hreports.resolve_left htcp).symm)

end

/-- **Transport parsing of IPv6.**  Packets that differ in their addresses are parsed alike exactly
if the addresses make no difference to the branch that asks for UDP; the checksum that is reported is
that of the packet exactly if `ReportsCsum`, and one of TCP or UDP is reported if the header is
there. -/
theorem vrIpTransportParse_ip6 (va : List Byte) (off : ℕ) (hn : va.length + 2 ^ 8 ≤ 2 ^ 32)
    (hip6 : u8 va off / 16 = 6) (adj : Option MssAdj) (toVmMssAdj : Bool) (pullLen : ℕ)
    (hheader : HeaderAt va (some off) (some off) pullLen) :
    (∀ va' : List Byte, SameOutside (off + 8) (off + ip6HdrSize) va va' →
      (Alike SameOutputs
        (vrIpTransportParse va (some off) (some off) va.length adj toVmMssAdj pullLen)
        (vrIpTransportParse va' (some off) (some off) va'.length adj toVmMssAdj pullLen) ↔
          AddressFree va va' off pullLen)) ∧
    (Unfragmented va off →
      (∀ r, vrIpTransportParse va (some off) (some off) va.length adj toVmMssAdj pullLen = .ok r →
        (r.thCsum = csumOf r.data (u8 va (off + 6)) (off + ip6HdrSize) ↔ ReportsCsum va off)) ∧
      (ReportsCsum va off → pullLen + headerLen va off ≤ va.length →
        u8 va (off + 6) ≠ vrIpProtoIcmp6 → ¬ AdjustsMss va off toVmMssAdj →
        Succeeds (vrIpTransportParse va (some off) (some off) va.length adj toVmMssAdj pullLen)
          (fun r => r.thCsum = csumOf va (u8 va (off + 6)) (off + ip6HdrSize)))) := by
  refine ⟨fun va' hsame => ⟨?_, ?_⟩, fun h => ⟨?_, fun hreports hfits hicmp6 hmss => ?_⟩⟩
  · exact addressFree_of_alike hn hheader hip6 hsame
  · exact vrIpTransportParse_alike hn hheader hip6 hsame
  · exact reported_csum_iff hn hheader hip6 h adj toVmMssAdj
  · exact csum_reported hn hheader hip6 h hreports hfits hicmp6 hmss adj

/-- A packet of UDP over IPv6, by the second byte of its source address. -/
def udp6Packet (second : Byte) : List Byte :=
  ip6Header 8 17 second ++ [4, 0, 0, 80, 0, 8, 0x12, 0x34]

/-- An echo request of ICMPv6. -/
def echo6Packet : List Byte := ip6Header 8 58 1 ++ [128, 0, 0x12, 0x34, 0, 1, 0, 1]

/-- The reported checksum of UDP depends on the source address, and that of ICMPv6 is not
reported. -/
theorem vrIpTransportParse_address :
    (vrIpTransportParse (udp6Packet 17) (some 0) (some 0) 48 none true 40).map Transport.thCsum =
        .ok (0x12 + 256 * 0x34) ∧
      (vrIpTransportParse (udp6Packet 1) (some 0) (some 0) 48 none true 40).map Transport.thCsum =
        .ok 0 ∧
      (vrIpTransportParse echo6Packet (some 0) (some 0) 48 none true 40).map Transport.thCsum =
        .ok 0 ∧
      le16 echo6Packet 42 ≠ 0 :=
  ⟨rfl, rfl, rfl, by decide⟩

/-- The checksum of a packet of UDP, and the same packet from another address. -/
theorem vrIpTransportParse_ip6_udp :
    Alike SameOutputs (vrIpTransportParse (udp6Packet 17) (some 0) (some 0) 48 none true 40)
        (vrIpTransportParse ((udp6Packet 17).set 10 5) (some 0) (some 0) 48 none true 40) ∧
      Succeeds (vrIpTransportParse (udp6Packet 17) (some 0) (some 0) (udp6Packet 17).length none
        true 40) (fun r => r.thCsum = csumOf (udp6Packet 17) 17 40) := by
  obtain ⟨halike, hcsum⟩ := vrIpTransportParse_ip6 (udp6Packet 17) 0 (by decide) (by decide) none true
    40 (.of_ip6 (by decide) (by decide))
  refine ⟨(halike ((udp6Packet 17).set 10 5) ?_).mpr fun net _ => Or.inl (by decide),
    (hcsum (by decide)).2 (by decide) (by decide) (by decide) fun h => absurd h.1 (by decide)⟩
  exact (set_sameOutside _ 10 5).mono (by decide) (by decide)

end Vrouter.Parse
