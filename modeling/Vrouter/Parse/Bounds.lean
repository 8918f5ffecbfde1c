import Vrouter.Parse.Model

/-! # The parsers stay inside the packet

Neither parser reads outside of its buffer, and the loop over VLAN tags ends, exactly if certain
bytes that the code does not ask for are there (`parsers_inBounds`).  Between the two stands
`HeaderAt`: the IP header that the first one has found, and that the second one is given, has been
pulled.

There are four ways to read past the end (`parsers_oob`): two MPLS labels take four bytes more than
are asked for; a VLAN tag is read before it is known to be there; an IPv6 packet whose source address
has the number of UDP as its second byte is read as UDP, whatever it carries; and the checksum behind
a quoted fragment header is read before the bound is compared. -/

namespace Vrouter.Parse

open Vrouter.Lib Vrouter.Packet

variable {va : List Byte} {n a b icmp : ℕ}

theorem add32_eq (h : a + b < 2 ^ 32) : add32 a b = a + b := Nat.mod_eq_of_lt h

theorem add32_sub (hle : vrIpSize ≤ a) (h : a + b < 2 ^ 32) :
    add32 a (b + (2 ^ 32 - vrIpSize)) = a + b - vrIpSize := by
  have hsize : vrIpSize = 20 := rfl
  unfold add32
  omega

theorem fits_inBounds (fragSize pullLen : ℕ) :
    InBounds (fits fragSize pullLen) (fun _ => pullLen ≤ fragSize) := by
  refine .ite (fun _ => .leave _) fun h => .pure (Nat.le_of_not_lt h)

theorem fits_bind {α : Type} {fragSize pullLen : ℕ} (h : pullLen ≤ fragSize)
    (f : Unit → Checked PktRet α) : (fits fragSize pullLen >>= f) = f () := by
  rw [fits, if_neg (Nat.not_lt.mpr h)]
  rfl

/-! ### Fields -/

section

variable {iph pullLen tcph icmph : ℕ} {ip6h : Option ℕ} (hn : va.length + 2 ^ 8 ≤ 2 ^ 32)
  (hpull : pullLen ≤ va.length)

theorem vrIpIsIp4_inBounds (h : iph + 1 ≤ va.length) :
    InBounds (vrIpIsIp4 va iph) (fun ip4 => ip4 = decide (u8 va iph / 16 = 4)) :=
  .bind (.readU8 h) fun _ hb => .pure (by rw [hb])

theorem vrIpIsIp6_inBounds (h : iph + 1 ≤ va.length) :
    InBounds (vrIpIsIp6 va iph) (fun ip6 => ip6 = decide (u8 va iph / 16 = 6)) :=
  .bind (.readU8 h) fun _ hb => .pure (by rw [hb])

theorem vrIpTransportHeaderValid_inBounds (h : iph + 20 ≤ va.length) :
    InBounds (vrIpTransportHeaderValid va iph) (fun _ => True) :=
  .bind (.readLe16 (by omega)) fun _ _ =>
    .bind (vrIpIsIp4_inBounds (by omega)) fun _ _ => .pure trivial

theorem vrIp6TransportHeaderValid_inBounds {ip6h : ℕ} (h : ip6h + 40 ≤ va.length)
    (hfrag : u8 va (ip6h + 6) = vrIp6ProtoFrag → ip6h + 48 ≤ va.length) :
    InBounds (vrIp6TransportHeaderValid va ip6h) (fun _ => True) := by
  have hsize : ip6HdrSize = 40 := rfl
  refine .bind (.readU8 (by omega)) fun nxt hnxt => .ite (fun hnxt' => ?_) fun _ => .pure trivial
  have hlen := hfrag (hnxt.symm.trans hnxt')
  exact .bind (.readLe16 (by omega)) fun _ _ => .pure trivial

/-! ### The IP header -/

/-- Where the transport header of the packet at `iph` is. -/
def l4Offset (va : List Byte) (iph : ℕ) : ℕ :=
  if u8 va iph / 16 = 6 then
    if u8 va (iph + 6) = vrIp6ProtoFrag then iph + ip6HdrSize + ip6FragSize else iph + ip6HdrSize
  else iph + u8 va iph % 16 * 4

/-- Its transport protocol. -/
def l4Proto (va : List Byte) (iph : ℕ) : ℕ :=
  if u8 va iph / 16 = 6 then
    if u8 va (iph + 6) = vrIp6ProtoFrag then u8 va (iph + ip6HdrSize) else u8 va (iph + 6)
  else u8 va (iph + 9)

/-- The header at `iph` has been pulled: all of it if it is one of IPv6, its fixed part if not. -/
structure HeaderAt (va : List Byte) (iph ip6h : Option ℕ) (pullLen : ℕ) : Prop where
  pull : pullLen ≤ va.length
  ip4 : ∀ off, iph = some off → off + vrIpSize ≤ pullLen
  ip6 : ∀ off, ip6h = some off → iph = some off ∧ off + ip6HdrSize ≤ pullLen

theorem HeaderAt.of_ip4 (hpull : pullLen ≤ va.length) (h : iph + vrIpSize ≤ pullLen) :
    HeaderAt va (some iph) none pullLen :=
  ⟨hpull, fun _ hoff => Option.some.inj hoff ▸ h, nofun⟩

theorem HeaderAt.of_ip6 (hpull : pullLen ≤ va.length) (h : iph + ip6HdrSize ≤ pullLen) :
    HeaderAt va (some iph) (some iph) pullLen := by
  have hle : vrIpSize ≤ ip6HdrSize := by decide
  have hip4 := HeaderAt.of_ip4 hpull (by omega : iph + vrIpSize ≤ pullLen)
  exact ⟨hpull, hip4.ip4, fun _ hoff => ⟨hoff, Option.some.inj hoff ▸ h⟩⟩

/-- What the first part of `vr_ip_transport_parse` knows of the packet at `iph`. -/
structure NetworkOk (va : List Byte) (iph : ℕ) (net : Network) : Prop where
  bound : net.pullLen ≤ va.length + 60
  invalid : net.thdrValid = false → net.pullLen ≤ va.length
  offset : net.thdrValid = true → iph + net.hlen = l4Offset va iph
  proto : net.ipProto = l4Proto va iph
  pulled : net.thdrValid = true → l4Offset va iph ≤ net.pullLen

section

include hn hpull

theorem parseIp6_inBounds {ip6h : ℕ} (h : ip6h + ip6HdrSize ≤ pullLen) (hip6 : u8 va ip6h / 16 = 6) :
    InBounds (parseIp6 va ip6h va.length pullLen) (NetworkOk va ip6h) := by
  have hsize : ip6HdrSize = 40 := rfl
  have hfsize : ip6FragSize = 8 := rfl
  refine .bind (.readU8 (by omega)) fun nxt hnxt => .ite (fun hfrag => ?_) fun hfrag => ?_
  · rw [hnxt] at hfrag
    have hpull' : add32 pullLen ip6FragSize = pullLen + ip6FragSize := add32_eq (by omega)
    refine .bind (fits_inBounds _ _) fun _ hfits => ?_
    rw [hpull'] at hfits
    refine .bind (.readU8 (by omega)) fun proto hproto => ?_
    refine .bind (vrIp6TransportHeaderValid_inBounds (by omega) fun _ => by omega) fun valid _ => ?_
    refine .pure ⟨?_, fun _ => ?_, fun _ => ?_, ?_, fun _ => ?_⟩
    · dsimp only
      omega
    · dsimp only
      omega
    · rw [l4Offset, if_pos hip6, if_pos hfrag, Nat.add_assoc]
    · rw [l4Proto, if_pos hip6, if_pos hfrag, hproto]
    · rw [l4Offset, if_pos hip6, if_pos hfrag]
      dsimp only
      omega
  · rw [hnxt] at hfrag
    refine .bind (vrIp6TransportHeaderValid_inBounds (by omega) fun h => absurd h hfrag)
      fun valid _ => ?_
    refine .pure ⟨Nat.le_add_right_of_le hpull, fun _ => hpull, fun _ => ?_, ?_, fun _ => ?_⟩
    · rw [l4Offset, if_pos hip6, if_neg hfrag]
    · rw [l4Proto, if_pos hip6, if_neg hfrag, hnxt]
    · rw [l4Offset, if_pos hip6, if_neg hfrag]
      exact h

theorem parseIp4_inBounds (h : iph + vrIpSize ≤ pullLen) (hip6 : u8 va iph / 16 ≠ 6) :
    InBounds (parseIp4 va iph pullLen) (NetworkOk va iph) := by
  have hsize : vrIpSize = 20 := rfl
  refine .bind (.readU8 (by omega)) fun proto hproto => ?_
  have hproto' : proto = l4Proto va iph := by rw [l4Proto, if_neg hip6, hproto]
  refine .bind (vrIpTransportHeaderValid_inBounds (by omega)) fun valid _ => ?_
  refine .ite (fun _ => ?_) fun _ => ?_
  · refine .bind (.readU8 (by omega)) fun hl hhl => ?_
    have hoff : l4Offset va iph = iph + hl % 16 * 4 := by rw [l4Offset, if_neg hip6, hhl]
    have hpull' := add32_sub (a := pullLen) (b := hl % 16 * 4) (by omega) (by omega)
    refine .pure ⟨?_, nofun, fun _ => hoff.symm, hproto', fun _ => ?_⟩
    · dsimp only
      omega
    · dsimp only
      omega
  · exact .pure ⟨Nat.le_add_right_of_le hpull, fun _ => hpull, nofun, hproto', nofun⟩

end

include hn in
theorem parseNetwork_inBounds (h : HeaderAt va (some iph) ip6h pullLen) :
    InBounds (parseNetwork va iph ip6h va.length pullLen) (NetworkOk va iph) := by
  have hpull := h.pull
  have hle := h.ip4 iph rfl
  have hsize : vrIpSize = 20 := rfl
  refine .bind (vrIpIsIp6_inBounds (by omega)) fun ip6 hip6 => .ite (fun htrue => ?_) fun hfalse => ?_
  · have hip6' := of_decide_eq_true (hip6.symm.trans htrue)
    cases ip6h with
    | none => exact .leave _
    | some off =>
      obtain ⟨hoff, hle6⟩ := h.ip6 off rfl
      cases hoff
      exact parseIp6_inBounds hn hpull hle6 hip6'
  · have hip6' : u8 va iph / 16 ≠ 6 := by
      intro heq
      exact hfalse (hip6.trans (decide_eq_true heq))
    refine .bind (vrIpIsIp4_inBounds (by omega)) fun ip4 _ => .ite (fun _ => ?_) fun _ => .leave _
    exact parseIp4_inBounds hn hpull hle hip6'

/-! ### The transport header -/

theorem MssAdj.apply_length (adj : MssAdj) (h : tcph ≤ va.length) (hlen : ℕ) :
    (adj.apply va tcph hlen).length = va.length := by
  rw [MssAdj.apply, List.length_append, adj.length_run, List.length_take, List.length_drop]
  omega

theorem adjustMss_inBounds (h : tcph + vrTcpSize ≤ va.length) (hlen : ℕ) (adj : Option MssAdj)
    (toVmMssAdj : Bool) :
    InBounds (adjustMss va tcph hlen adj toVmMssAdj) (fun va' => va'.length = va.length) := by
  have hsize : vrTcpSize = 20 := rfl
  refine .bind (.readLe16 (by omega)) fun flags _ => .ite (fun _ => ?_) fun _ => .pure rfl
  cases adj with
  | none => exact .leave _
  | some adj => exact .pure (adj.apply_length (by omega) _)

theorem parseTcp_inBounds (h : tcph + vrTcpSize ≤ pullLen) (hpull : pullLen ≤ va.length) (hlen : ℕ)
    (adj : Option MssAdj) (toVmMssAdj : Bool) :
    InBounds (parseTcp va tcph hlen va.length pullLen adj toVmMssAdj)
      (fun p => p.pullLen ≤ va.length ∧ p.thCsum = le16 p.data (tcph + 16)) := by
  have hsize : vrTcpSize = 20 := rfl
  refine .bind (adjustMss_inBounds (by omega) hlen adj toVmMssAdj) fun va' hlength => ?_
  refine .bind (.readLe16 (by omega)) fun flags _ => .ite (fun _ => ?_) fun _ => ?_
  · refine .bind (fits_inBounds _ _) fun _ hfits => ?_
    exact .bind (.readLe16 (by omega)) fun _ hcsum => .pure ⟨hfits, hcsum⟩
  · exact .bind (.readLe16 (by omega)) fun _ hcsum => .pure ⟨hpull, hcsum⟩

/-- Where the checksum of a transport header ends. -/
def csumEnd (icmp proto : ℕ) : ℕ :=
  if proto = vrIpProtoTcp then 18 else if proto = vrIpProtoUdp then 8
  else if proto = icmp then 4 else 0

theorem readCsum_inBounds {proto thdr thCsum : ℕ} (h : thdr + csumEnd icmp proto ≤ va.length) :
    InBounds (readCsum va icmp proto thdr thCsum) (fun _ => True) := by
  unfold csumEnd at h
  unfold readCsum
  split_ifs at h ⊢
  · exact (InBounds.readLe16 (by omega)).mono fun _ _ => trivial
  · exact (InBounds.readLe16 (by omega)).mono fun _ _ => trivial
  · exact (InBounds.readLe16 (by omega)).mono fun _ _ => trivial
  · exact .pure trivial

theorem readCsum_covered {proto thdr thCsum : ℕ} (hthdr : thdr ≤ va.length) {Q : ℕ → Prop}
    (h : InBounds (readCsum va icmp proto thdr thCsum) Q) :
    thdr + csumEnd icmp proto ≤ va.length := by
  unfold readCsum at h
  unfold csumEnd
  split_ifs at h ⊢
  · exact h.of_readLe16.1
  · exact h.of_readLe16.1
  · exact h.of_readLe16.1
  · exact hthdr

theorem quotedSize_le (proto : ℕ) : quotedSize proto ≤ 20 := by
  unfold quotedSize vrTcpSize vrUdpSize vrSctpSize icmpHdrSize
  split_ifs <;> omega

theorem csumEnd_le (hicmp : icmp = vrIpProtoIcmp ∨ icmp = vrIpProtoIcmp6) (proto : ℕ) :
    csumEnd icmp proto ≤ quotedSize proto := by
  unfold csumEnd quotedSize vrTcpSize vrUdpSize vrSctpSize icmpHdrSize
  split_ifs with htcp hudp hproto hsctp
  · decide
  · exact le_refl _
  · rcases hicmp with rfl | rfl
    · exact absurd (hproto.symm.trans hsctp) (by decide)
    · exact absurd (hproto.symm.trans hsctp) (by decide)
  · decide
  · exact Nat.zero_le _
  · exact Nat.zero_le _

theorem transportSize_le (proto : ℕ) : transportSize proto ≤ 20 := by
  unfold transportSize vrTcpSize vrUdpSize vrSctpSize icmpHdrSize
  split_ifs <;> omega

section

include hn hpull

theorem parseIcmp_inBounds (h : icmph + icmpHdrSize ≤ pullLen) :
    InBounds (parseIcmp va icmph va.length pullLen) (fun p => p.pullLen ≤ va.length) := by
  have hsize : icmpHdrSize = 8 := rfl
  have hip : vrIpSize = 20 := rfl
  refine .bind (.readLe16 (by omega)) fun csum _ => .bind (.readU8 (by omega)) fun type _ => ?_
  refine .ite (fun _ => ?_) fun _ => .pure hpull
  -- the quoted IP header
  have hpull₁ : add32 pullLen vrIpSize = pullLen + vrIpSize := add32_eq (by omega)
  refine .bind (fits_inBounds _ _) fun _ hfits₁ => ?_
  rw [hpull₁] at hfits₁
  refine .bind (.readU8 (by omega)) fun hl _ => ?_
  have hpull₂ := add32_sub (a := pullLen + vrIpSize) (b := hl % 16 * 4) (by omega) (by omega)
  dsimp only
  rw [hpull₁, hpull₂]
  refine .bind (fits_inBounds _ _) fun _ hfits₂ => .bind (.readU8 (by omega)) fun proto _ => ?_
  -- the quoted transport header
  refine .ite (fun _ => ?_) fun _ => .pure hfits₂
  have hle := quotedSize_le proto
  have hend := csumEnd_le (Or.inl rfl) proto
  have hpull₃ := add32_eq (a := pullLen + vrIpSize + hl % 16 * 4 - vrIpSize)
    (b := quotedSize proto) (by omega)
  rw [hpull₃]
  refine .bind (fits_inBounds _ _) fun _ hfits₃ => ?_
  exact .bind (readCsum_inBounds (by omega)) fun _ _ => .pure hfits₃

/-- The fragment that an error of ICMPv6 at `icmph` quotes, if its fragment header is there, has the
checksum of its transport header in the buffer. -/
def QuotedCovered (va : List Byte) (icmph pullLen : ℕ) : Prop :=
  u8 va icmph < 128 → u8 va (icmph + icmpHdrSize + 6) = vrIp6ProtoFrag →
    pullLen + ip6HdrSize + ip6FragSize ≤ va.length →
    icmph + icmpHdrSize + ip6HdrSize + ip6FragSize +
      csumEnd vrIpProtoIcmp6 (u8 va (icmph + icmpHdrSize + ip6HdrSize)) ≤ va.length

theorem parseQuoted6_inBounds {ip6h : ℕ} (h : ip6h + ip6HdrSize ≤ pullLen)
    (hcovered : u8 va (ip6h + 6) = vrIp6ProtoFrag → pullLen + ip6FragSize ≤ va.length →
      ip6h + ip6HdrSize + ip6FragSize + csumEnd vrIpProtoIcmp6 (u8 va (ip6h + ip6HdrSize)) ≤
        va.length) :
    InBounds (parseQuoted6 va ip6h va.length pullLen) (fun _ => True) := by
  have hsize : ip6HdrSize = 40 := rfl
  have hfsize : ip6FragSize = 8 := rfl
  refine .bind (.readU8 (by omega)) fun nxt hnxt => .ite (fun _ => ?_) fun _ => .pure trivial
  refine .ite (fun hfrag => ?_) fun _ => ?_
  · refine .bind (fits_inBounds _ _) fun _ hfits => ?_
    rw [add32_eq (by omega)] at hfits
    refine .bind (.readU8 (by omega)) fun proto hproto => ?_
    have hcsum := hcovered (hnxt.symm.trans hfrag) hfits
    rw [← hproto] at hcsum
    exact .bind (readCsum_inBounds hcsum) fun _ _ => .pure trivial
  · have hle := quotedSize_le nxt
    have hend := csumEnd_le (Or.inr rfl) nxt
    refine .bind (fits_inBounds _ _) fun _ hfits => ?_
    rw [add32_eq (by omega)] at hfits
    exact .bind (readCsum_inBounds (by omega)) fun _ _ => .pure trivial

omit hpull in
theorem parseQuoted6_covered {ip6h : ℕ} (h : ip6h + ip6HdrSize ≤ pullLen) {Q : Parsed → Prop}
    (hparse : InBounds (parseQuoted6 va ip6h va.length pullLen) Q)
    (hfrag : u8 va (ip6h + 6) = vrIp6ProtoFrag) (hfits : pullLen + ip6FragSize ≤ va.length) :
    ip6h + ip6HdrSize + ip6FragSize + csumEnd vrIpProtoIcmp6 (u8 va (ip6h + ip6HdrSize)) ≤
      va.length := by
  have hsize : ip6HdrSize = 40 := rfl
  have hfsize : ip6FragSize = 8 := rfl
  have hnxt : (readU8 va (ip6h + 6) : Checked PktRet ℕ) = .ok vrIp6ProtoFrag := by
    rw [readU8, if_pos (by omega), hfrag]
  have hproto : (readU8 va (ip6h + ip6HdrSize) : Checked PktRet ℕ) = .ok _ := if_pos (by omega)
  rw [parseQuoted6, hnxt] at hparse
  change InBounds (fits va.length (add32 pullLen ip6FragSize) >>= _) Q at hparse
  rw [add32_eq (by omega), fits_bind hfits, hproto] at hparse
  exact readCsum_covered (by omega) (InBounds.of_bind hparse)

theorem parseIcmp6Type_inBounds (h : icmph + icmpHdrSize ≤ pullLen)
    (hcovered : QuotedCovered va icmph pullLen) :
    InBounds (parseIcmp6Type va (u8 va icmph) icmph va.length pullLen) (fun _ => True) := by
  have hip6 : ip6HdrSize = 40 := rfl
  refine .ite (fun _ => .pure trivial) fun _ => .ite (fun _ => .pure trivial) fun _ => ?_
  refine .ite (fun herror => ?_) fun _ => .pure trivial
  rw [add32_eq (by omega)]
  refine .bind (fits_inBounds _ _) fun _ hfits => ?_
  exact parseQuoted6_inBounds hn hfits (by omega) (hcovered herror)

theorem parseIcmp6_inBounds (h : icmph + icmpHdrSize ≤ pullLen)
    (hcovered : QuotedCovered va icmph pullLen) :
    InBounds (parseIcmp6 va icmph va.length pullLen) (fun p => p.pullLen ≤ va.length) := by
  have hsize : icmpHdrSize = 8 := rfl
  refine .bind (.readU8 (by omega)) fun type htype => ?_
  rw [htype]
  refine .bind (parseIcmp6Type_inBounds hn hpull h hcovered) fun parsed _ => ?_
  exact .bind (fits_inBounds _ _) fun _ hfits => .pure hfits

theorem parseIcmp6_covered (h : icmph + icmpHdrSize ≤ pullLen) {Q : Parsed → Prop}
    (hparse : InBounds (parseIcmp6 va icmph va.length pullLen) Q) :
    QuotedCovered va icmph pullLen := by
  have hsize : icmpHdrSize = 8 := rfl
  have hip6 : ip6HdrSize = 40 := rfl
  intro herror hfrag hfits
  have htype : (readU8 va icmph : Checked PktRet ℕ) = .ok _ := if_pos (by omega)
  rw [parseIcmp6, htype] at hparse
  have hparsed := InBounds.of_bind (p := parseIcmp6Type va (u8 va icmph) icmph va.length pullLen) hparse
  have hsol : u8 va icmph ≠ vrIcmp6TypeNeighSol := by
    unfold vrIcmp6TypeNeighSol
    omega
  have hrsol : u8 va icmph ≠ vrIcmp6TypeRouterSol := by
    unfold vrIcmp6TypeRouterSol
    omega
  rw [parseIcmp6Type, if_neg hsol, if_neg hrsol, if_pos herror, add32_eq (by omega),
    fits_bind (by omega)] at hparsed
  exact parseQuoted6_covered hn (by omega) hparsed hfrag hfits

end

/-- `vr_ip_transport_parse` gets behind the branches of TCP and ICMP, with what the IP header at
`iph` told. -/
structure Reached (va : List Byte) (iph : ℕ) (ip6h : Option ℕ) (pullLen : ℕ) (net : Network) :
    Prop where
  network : parseNetwork va iph ip6h va.length pullLen = .ok net
  valid : net.thdrValid = true
  pulled : net.pullLen + transportSize net.ipProto ≤ va.length
  notTcp : net.ipProto ≠ vrIpProtoTcp
  notIcmp : net.ipProto ≠ vrIpProtoIcmp

/-- What the branches behind those of TCP and ICMP read is there: eight bytes if the packet is taken
for UDP, and the checksum of a fragment that is quoted in an error of ICMPv6. -/
def Covered (va : List Byte) (ip6h : Option ℕ) (pullLen : ℕ) : Prop :=
  ∀ off net, ip6h = some off → Reached va off ip6h pullLen net →
    if u8 va (off + 9) = vrIpProtoUdp then off + net.hlen + 8 ≤ va.length
    else net.ipProto = vrIpProtoIcmp6 →
      QuotedCovered va (off + net.hlen) (net.pullLen + icmpHdrSize)

section

variable {net : Network} (hnet : NetworkOk va iph net) (hheader : HeaderAt va (some iph) ip6h pullLen)
include hn hnet hheader

theorem parseProto_inBounds (hnetwork : parseNetwork va iph ip6h va.length pullLen = .ok net)
    (hvalid : net.thdrValid = true) (hpulled : net.pullLen + transportSize net.ipProto ≤ va.length)
    (hvers : ip6h = none → u8 va iph / 16 ≠ 6) (hcovered : Covered va ip6h pullLen)
    (adj : Option MssAdj) (toVmMssAdj : Bool) :
    InBounds (parseProto va iph ip6h net.ipProto net.hlen va.length
      (net.pullLen + transportSize net.ipProto) adj toVmMssAdj) (fun p => p.pullLen ≤ va.length) := by
  have hsize : vrIpSize = 20 := rfl
  have hiph := hheader.ip4 iph rfl
  have hpull := hheader.pull
  have hl4 := hnet.pulled hvalid
  rw [← hnet.offset hvalid] at hl4
  refine .ite (fun htcp => ?_) fun htcp => .ite (fun hicmp => ?_) fun hicmp => ?_
  · rw [htcp] at hpulled ⊢
    exact (parseTcp_inBounds (Nat.add_le_add_right hl4 _) hpulled _ adj toVmMssAdj).mono
      fun _ hp => hp.1
  · rw [hicmp] at hpulled ⊢
    exact parseIcmp_inBounds hn hpulled (Nat.add_le_add_right hl4 _)
  have hreached : Reached va iph ip6h pullLen net := ⟨hnetwork, hvalid, hpulled, htcp, hicmp⟩
  refine .bind (.readU8 (by omega)) fun proto hproto => .ite (fun hudp => ?_) fun hudp => ?_
  · have hread : iph + net.hlen + 8 ≤ va.length := by
      rw [hproto] at hudp
      cases ip6h with
      | none =>
        -- a packet of IPv4 that is taken for UDP is one
        have hl4Proto : net.ipProto = vrIpProtoUdp := by
          rw [hnet.proto, l4Proto, if_neg (hvers rfl), hudp]
        rw [hl4Proto] at hpulled
        have hudpSize : transportSize vrIpProtoUdp = 8 := rfl
        omega
      | some off =>
        obtain rfl : iph = off := Option.some.inj (hheader.ip6 off rfl).1
        have hcover := hcovered iph net rfl hreached
        rwa [if_pos hudp] at hcover
    exact .bind (.readLe16 (by omega)) fun _ _ => .pure hpulled
  · refine .ite (fun hicmp6 => ?_) fun _ => .pure hpulled
    cases ip6h with
    | none => exact .pure hpulled
    | some off =>
      obtain rfl : iph = off := Option.some.inj (hheader.ip6 off rfl).1
      have hcover := hcovered iph net rfl hreached
      rw [hproto] at hudp
      rw [if_neg hudp] at hcover
      rw [hicmp6] at hpulled ⊢
      exact parseIcmp6_inBounds hn hpulled (Nat.add_le_add_right hl4 _) (hcover hicmp6)

end

theorem vrIpTransportParse_reached {net : Network} (hr : Reached va iph ip6h pullLen net)
    (hn : va.length + 2 ^ 8 ≤ 2 ^ 32) (adj : Option MssAdj) (toVmMssAdj : Bool) :
    vrIpTransportParse va (some iph) ip6h va.length adj toVmMssAdj pullLen =
      (parseProto va iph ip6h net.ipProto net.hlen va.length
        (net.pullLen + transportSize net.ipProto) adj toVmMssAdj >>= fun parsed =>
          pure ⟨some (iph + net.hlen), net.hlen, parsed.thCsum, net.pullLen, parsed.pullLen,
            parsed.data⟩) := by
  have hpulled := hr.pulled
  rw [vrIpTransportParse]
  dsimp only
  rw [hr.network]
  change (if net.thdrValid = true then _ else _) = _
  rw [if_pos hr.valid, add32_eq (by omega), fits_bind hpulled]

/-- **`vr_ip_transport_parse` stays inside the buffer** exactly if what it reads unasked is there. -/
theorem vrIpTransportParse_inBounds_iff (hn : va.length + 2 ^ 8 ≤ 2 ^ 32) {iph : Option ℕ}
    (h : HeaderAt va iph ip6h pullLen) (adj : Option MssAdj) (toVmMssAdj : Bool) :
    InBounds (vrIpTransportParse va iph ip6h va.length adj toVmMssAdj pullLen)
      (fun r => r.pullLen ≤ va.length) ↔ Covered va ip6h pullLen := by
  have hsize : vrIpSize = 20 := rfl
  constructor
  · rintro hparse off net rfl hr
    obtain ⟨rfl, -⟩ := h.ip6 off rfl
    have hnet : NetworkOk va off net := by
      have hnet := parseNetwork_inBounds hn h
      rwa [hr.network] at hnet
    have hl4 := hnet.pulled hr.valid
    rw [← hnet.offset hr.valid] at hl4
    have hpulled := hr.pulled
    have hoff := h.ip4 off rfl
    have hread : (readU8 va (off + 9) : Checked PktRet ℕ) = .ok _ := if_pos (by have := h.pull; omega)
    rw [vrIpTransportParse_reached hr hn] at hparse
    have hproto := InBounds.of_bind hparse
    rw [parseProto, if_neg hr.notTcp, if_neg hr.notIcmp, hread] at hproto
    change InBounds (if u8 va (off + 9) = vrIpProtoUdp then _ else _) _ at hproto
    split_ifs at hproto ⊢ with hudp hicmp6
    · exact (InBounds.of_bind hproto).of_readLe16.1
    · intro _
      rw [hicmp6] at hproto hpulled
      exact parseIcmp6_covered hn hpulled (Nat.add_le_add_right hl4 _) hproto
    · exact fun h => absurd h hicmp6
  · intro hcovered
    cases iph with
    | none => exact .pure h.pull
    | some iph =>
      have hle := h.ip4 iph rfl
      have hpull := h.pull
      by_cases hvers : ip6h = none → u8 va iph / 16 ≠ 6
      · refine .bind (parseNetwork_inBounds hn h).result fun net hnet => ?_
        obtain ⟨hnet, hnetwork⟩ := hnet
        refine .ite (fun hvalid => ?_) fun hvalid => ?_
        · have hbound := hnet.bound
          have htsize := transportSize_le net.ipProto
          rw [add32_eq (by omega)]
          refine .bind (fits_inBounds _ _) fun _ hfits => ?_
          exact .bind (parseProto_inBounds hn hnet h hnetwork hvalid hfits hvers hcovered adj
            toVmMssAdj) fun _ hp => .pure hp
        · exact .pure (hnet.invalid (Bool.eq_false_iff.mpr hvalid))
      · -- a header of IPv6 without `ip6h` is not parsed
        push Not at hvers
        obtain ⟨rfl, hip6⟩ := hvers
        have hnet : InBounds (parseNetwork va iph none va.length pullLen) (fun _ => False) := by
          refine .bind (vrIpIsIp6_inBounds (by omega)) fun ip6 heq => ?_
          rw [heq, decide_eq_true hip6]
          exact .leave _
        exact .bind hnet fun _ hfalse => hfalse.elim

/-! ### The tunnel -/

/-- The outer label is one that is ignored. -/
def TwoLabels (va : List Byte) (pullLen : ℕ) : Prop :=
  ntohl (le32 va pullLen) / 2 ^ 8 % 2 = 0 ∧ ntohl (le32 va pullLen) / 2 ^ 12 = 0xFFFFF

/-- Two labels are followed by four bytes. -/
def LabelsFit (va : List Byte) (pullLen : ℕ) : Prop :=
  TwoLabels va pullLen → pullLen + 12 ≤ va.length

/-- Every VLAN tag that the loop gets to, from the type `ethProto` at the end of what has been pulled,
is in the buffer. -/
def TagsFit (va : List Byte) (ethProto pullLen : ℕ) : Prop :=
  ∀ k, ntohs ethProto = vrEthProtoVlan →
    (∀ j < k, ntohs (le16 va (pullLen + 4 * j + 2)) = vrEthProtoVlan) →
      pullLen + 4 * (k + 1) ≤ va.length

/-- The same for the Ethernet frame that was found, if there is one. -/
def FrameFits (va : List Byte) (found : Found) : Prop :=
  ∀ eth r, found.eth = some eth → parseEth va eth va.length found.pullLen = .ok r → TagsFit va r.1 r.2

/-- What `vr_inner_pkt_parse` reads unasked is there. -/
def TunnelCovered (va : List Byte) (tunnelTypeCb : ℕ → ℕ → ℤ) (greUdpEncap ipProto pullLen : ℕ) :
    Prop :=
  if mplsTunnel greUdpEncap ipProto = true then
    (pullLen + 8 ≤ va.length → LabelsFit va pullLen) ∧
      ∀ found, parseMpls va tunnelTypeCb va.length pullLen = .ok found → FrameFits va found
  else if vxlanTunnel greUdpEncap ipProto = true then
    ∀ found, parseVxlan va.length pullLen = .ok found → FrameFits va found
  else True

/-- An Ethernet header that has been found is the last that was pulled. -/
structure FoundOk (va : List Byte) (found : Found) : Prop where
  header : HeaderAt va found.iph found.ip6h found.pullLen
  eth : ∀ e, found.eth = some e → e + vrEtherHlen = found.pullLen

theorem readLabel_inBounds (h : pullLen + 8 ≤ va.length) (hlabels : LabelsFit va pullLen) :
    InBounds (readLabel va pullLen) (fun r => r.2 ≤ 8 ∧ pullLen + r.2 + 4 ≤ va.length) := by
  refine .bind (.readLe32 (by omega)) fun w hw => .ite (fun htwo => ?_) fun _ => ?_
  · rw [hw] at htwo
    have hlen := hlabels htwo
    have hhdr : vrMplsHdrLen = 4 := rfl
    exact .bind (.readLe32 (by omega)) fun _ _ =>
      .pure ⟨(by decide : 2 * vrMplsHdrLen ≤ 8), by dsimp only; omega⟩
  · exact .pure ⟨(by decide : vrMplsHdrLen ≤ 8), h⟩

/-- The results of `parseTunnel`, before they are compared with the bound. -/
theorem parseTunnel_inBounds {labelLen : ℕ} (hn : pullLen + 2 ^ 8 ≤ 2 ^ 32) (hlabel : labelLen ≤ 8)
    (h : pullLen + labelLen + 4 ≤ va.length) (pktType : ℤ) :
    InBounds (parseTunnel va pktType labelLen pullLen)
      (fun found => found.pullLen ≤ va.length → FoundOk va found) := by
  have hip6 : ip6HdrSize = 40 := rfl
  have hip : vrIpSize = 20 := rfl
  have heth : vrEtherHlen = 14 := rfl
  have hctrl : vrL2CtrlDataLen = 4 := rfl
  have hvxlan : vrVxlanHdrLen = 36 := rfl
  have hframe : ∀ off, off ≤ 48 → ∀ t : ℤ, InBounds (pure (⟨t, add32 pullLen (off + vrEtherHlen),
      some (pullLen + off), none, none⟩ : Found) : Checked PktRet Found)
      (fun found => found.pullLen ≤ va.length → FoundOk va found) := by
    intro off hoff t
    refine .pure fun hpull => ⟨⟨hpull, nofun, nofun⟩, fun e he => ?_⟩
    cases he
    rw [add32_eq (by omega), Nat.add_assoc]
  refine .ite (fun _ => ?_) fun _ => .ite (fun _ => ?_) fun _ => .ite (fun _ => ?_) fun _ =>
    .ite (fun _ => ?_) fun _ => .leave _
  · refine .bind (vrIpIsIp6_inBounds (by omega)) fun ip6 _ => .ite (fun _ => ?_) fun _ => ?_
    · refine .pure fun hpull => ⟨.of_ip6 hpull ?_, nofun⟩
      dsimp only
      rw [add32_eq (by omega)]
      omega
    · refine .bind (vrIpIsIp4_inBounds (by omega)) fun ip4 _ => .ite (fun _ => ?_) fun _ => .leave _
      refine .pure fun hpull => ⟨.of_ip4 hpull ?_, nofun⟩
      dsimp only
      rw [add32_eq (by omega)]
      omega
  · exact hframe _ (by omega) _
  · exact hframe _ (by omega) _
  · exact hframe _ (by omega) _

theorem parseMpls_inBounds (hn : pullLen + 2 ^ 8 ≤ 2 ^ 32)
    (hlabels : pullLen + 8 ≤ va.length → LabelsFit va pullLen) (tunnelTypeCb : ℕ → ℕ → ℤ) :
    InBounds (parseMpls va tunnelTypeCb va.length pullLen) (FoundOk va) := by
  have hsize : vrMplsHdrLen + vrL2CtrlDataLen = 8 := rfl
  refine .bind (fits_inBounds _ _) fun _ hfits => ?_
  rw [add32_eq (by omega)] at hfits
  refine .bind (readLabel_inBounds (by omega) (hlabels (by omega))) fun r hr => ?_
  refine .bind (.readLe32 hr.2) fun control _ => ?_
  refine .bind (parseTunnel_inBounds hn hr.1 hr.2 _) fun found hfound => ?_
  exact .bind (fits_inBounds _ _) fun _ hpull => .pure (hfound hpull)

theorem parseMpls_labelsFit (hn : pullLen + 2 ^ 8 ≤ 2 ^ 32) {tunnelTypeCb : ℕ → ℕ → ℤ}
    {Q : Found → Prop} (h : InBounds (parseMpls va tunnelTypeCb va.length pullLen) Q)
    (hlen : pullLen + 8 ≤ va.length) : LabelsFit va pullLen := by
  intro htwo
  have hhdr : vrMplsHdrLen = 4 := rfl
  have hlabel : readLabel va pullLen = .ok (ntohl (le32 va (pullLen + 4)), 8) := by
    have houter : (readLe32 va pullLen : Checked PktRet ℕ) = .ok _ := if_pos (by omega)
    have hinner : (readLe32 va (pullLen + vrMplsHdrLen) : Checked PktRet ℕ) = .ok _ :=
      if_pos (by omega)
    rw [readLabel, houter]
    refine (if_pos htwo).trans ?_
    rw [hinner]
    rfl
  rw [parseMpls, add32_eq (by have : vrL2CtrlDataLen = 4 := rfl; omega), 
    fits_bind (show pullLen + (vrMplsHdrLen + vrL2CtrlDataLen) ≤ va.length from hlen), hlabel] at h
  exact (InBounds.of_bind (p := readLe32 va (pullLen + 8)) h).of_readLe32.1

theorem parseVxlan_inBounds (hn : pullLen + 2 ^ 8 ≤ 2 ^ 32) :
    InBounds (parseVxlan va.length pullLen) (FoundOk va) := by
  have hvxlan : vrVxlanSize = 8 := rfl
  have heth : vrEtherHlen = 14 := rfl
  refine .bind (fits_inBounds _ _) fun _ hfits => .pure ⟨⟨hfits, nofun, nofun⟩, fun e he => ?_⟩
  cases he
  exact (add32_eq (by rw [add32_eq (by omega)]; omega)).symm

/-! ### Ethernet -/

include hn

include hpull in
theorem parseEth_inBounds {eth : ℕ} (h : eth + vrEtherHlen = pullLen) :
    InBounds (parseEth va eth va.length pullLen) (fun r => r.2 ≤ va.length) := by
  have hsize : vrEtherHlen = 14 := rfl
  refine .bind (.readLe16 (by omega)) fun proto _ => .ite (fun _ => ?_) fun _ => .pure hpull
  refine .bind (fits_inBounds _ _) fun _ hfits => ?_
  have hpull' := add32_eq (a := add32 pullLen vrPbbItagSize) (b := vrEtherHlen) (by omega)
  refine .bind (fits_inBounds _ _) fun _ hfits' => ?_
  exact .bind (.readLe16 (by omega)) fun _ _ => .pure hfits'

omit hn in
theorem tagsFit_vlan {ethProto : ℕ} (h : ntohs ethProto = vrEthProtoVlan) :
    TagsFit va ethProto pullLen ↔
      pullLen + 4 ≤ va.length ∧ TagsFit va (le16 va (pullLen + 2)) (pullLen + 4) := by
  constructor
  · intro hfit
    refine ⟨hfit 0 h fun j hj => absurd hj (Nat.not_lt_zero j), fun k hnext htags => ?_⟩
    have hlast := hfit (k + 1) h fun j hj => by
      cases j with
      | zero => exact hnext
      | succ j =>
        rw [show pullLen + 4 * (j + 1) + 2 = pullLen + 4 + 4 * j + 2 by omega]
        exact htags j (by omega)
    omega
  · rintro ⟨hlen, hfit⟩ k - htags
    cases k with
    | zero => exact hlen
    | succ k =>
      have hlast := hfit k (htags 0 (Nat.succ_pos k)) fun j hj => by
        rw [show pullLen + 4 + 4 * j + 2 = pullLen + 4 * (j + 1) + 2 by omega]
        exact htags (j + 1) (by omega)
      omega

/-- Each round pulls a tag, so the loop ends when the buffer does. -/
theorem skipVlans_inBounds_iff {Q : ℕ × ℕ → Prop} (hQ : ∀ r : ℕ × ℕ, r.2 ≤ va.length → Q r)
    (rounds : ℕ) :
    ∀ ethProto pullLen : ℕ, pullLen ≤ va.length → va.length < pullLen + 4 * rounds →
      (InBounds (skipVlans va va.length rounds ethProto pullLen) Q ↔ TagsFit va ethProto pullLen) := by
  induction rounds with
  | zero => omega
  | succ rounds ih =>
    intro ethProto pullLen hpull hrounds
    have hsize : vrVlanHdrSize = 4 := rfl
    rw [skipVlans]
    by_cases hvlan : ntohs ethProto = vrEthProtoVlan
    · rw [if_pos hvlan, tagsFit_vlan hvlan, add32_eq (by omega)]
      dsimp only
      constructor
      · intro h
        obtain ⟨hlen, hrest⟩ := (InBounds.of_bind h).of_readLe16
        rw [fits_bind (by omega)] at hrest
        exact ⟨hlen, (ih _ _ hlen (by omega)).mp hrest⟩
      · rintro ⟨hlen, hfit⟩
        refine .bind (.readLe16 hlen) fun proto hproto => ?_
        rw [fits_bind (by omega), hproto]
        exact (ih _ _ hlen (by omega)).mpr hfit
    · rw [if_neg hvlan]
      exact ⟨fun _ k h => absurd h hvlan, fun _ => .pure (hQ _ hpull)⟩

include hpull in
theorem parsePayload_inBounds (ethProto : ℕ) :
    InBounds (parsePayload ethProto va.length pullLen)
      (fun r => HeaderAt va r.1 r.2.1 r.2.2) := by
  have hip6 : ip6HdrSize = 40 := rfl
  have hip : vrIpSize = 20 := rfl
  refine .ite (fun _ => ?_) fun _ => .ite (fun _ => ?_) fun _ => .ite (fun _ => ?_) fun _ => ?_
  · exact .bind (fits_inBounds _ _) fun _ hfits => .pure (.of_ip4 hfits (add32_eq (by omega)).ge)
  · exact .bind (fits_inBounds _ _) fun _ hfits => .pure (.of_ip6 hfits (add32_eq (by omega)).ge)
  · exact .bind (fits_inBounds _ _) fun _ hfits => .pure ⟨hfits, nofun, nofun⟩
  · exact .pure ⟨hpull, nofun, nofun⟩

theorem parseFound_inBounds_iff {found : Found} (h : FoundOk va found) (encapType : Encap) :
    InBounds (parseFound va va.length encapType found)
      (fun r => HeaderAt va r.iph r.ip6h r.pullLen) ↔ FrameFits va found := by
  unfold parseFound FrameFits
  cases heth : found.eth with
  | none => exact ⟨fun _ _ _ h => absurd h (by simp), fun _ => .pure h.header⟩
  | some e =>
    have hparse := parseEth_inBounds hn h.header.pull (h.eth e heth)
    -- the loop is the only part that can read outside
    have hskip := fun r : ℕ × ℕ => skipVlans_inBounds_iff hn (Q := fun r => InBounds
        (parsePayload r.1 va.length r.2 >>= fun p =>
          pure (⟨encapType, found.pktType, p.2.2, p.1, p.2.1⟩ : Inner))
        (fun r => HeaderAt va r.iph r.ip6h r.pullLen))
      (fun r' hr' => .bind (parsePayload_inBounds hn hr' _) fun _ hheader => .pure hheader)
      (va.length + 1) r.1 r.2
    constructor
    · intro hfound _ r he hr
      cases he
      dsimp only at hfound
      rw [hr] at hparse hfound
      exact (hskip r hparse (by omega)).mp (InBounds.of_bind hfound)
    · intro hfits
      refine .bind hparse.result fun r hr => ?_
      exact .bind ((hskip r hr.1 (by omega)).mpr (hfits e r rfl hr.2)) fun _ hrest => hrest

/-- **`vr_inner_pkt_parse` stays inside the buffer**, and so is the header that it finds, exactly if
what it reads unasked is there. -/
theorem vrInnerPktParse_inBounds_iff (hpull : pullLen + 2 ^ 8 ≤ 2 ^ 32) (tunnelTypeCb : ℕ → ℕ → ℤ)
    (greUdpEncap ipProto : ℕ) :
    InBounds (vrInnerPktParse va tunnelTypeCb va.length greUdpEncap ipProto pullLen)
      (fun r => HeaderAt va r.iph r.ip6h r.pullLen) ↔
        TunnelCovered va tunnelTypeCb greUdpEncap ipProto pullLen := by
  unfold vrInnerPktParse TunnelCovered
  split_ifs
  · constructor
    · intro h
      refine ⟨parseMpls_labelsFit hpull (InBounds.of_bind h), fun found hfound => ?_⟩
      have hok := parseMpls_inBounds hpull (parseMpls_labelsFit hpull (InBounds.of_bind h)) tunnelTypeCb
      rw [hfound] at h hok
      exact (parseFound_inBounds_iff hn hok _).mp h
    · rintro ⟨hlabels, hframe⟩
      refine .bind (parseMpls_inBounds hpull hlabels tunnelTypeCb).result fun found hfound => ?_
      exact (parseFound_inBounds_iff hn hfound.1 _).mpr (hframe found hfound.2)
  · constructor
    · intro h found hfound
      have hok := @parseVxlan_inBounds va _ hpull
      rw [hfound] at h hok
      exact (parseFound_inBounds_iff hn hok _).mp h
    · intro hframe
      refine .bind (parseVxlan_inBounds hpull).result fun found hfound => ?_
      exact (parseFound_inBounds_iff hn hfound.1 _).mpr (hframe found hfound.2)
  · exact ⟨fun _ => trivial, fun _ => .leave _⟩

end

/-! ### Both parsers -/

/-- **The parsers end and stay inside the packet** exactly if the bytes are there that they read
before they compare.  The first part is about any tunnel and any callback, the second about any IP
header that has been pulled. -/
theorem parsers_inBounds (va : List Byte) (hn : va.length + 2 ^ 8 ≤ 2 ^ 32) :
    (∀ (tunnelTypeCb : ℕ → ℕ → ℤ) (greUdpEncap ipProto pullLen : ℕ), pullLen + 2 ^ 8 ≤ 2 ^ 32 →
      (InBounds (vrInnerPktParse va tunnelTypeCb va.length greUdpEncap ipProto pullLen)
        (fun r => HeaderAt va r.iph r.ip6h r.pullLen) ↔
          TunnelCovered va tunnelTypeCb greUdpEncap ipProto pullLen)) ∧
    (∀ (iph ip6h : Option ℕ) (pullLen : ℕ) (adj : Option MssAdj) (toVmMssAdj : Bool),
      HeaderAt va iph ip6h pullLen →
      (InBounds (vrIpTransportParse va iph ip6h va.length adj toVmMssAdj pullLen)
        (fun r => r.pullLen ≤ va.length) ↔ Covered va ip6h pullLen)) := by
  refine ⟨fun cb encap proto pullLen hpull => ?_, fun iph ip6h pullLen adj toVm h => ?_⟩
  · exact vrInnerPktParse_inBounds_iff hn hpull cb encap proto
  · exact vrIpTransportParse_inBounds_iff hn h adj toVm

/-- A header of IPv6, with the second byte of its source address. -/
def ip6Header (plen nxt second : Byte) : List Byte :=
  [0x60, 0, 0, 0, 0, plen, nxt, 64, 0x20, second] ++ List.replicate 30 0

/-- The four reads outside of the packet: behind two labels, of a VLAN tag, of a checksum of UDP in
a packet that has no transport header, and of a checksum of TCP behind a quoted fragment header. -/
theorem parsers_oob :
    vrInnerPktParse [0xff, 0xff, 0xf0, 0, 0, 0, 0x11, 0] (fun _ _ => 1) 8 (ntohs 6635) vrIpProtoUdp 0
        = .error .oob ∧
      vrInnerPktParse (List.replicate 20 0 ++ [0x81, 0]) (fun _ _ => 1) 22 (ntohs 4789) vrIpProtoUdp 0
        = .error .oob ∧
      vrIpTransportParse (ip6Header 0 59 17) (some 0) (some 0) 40 none true 40 = .error .oob ∧
      vrIpTransportParse (ip6Header 56 58 1 ++ [1, 0, 0, 0, 0, 0, 0, 0] ++ ip6Header 8 44 1 ++
        [6, 0, 0, 1, 0, 0, 0, 0]) (some 0) (some 0) 96 none true 40 = .error .oob :=
  ⟨rfl, rfl, rfl, rfl⟩

/-- A packet of UDP over IPv6 in a VLAN frame in VXLAN. -/
def vlanPacket : List Byte :=
  List.replicate 20 0 ++ [0x81, 0] ++ [0, 5, 0x86, 0xdd] ++ ip6Header 8 17 17 ++
    [4, 0, 0, 80, 0, 8, 0x12, 0x34]

theorem parsers_inBounds_vlanPacket :
    InBounds (vrInnerPktParse vlanPacket (fun _ _ => 1) vlanPacket.length (ntohs 4789) vrIpProtoUdp 0)
        (fun r => HeaderAt vlanPacket r.iph r.ip6h r.pullLen) ∧
      InBounds (vrIpTransportParse vlanPacket (some 26) (some 26) vlanPacket.length none true 66)
        (fun r => r.pullLen ≤ vlanPacket.length) := by
  obtain ⟨hinner, htransport⟩ := parsers_inBounds vlanPacket (by decide)
  constructor
  · refine (hinner _ _ _ 0 (by decide)).mpr ?_
    unfold TunnelCovered
    rw [if_neg (by decide), if_pos (by decide)]
    intro found hfound eth r heth hr k _ htags
    obtain rfl := Except.ok.inj hfound
    obtain rfl := Option.some.inj heth
    obtain rfl := Except.ok.inj hr
    -- there is one tag, so the type behind it is none of a tag
    cases k with
    | zero => decide +kernel
    | succ k => exact absurd (htags 0 (Nat.succ_pos k)) (by decide +kernel)
  · refine (htransport _ _ _ _ _ (.of_ip6 (by decide +kernel) (by decide))).mpr ?_
    intro off net hoff hr
    obtain rfl := Option.some.inj hoff
    obtain rfl := Except.ok.inj hr.network
    rw [if_pos (by decide +kernel)]
    decide +kernel

end Vrouter.Parse
