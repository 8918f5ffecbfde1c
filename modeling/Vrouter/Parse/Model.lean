import Vrouter.Lib.Checked
import Vrouter.Packet.Headers

/-! # The parsers of the receive path

A translation of `vr_inner_pkt_parse`, which finds the IP header inside a tunnel, and of
`vr_ip_transport_parse`, which goes on from there to the transport header.  Both are given the
buffer `va` and the number `fragSize` of its valid bytes, and keep in `pull_len` how much of it has
to be pulled.  A pointer into the buffer is an offset; `pull_len` is an `unsigned int` and wraps.
A read stops the computation when it is outside of the buffer (`Stop.oob`). -/

namespace Vrouter.Parse

open Vrouter.Lib Vrouter.Packet

/-- The values `PKT_RET_*` that the parsers return; zero is the result. -/
inductive PktRet where
  | slowPath
  | unhandled
  deriving DecidableEq, Repr

/-- Addition of `unsigned int`. -/
def add32 (a b : ℕ) : ℕ := (a + b) % 2 ^ 32

/-- `if (frag_size < pull_len) return PKT_RET_SLOW_PATH` -/
def fits (fragSize pullLen : ℕ) : Checked PktRet Unit :=
  if fragSize < pullLen then leave .slowPath else pure ()

/-! ### Sizes of headers -/

def vrIpSize : ℕ := 20
def vrTcpSize : ℕ := 20
def vrUdpSize : ℕ := 8
def vrSctpSize : ℕ := 12
def vrArpSize : ℕ := 28
def vrVxlanSize : ℕ := 8
def vrEtherAlen : ℕ := 6
def vrVlanHdrSize : ℕ := 4
def vrPbbItagSize : ℕ := 4
def vrNeighborOptionSize : ℕ := 2
def vrIp6AddressLen : ℕ := 16
def vrMplsHdrLen : ℕ := 4
def vrL2CtrlDataLen : ℕ := 4

/-- The complete VXLAN header, with its IP and UDP headers. -/
def vrVxlanHdrLen : ℕ := vrVxlanSize + vrIpSize + vrUdpSize

/-! ### Fields -/

def vrIpIsIp4 (va : List Byte) (iph : ℕ) : Checked PktRet Bool := do
  let b ← readU8 va iph
  pure (decide (b / 16 = 4))

def vrIpIsIp6 (va : List Byte) (iph : ℕ) : Checked PktRet Bool := do
  let b ← readU8 va iph
  pure (decide (b / 16 = 6))

def vrIpTransportHeaderValid (va : List Byte) (iph : ℕ) : Checked PktRet Bool := do
  let frag ← readLe16 va (iph + 6)
  let ip4 ← vrIpIsIp4 va iph
  pure (!ip4 || decide (ntohs frag % vrIpMf = 0))

def vrIp6TransportHeaderValid (va : List Byte) (ip6h : ℕ) : Checked PktRet Bool := do
  let nxt ← readU8 va (ip6h + 6)
  if nxt = vrIp6ProtoFrag then do
    let frag ← readLe16 va (ip6h + ip6HdrSize + 2)
    pure (decide (ntohs frag / 8 = 0))
  else pure true

def vrIpProtoPull (proto : ℕ) : Bool :=
  proto = vrIpProtoTcp || proto = vrIpProtoUdp || proto = vrIpProtoIcmp || proto = vrIpProtoSctp

def vrIp6ProtoPull (proto : ℕ) : Bool :=
  proto = vrIpProtoTcp || proto = vrIpProtoUdp || proto = vrIpProtoIcmp6 ||
    proto = vrIpProtoSctp || proto = vrIp6ProtoFrag

/-! ### The transport header -/

/-- What the callback `do_tcp_mss_adj` does to the bytes from the TCP header on, given the length
of the IP header. -/
structure MssAdj where
  run : ℕ → List Byte → List Byte
  length_run : ∀ hlen b, (run hlen b).length = b.length

/-- The buffer after the callback. -/
def MssAdj.apply (adj : MssAdj) (va : List Byte) (tcph hlen : ℕ) : List Byte :=
  va.take tcph ++ adj.run hlen (va.drop tcph)

/-- The values that `vr_ip_transport_parse` writes through its arguments, and the buffer as the
callback leaves it. -/
structure Transport where
  thp : Option ℕ
  hlen : ℕ
  thCsum : ℕ
  tcphPullLen : ℕ
  pullLen : ℕ
  data : List Byte
  deriving DecidableEq, Repr

/-- What is known after the IP header: `ip_proto`, `hlen`, `pull_len` and `thdr_valid`. -/
structure Network where
  ipProto : ℕ
  hlen : ℕ
  pullLen : ℕ
  thdrValid : Bool
  deriving DecidableEq, Repr

/-- The header of IPv6, with a fragment header if there is one. -/
def parseIp6 (va : List Byte) (ip6h fragSize pullLen : ℕ) : Checked PktRet Network := do
  let ipProto ← readU8 va (ip6h + 6)
  if ipProto = vrIp6ProtoFrag then do
    let pullLen := add32 pullLen ip6FragSize
    fits fragSize pullLen
    let ipProto ← readU8 va (ip6h + ip6HdrSize)
    let thdrValid ← vrIp6TransportHeaderValid va ip6h
    pure ⟨ipProto, ip6HdrSize + ip6FragSize, pullLen, thdrValid⟩
  else do
    let thdrValid ← vrIp6TransportHeaderValid va ip6h
    pure ⟨ipProto, ip6HdrSize, pullLen, thdrValid⟩

/-- The header of IPv4, with its options. -/
def parseIp4 (va : List Byte) (iph pullLen : ℕ) : Checked PktRet Network := do
  let ipProto ← readU8 va (iph + 9)
  let thdrValid ← vrIpTransportHeaderValid va iph
  if thdrValid = true then do
    let b ← readU8 va iph
    let hlen := b % 16 * 4
    pure ⟨ipProto, hlen, add32 pullLen (hlen + (2 ^ 32 - vrIpSize)), true⟩
  else pure ⟨ipProto, 0, pullLen, false⟩

/-- The first part of `vr_ip_transport_parse`. -/
def parseNetwork (va : List Byte) (iph : ℕ) (ip6h : Option ℕ) (fragSize pullLen : ℕ) :
    Checked PktRet Network := do
  let ip6 ← vrIpIsIp6 va iph
  if ip6 = true then
    match ip6h with
    | some ip6h => parseIp6 va ip6h fragSize pullLen
    | none => leave .unhandled
  else do
    let ip4 ← vrIpIsIp4 va iph
    if ip4 = true then parseIp4 va iph pullLen else leave .unhandled

/-- The size of the transport header that is pulled. -/
def transportSize (ipProto : ℕ) : ℕ :=
  if ipProto = vrIpProtoTcp then vrTcpSize
  else if ipProto = vrIpProtoUdp then vrUdpSize
  else if ipProto = vrIpProtoIcmp ∨ ipProto = vrIpProtoIcmp6 then icmpHdrSize
  else if ipProto = vrIpProtoSctp then vrSctpSize
  else 0

/-- A part of the packet that has been parsed: the buffer, `th_csum` and `pull_len`. -/
structure Parsed where
  data : List Byte
  thCsum : ℕ
  pullLen : ℕ
  deriving DecidableEq, Repr

/-- Adjust the MSS of a SYN, or leave it to the slow path if there is no callback. -/
def adjustMss (va : List Byte) (tcph hlen : ℕ) (adj : Option MssAdj) (toVmMssAdj : Bool) :
    Checked PktRet (List Byte) := do
  let flags ← readLe16 va (tcph + 12)
  if ntohs flags / 2 % 2 = 1 ∧ toVmMssAdj = true then
    match adj with
    | some adj => pure (adj.apply va tcph (hlen % 256))
    | none => leave .slowPath
  else pure va

/-- TCP, with its options. -/
def parseTcp (va : List Byte) (tcph hlen fragSize pullLen : ℕ) (adj : Option MssAdj)
    (toVmMssAdj : Bool) : Checked PktRet Parsed := do
  let va ← adjustMss va tcph hlen adj toVmMssAdj
  let flags ← readLe16 va (tcph + 12)
  let offset := ntohs flags / 2 ^ 12 * 4
  if vrTcpSize < offset then do
    let pullLen := add32 pullLen (offset - vrTcpSize)
    fits fragSize pullLen
    let thCsum ← readLe16 va (tcph + 16)
    pure ⟨va, thCsum, pullLen⟩
  else do
    let thCsum ← readLe16 va (tcph + 16)
    pure ⟨va, thCsum, pullLen⟩

/-- The size of the header that is pulled from a packet quoted by ICMP. -/
def quotedSize (proto : ℕ) : ℕ :=
  if proto = vrIpProtoTcp then vrTcpSize
  else if proto = vrIpProtoUdp then vrUdpSize
  else if proto = vrIpProtoSctp then vrSctpSize
  else icmpHdrSize

/-- The checksum of the transport header at `thdr`, or the one so far. -/
def readCsum (va : List Byte) (icmp proto thdr thCsum : ℕ) : Checked PktRet ℕ :=
  if proto = vrIpProtoTcp then readLe16 va (thdr + 16)
  else if proto = vrIpProtoUdp then readLe16 va (thdr + 6)
  else if proto = icmp then readLe16 va (thdr + 2)
  else pure thCsum

/-- ICMP, with the packet that an error quotes. -/
def parseIcmp (va : List Byte) (icmph fragSize pullLen : ℕ) : Checked PktRet Parsed := do
  let thCsum ← readLe16 va (icmph + 2)
  let type ← readU8 va icmph
  if type = vrIcmpTypeDestUnreach ∨ type = vrIcmpTypeTimeExceeded then do
    let pullLen := add32 pullLen vrIpSize
    fits fragSize pullLen
    let iph := icmph + icmpHdrSize
    let b ← readU8 va iph
    let hlen := b % 16 * 4
    let pullLen := add32 pullLen (hlen + (2 ^ 32 - vrIpSize))
    fits fragSize pullLen
    let proto ← readU8 va (iph + 9)
    if vrIpProtoPull proto = true then do
      let pullLen := add32 pullLen (quotedSize proto)
      fits fragSize pullLen
      let thCsum ← readCsum va vrIpProtoIcmp proto (iph + hlen) thCsum
      pure ⟨va, thCsum, pullLen⟩
    else pure ⟨va, thCsum, pullLen⟩
  else pure ⟨va, thCsum, pullLen⟩

def vrIcmp6TypeRouterSol : ℕ := 133
def vrIcmp6TypeNeighSol : ℕ := 135

/-- The packet that an error of ICMPv6 quotes.  The checksum behind a fragment header is read before
it is known to be there. -/
def parseQuoted6 (va : List Byte) (ip6h fragSize pullLen : ℕ) : Checked PktRet Parsed := do
  let nxt ← readU8 va (ip6h + 6)
  if vrIp6ProtoPull nxt = true then
    if nxt = vrIp6ProtoFrag then do
      let pullLen := add32 pullLen ip6FragSize
      fits fragSize pullLen
      let proto ← readU8 va (ip6h + ip6HdrSize)
      let thCsum ← readCsum va vrIpProtoIcmp6 proto (ip6h + ip6HdrSize + ip6FragSize) 0
      let size := if proto = vrIpProtoTcp ∨ proto = vrIpProtoUdp ∨ proto = vrIpProtoIcmp6 ∨
        proto = vrIpProtoSctp then quotedSize proto else 0
      pure ⟨va, thCsum, add32 pullLen size⟩
    else do
      let pullLen := add32 pullLen (quotedSize nxt)
      fits fragSize pullLen
      let thCsum ← readCsum va vrIpProtoIcmp6 nxt (ip6h + ip6HdrSize) 0
      pure ⟨va, thCsum, pullLen⟩
  else pure ⟨va, 0, pullLen⟩

/-- The parts of an ICMPv6 message that are pulled. -/
def parseIcmp6Type (va : List Byte) (type icmph fragSize pullLen : ℕ) : Checked PktRet Parsed :=
  if type = vrIcmp6TypeNeighSol then
    pure ⟨va, 0, add32 pullLen (vrNeighborOptionSize + vrIp6AddressLen + vrEtherAlen)⟩
  else if type = vrIcmp6TypeRouterSol then pure ⟨va, 0, add32 pullLen 8⟩
  else if type < 128 then do
    let pullLen := add32 pullLen ip6HdrSize
    fits fragSize pullLen
    parseQuoted6 va (icmph + icmpHdrSize) fragSize pullLen
  else pure ⟨va, 0, pullLen⟩

/-- ICMPv6.  Its own checksum is not read. -/
def parseIcmp6 (va : List Byte) (icmph fragSize pullLen : ℕ) : Checked PktRet Parsed := do
  let type ← readU8 va icmph
  let parsed ← parseIcmp6Type va type icmph fragSize pullLen
  fits fragSize parsed.pullLen
  pure parsed

/-- The branches for the transport protocols.  The one for UDP asks for `iph->ip_proto`, in IPv6 a
byte of the source address. -/
def parseProto (va : List Byte) (iph : ℕ) (ip6h : Option ℕ) (ipProto hlen fragSize pullLen : ℕ)
    (adj : Option MssAdj) (toVmMssAdj : Bool) : Checked PktRet Parsed :=
  if ipProto = vrIpProtoTcp then parseTcp va (iph + hlen) hlen fragSize pullLen adj toVmMssAdj
  else if ipProto = vrIpProtoIcmp then parseIcmp va (iph + hlen) fragSize pullLen
  else do
    let proto ← readU8 va (iph + 9)
    if proto = vrIpProtoUdp then do
      let thCsum ← readLe16 va (iph + hlen + 6)
      pure ⟨va, thCsum, pullLen⟩
    else if ipProto = vrIpProtoIcmp6 then
      match ip6h with
      | some ip6h => parseIcmp6 va (ip6h + hlen) fragSize pullLen
      | none => pure ⟨va, 0, pullLen⟩
    else pure ⟨va, 0, pullLen⟩

def vrIpTransportParse (va : List Byte) (iph ip6h : Option ℕ) (fragSize : ℕ)
    (adj : Option MssAdj) (toVmMssAdj : Bool) (pullLen : ℕ) : Checked PktRet Transport :=
  match iph with
  | none => pure ⟨none, 0, 0, 0, pullLen, va⟩
  | some iph => do
    let net ← parseNetwork va iph ip6h fragSize pullLen
    if net.thdrValid = true then do
      let pullLen := add32 net.pullLen (transportSize net.ipProto)
      fits fragSize pullLen
      let parsed ← parseProto va iph ip6h net.ipProto net.hlen fragSize pullLen adj toVmMssAdj
      pure ⟨some (iph + net.hlen), net.hlen, parsed.thCsum, net.pullLen, parsed.pullLen,
        parsed.data⟩
    else pure ⟨none, net.hlen, 0, 0, net.pullLen, va⟩

/-! ### The tunnel -/

def vrEthProtoArp : ℕ := 0x806
def vrEthProtoIp : ℕ := 0x800
def vrEthProtoIp6 : ℕ := 0x86DD
def vrEthProtoVlan : ℕ := 0x8100
def vrEthProtoPbb : ℕ := 0x88E7

/-- `VR_GRE_PROTO_MPLS_NO`, in network order. -/
def vrGreProtoMplsNo : ℕ := ntohs 0x8847

def vrVxlanUdpDstPort : ℕ := 4789

def vrMplsUdpPort (port : ℕ) : Bool := port = 51234 || port = 6635

/-- `ntohl` of a little-endian host. -/
def ntohl (w : ℕ) : ℕ := swap16 (w / 2 ^ 16) + 2 ^ 16 * swap16 (w % 2 ^ 16)

inductive Encap where
  | mpls
  | vxlan
  deriving DecidableEq, Repr

/-- The values that `vr_inner_pkt_parse` writes through its arguments. -/
structure Inner where
  encapType : Encap
  pktType : ℤ
  pullLen : ℕ
  iph : Option ℕ
  ip6h : Option ℕ
  deriving DecidableEq, Repr

/-- What has been found behind the tunnel header: an IP header, or an Ethernet header at `eth`. -/
structure Found where
  pktType : ℤ
  pullLen : ℕ
  eth : Option ℕ
  iph : Option ℕ
  ip6h : Option ℕ
  deriving DecidableEq, Repr

/-- The label and the length of the labels; an outer label that is all ones is ignored. -/
def readLabel (va : List Byte) (pullLen : ℕ) : Checked PktRet (ℕ × ℕ) := do
  let w ← readLe32 va pullLen
  let label := ntohl w
  if label / 2 ^ 8 % 2 = 0 ∧ label / 2 ^ 12 = 0xFFFFF then do
    let w ← readLe32 va (pullLen + vrMplsHdrLen)
    pure (ntohl w, 2 * vrMplsHdrLen)
  else pure (label, vrMplsHdrLen)

/-- What follows the labels, by the type of the tunnel. -/
def parseTunnel (va : List Byte) (pktType : ℤ) (labelLen pullLen : ℕ) : Checked PktRet Found :=
  if pktType = 1 then do
    let iph := pullLen + labelLen
    let ip6 ← vrIpIsIp6 va iph
    if ip6 = true then
      pure ⟨pktType, add32 pullLen (labelLen + ip6HdrSize), none, some iph, some iph⟩
    else do
      let ip4 ← vrIpIsIp4 va iph
      if ip4 = true then
        pure ⟨pktType, add32 pullLen (labelLen + vrIpSize), none, some iph, none⟩
      else leave .unhandled
  else if pktType = 3 then
    let off := labelLen + vrL2CtrlDataLen + vrVxlanHdrLen
    pure ⟨pktType, add32 pullLen (off + vrEtherHlen), some (pullLen + off), none, none⟩
  else if pktType = 4 then
    let off := labelLen + vrL2CtrlDataLen
    pure ⟨pktType, add32 pullLen (off + vrEtherHlen), some (pullLen + off), none, none⟩
  else if pktType = 2 then
    pure ⟨pktType, add32 pullLen (labelLen + vrEtherHlen), some (pullLen + labelLen), none, none⟩
  else leave .unhandled

/-- MPLS.  The callback tells from label and control data what the packet is. -/
def parseMpls (va : List Byte) (tunnelTypeCb : ℕ → ℕ → ℤ) (fragSize pullLen : ℕ) :
    Checked PktRet Found := do
  fits fragSize (add32 pullLen (vrMplsHdrLen + vrL2CtrlDataLen))
  let (label, labelLen) ← readLabel va pullLen
  let controlData ← readLe32 va (pullLen + labelLen)
  let found ← parseTunnel va (tunnelTypeCb label controlData) labelLen pullLen
  fits fragSize found.pullLen
  pure found

/-- VXLAN. -/
def parseVxlan (fragSize pullLen : ℕ) : Checked PktRet Found := do
  let pullLen := add32 pullLen vrVxlanSize
  fits fragSize (add32 pullLen vrEtherHlen)
  pure ⟨0, add32 pullLen vrEtherHlen, some pullLen, none, none⟩

/-- The type of an Ethernet frame, behind a PBB header if there is one. -/
def parseEth (va : List Byte) (eth fragSize pullLen : ℕ) : Checked PktRet (ℕ × ℕ) := do
  let ethProto ← readLe16 va (eth + 12)
  if ntohs ethProto = vrEthProtoPbb then do
    let pullLen := add32 pullLen vrPbbItagSize
    fits fragSize pullLen
    let eth := pullLen
    let pullLen := add32 pullLen vrEtherHlen
    fits fragSize pullLen
    let ethProto ← readLe16 va (eth + 12)
    pure (ethProto, pullLen)
  else pure (ethProto, pullLen)

/-- The loop over VLAN tags, with a bound on its rounds.  A tag is read before it is known to be
there. -/
def skipVlans (va : List Byte) (fragSize : ℕ) : ℕ → ℕ → ℕ → Checked PktRet (ℕ × ℕ)
  | rounds, ethProto, pullLen =>
    if ntohs ethProto = vrEthProtoVlan then
      match rounds with
      | 0 => .error .rounds
      | rounds + 1 => do
        let ethProto ← readLe16 va (pullLen + 2)
        let pullLen := add32 pullLen vrVlanHdrSize
        fits fragSize pullLen
        skipVlans va fragSize rounds ethProto pullLen
    else pure (ethProto, pullLen)

/-- The packet in an Ethernet frame: `iph`, `ip6h` and `pull_len`. -/
def parsePayload (ethProto fragSize pullLen : ℕ) : Checked PktRet (Option ℕ × Option ℕ × ℕ) :=
  if ntohs ethProto = vrEthProtoIp then do
    fits fragSize (add32 pullLen vrIpSize)
    pure (some pullLen, none, add32 pullLen vrIpSize)
  else if ntohs ethProto = vrEthProtoIp6 then do
    fits fragSize (add32 pullLen ip6HdrSize)
    pure (some pullLen, some pullLen, add32 pullLen ip6HdrSize)
  else if ntohs ethProto = vrEthProtoArp then do
    fits fragSize (add32 pullLen vrArpSize)
    pure (none, none, add32 pullLen vrArpSize)
  else pure (none, none, pullLen)

/-- The second part of `vr_inner_pkt_parse`. -/
def parseFound (va : List Byte) (fragSize : ℕ) (encapType : Encap) (found : Found) :
    Checked PktRet Inner :=
  match found.eth with
  | none => pure ⟨encapType, found.pktType, found.pullLen, found.iph, found.ip6h⟩
  | some eth => do
    let (ethProto, pullLen) ← parseEth va eth fragSize found.pullLen
    let (ethProto, pullLen) ← skipVlans va fragSize (fragSize + 1) ethProto pullLen
    let (iph, ip6h, pullLen) ← parsePayload ethProto fragSize pullLen
    pure ⟨encapType, found.pktType, pullLen, iph, ip6h⟩

/-- The tunnel is one of MPLS, over GRE or UDP. -/
def mplsTunnel (greUdpEncap ipProto : ℕ) : Bool :=
  (ipProto = vrIpProtoGre && greUdpEncap = vrGreProtoMplsNo) ||
    (ipProto = vrIpProtoUdp && vrMplsUdpPort (ntohs greUdpEncap))

def vxlanTunnel (greUdpEncap ipProto : ℕ) : Bool :=
  ipProto = vrIpProtoUdp && ntohs greUdpEncap = vrVxlanUdpDstPort

def vrInnerPktParse (va : List Byte) (tunnelTypeCb : ℕ → ℕ → ℤ) (fragSize greUdpEncap ipProto : ℕ)
    (pullLen : ℕ) : Checked PktRet Inner :=
  if mplsTunnel greUdpEncap ipProto = true then do
    let found ← parseMpls va tunnelTypeCb fragSize pullLen
    parseFound va fragSize .mpls found
  else if vxlanTunnel greUdpEncap ipProto = true then do
    let found ← parseVxlan fragSize pullLen
    parseFound va fragSize .vxlan found
  else leave .unhandled

end Vrouter.Parse
