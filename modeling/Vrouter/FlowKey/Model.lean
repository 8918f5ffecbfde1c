import Vrouter.FatFlow.Model

/-! # Flow keys

A translation of the part of `vr_proto_ip.c`, `vr_proto_ip6.c`, `vr_flow.c` and `vr_fragment.c` that
forms the key of a packet's flow.  The key of a packet with a transport header is read from its
headers, and the fat-flow rules of its interface take parts of it away; an ICMP error is filed under
the packet it quotes.  The ports of the first fragment of a datagram are kept in the fragment table,
and the other fragments get theirs from there.

A packet is the byte string from its network header on, with the interface and the nexthop that it
came with.  The fragment table is the map that its hash table stands for; adding an entry may fail.
The cached flow `fmd_fe`, the tests of `vr_inet_flow_lookup` before the key is formed, the assembler
and the times of the entries are left out: an entry may be reaped at any time. -/

namespace Vrouter.FlowKey

open Vrouter.Lib Vrouter.Mtrie Vrouter.Packet Vrouter.FatFlow

/-! ### Interfaces and nexthops -/

/-- `VIF_TYPE_*` -/
inductive VifType
  | host
  | agent
  | physical
  | virtual
  | xenLlHost
  | gateway
  | virtualVlan
  | stats
  | vlan
  | monitoring
  deriving DecidableEq, Repr

/-- `vif_is_virtual` -/
def VifType.isVirtual (t : VifType) : Bool := t = .virtual || t = .virtualVlan

/-- The fields of `struct vr_interface` that a key depends on.  `vrfTable` gives the nexthop of a
VLAN (`va_nh_id`). -/
structure Vif where
  vifIdx : ℕ
  vifType : VifType
  service : Bool
  vifNhId : ℕ
  vrfTable : Option (ℕ → ℕ)
  fatFlow : VifFatFlow

/-- `vif_is_virtual` -/
def Vif.isVirtual (vif : Vif) : Bool := vif.vifType.isVirtual

/-- `vif_is_fabric` -/
def Vif.isFabric (vif : Vif) : Bool := vif.vifType = .physical

def vifVrfTableGetNh (vif : Vif) (vlan : ℕ) : ℕ :=
  if vlan ≥ vlanIdInvalid ∨ !vif.service then vif.vifNhId
  else match vif.vrfTable with
    | none => vif.vifNhId
    | some nh => nh vlan

/-- The fields of `struct vr_nexthop` that a key depends on; a component is given by its type and
its interface. -/
structure Nh where
  nhId : ℕ
  nhType : NhType
  valid : Bool
  compositeEcmp : Bool
  nhDev : Option Vif
  nhComponentNh : List (Option (NhType × Option Vif))

def vrIsLocalEcmpNh (nh : Nh) : Bool :=
  nh.nhType = .composite && nh.compositeEcmp &&
    nh.nhComponentNh.all fun c => match c with
      | none => true
      | some m => m.1 = .encap

def vrGetEcmpFirstMemberDev (nh : Nh) : Option Vif :=
  if nh.nhType = .composite && nh.compositeEcmp then
    (nh.nhComponentNh.findSome? id).bind Prod.snd
  else none

/-- The fields of `struct vr_packet` and `struct vr_forwarding_md` that a key depends on. -/
structure PktMd where
  vpIf : Vif
  vpNh : Option Nh
  vlan : ℕ
  outerSrcIp : Bool

def vrInetFlowNexthop (pkt : PktMd) : ℕ :=
  match pkt.vpIf.isFabric, pkt.vpNh with
  | true, some nh =>
    if nh.nhType = .encap ∨ nh.nhType = .rcv then (nh.nhDev.map Vif.vifNhId).getD 0 else nh.nhId
  | _, _ =>
    if pkt.vpIf.service then vifVrfTableGetNh pkt.vpIf pkt.vlan else pkt.vpIf.vifNhId

/-- The interface whose rules `vr_flow_fat_flow_lookup` applies. -/
def fatFlowVif (pkt : PktMd) : Option Vif :=
  if pkt.vpIf.isVirtual then some pkt.vpIf
  else if pkt.vpIf.isFabric then
    match pkt.vpNh with
    | none => none
    | some nh =>
      if nh.valid then
        if vrIsLocalEcmpNh nh then vrGetEcmpFirstMemberDev nh else nh.nhDev
      else none
  else none

/-- The mask for a packet to the interface: the ends of the addresses are swapped. -/
def swapIps (m : FatFlowMask) : FatFlowMask := { m with srcIp := m.dstIp, dstIp := m.srcIp }

/-- `vr_flow_fat_flow_lookup`, with the ports in network order. -/
def vrFlowFatFlowLookup (pkt : PktMd) (fam : Family) (proto sport dport : ℕ)
    (saddr daddr : List Byte) : Option (FatFlowMask × List Byte × List Byte) :=
  match fatFlowVif pkt with
  | none => some (noMask, saddr, daddr)
  | some vif =>
    let incoming := decide (pkt.vpIf.vifIdx = vif.vifIdx)
    (vifFatFlowLookup incoming vif.fatFlow fam proto (ntohs sport) (ntohs dport) saddr daddr).map
      fun r => (if incoming then r.1 else swapIps r.1, r.2)

/-! ### Keys -/

/-- `VR_FLOW_KEY_*`: the parts of a key that are filled in. -/
structure FkeyParams where
  proto : Bool
  srcIp : Bool
  srcPort : Bool
  dstIp : Bool
  dstPort : Bool
  deriving DecidableEq, Repr

def vrFlowKeyAll : FkeyParams := ⟨true, true, true, true, true⟩

/-- The parts that a fat-flow mask leaves. -/
def FkeyParams.without (p : FkeyParams) (m : FatFlowMask) : FkeyParams where
  proto := p.proto
  srcIp := p.srcIp && !m.srcIp
  srcPort := p.srcPort && !m.srcPort
  dstIp := p.dstIp && !m.dstIp
  dstPort := p.dstPort && !m.dstPort

/-- `struct vr_flow`, with the ports in network order. -/
structure VrFlow where
  family : Family
  nhId : ℕ
  proto : ℕ
  sip : List Byte
  dip : List Byte
  sport : ℕ
  dport : ℕ
  deriving DecidableEq, Repr

/-- `vr_inet_fill_flow` and `vr_inet6_fill_flow`: the key is zero where it is not filled in. -/
def fillFlow (fam : Family) (nhId : ℕ) (sip dip : List Byte) (proto sport dport : ℕ)
    (p : FkeyParams) : VrFlow where
  family := fam
  nhId := nhId
  proto := if p.proto then proto else 0
  sip := if p.srcIp then sip else List.replicate (rtIpAddrSize fam) 0
  dip := if p.dstIp then dip else List.replicate (rtIpAddrSize fam) 0
  sport := if p.srcPort then sport else 0
  dport := if p.dstPort then dport else 0

/-- Why no key is formed. -/
inductive Drop
  | noFragEntry
  | icmpError
  | noMemory
  deriving DecidableEq, Repr

/-- What forming a key results in.  `flowSet` is a packet that needs no flow, `undefined` one for
which the code reads what is not there. -/
inductive Formed
  | key (flow : VrFlow)
  | flowSet
  | drop (reason : Drop)
  | undefined
  deriving DecidableEq, Repr

/-- The key of a packet whose headers gave the protocol, the ports and the addresses: the fat-flow
rules of its interface are applied. -/
def fatFlowKey (pkt : PktMd) (fam : Family) (proto sport dport : ℕ) (saddr daddr : List Byte)
    (p : FkeyParams) : Formed :=
  match vrFlowFatFlowLookup pkt fam proto sport dport saddr daddr with
  | none => .undefined
  | some (mask, saddr, daddr) =>
    .key (fillFlow fam (vrInetFlowNexthop pkt) saddr daddr proto sport dport (p.without mask))

/-! ### The fragment table -/

/-- `struct vr_fragment_key`, with the two halves of an address in one string. -/
structure FragmentKey where
  sip : List Byte
  dip : List Byte
  id : ℕ
  vrf : ℕ
  custom : ℕ
  deriving DecidableEq, Repr

/-- The fields of `struct vr_fragment` beside its key. -/
structure VrFragment where
  fSport : ℕ
  fDport : ℕ
  fExpected : ℕ
  fReceived : ℕ
  deriving DecidableEq, Repr

abbrev FragmentTable := FragmentKey → Option VrFragment

/-- An IPv4 address in the low half of a key. -/
def lowHalf (a : List Byte) : List Byte := List.replicate 8 0 ++ a ++ List.replicate 4 0

/-- The key of `vr_v4_fragment_add` and of `vr_fragment_get` for IPv4. -/
def fragmentKey4 (vrf : ℕ) (ip : List Byte) (custom : ℕ) : FragmentKey :=
  ⟨lowHalf (ipSaddr ip), lowHalf (ipDaddr ip), ipId ip, vrf, custom⟩

/-- The key of `vr_v6_fragment_add` and of `vr_fragment_get` for IPv6. -/
def fragmentKey6 (vrf : ℕ) (ip6 : List Byte) (custom : ℕ) : FragmentKey :=
  ⟨ip6Src ip6, ip6Dst ip6, ip6FragId ip6, vrf, custom⟩

/-- `vr_fragment_get`: the entry and its key.  The result is `none` if the key is looked up without
being set, which it is for an IPv6 packet that is no fragment. -/
def vrFragmentGet (tbl : FragmentTable) (vrf : ℕ) (ip : List Byte) (custom : ℕ) :
    Option (Option (FragmentKey × VrFragment)) :=
  let find := fun key => (tbl key).map fun frag => (key, frag)
  if vrIpIsIp6 ip then
    if ip6Nxt ip = vrIp6ProtoFrag then some (find (fragmentKey6 vrf ip custom)) else none
  else if vrIpIsIp4 ip then some (find (fragmentKey4 vrf ip custom))
  else some none

/-- `vr_fragment_add`; `none` for `-ENOMEM`. -/
def vrFragmentAdd (tbl : FragmentTable) (key : FragmentKey) (sport dport : ℕ) (len : ℤ)
    (allocOk : Bool) : Option FragmentTable :=
  match tbl key with
  | some _ => some tbl
  | none =>
    if allocOk then
      some (Function.update tbl key (some ⟨sport, dport, 0, (len % 2 ^ 16).toNat⟩))
    else none

/-- What a fragment does to its entry: the bytes are counted, and the entry is deleted when all have
come.  `tail` is the number of bytes that the last fragment tells. -/
def fragmentSeen (tbl : FragmentTable) (key : FragmentKey) (frag : VrFragment) (len : ℤ)
    (tail : Option ℤ) : FragmentTable :=
  let received : ℕ := (((frag.fReceived : ℤ) + len) % 2 ^ 16).toNat
  let expected : ℕ := match tail with
    | some n => (n % 2 ^ 16).toNat
    | none => frag.fExpected
  Function.update tbl key
    (if received = expected then none
    else some { frag with fReceived := received, fExpected := expected })

/-! ### IPv4 -/

/-- The payload bytes of an IPv4 packet, as the code computes them. -/
def ipPayload (ip : List Byte) : ℤ := (ntohs (ipLen ip) : ℤ) - ipHl ip * 4

/-- The transport header. -/
def ipTransport (ip : List Byte) : List Byte := ip.drop (ipHl ip * 4)

/-- The ports that `vr_inet_proto_flow` reads, unless the packet is an ICMP error. -/
def inetPorts (ip : List Byte) : ℕ × ℕ :=
  let t := ipTransport ip
  if ipProto ip = vrIpProtoIcmp then
    if vrIcmpEcho t then (icmpEid t, vrIcmpTypeEchoReply) else (0, icmpType t)
  else if ipProto ip = vrIpProtoTcp ∨ ipProto ip = vrIpProtoUdp ∨ ipProto ip = vrIpProtoSctp then
    (le16 t 0, le16 t 2)
  else (0, 0)

/-- The packet is an ICMP error. -/
def inetIcmpError (ip : List Byte) : Bool :=
  ipProto ip = vrIpProtoIcmp && vrIcmpError (ipTransport ip)

/-- `vr_inet_proto_flow` on the packet that an ICMP error quotes: no fat-flow rules, and no error
in an error. -/
def inetPayloadFlow (pkt : PktMd) (ip : List Byte) (p : FkeyParams) : Formed :=
  if inetIcmpError ip then .drop .icmpError
  else
    .key (fillFlow .inet (vrInetFlowNexthop pkt) (ipSaddr ip) (ipDaddr ip) (ipProto ip)
      (inetPorts ip).1 (inetPorts ip).2 p)

def vrInetProtoFlow (pkt : PktMd) (ip : List Byte) (p : FkeyParams) : Formed :=
  if inetIcmpError ip then
    match inetPayloadFlow pkt ((ipTransport ip).drop icmpHdrSize) p with
    | .key flow =>
      let ports :=
        if flow.proto ≠ vrIpProtoIcmp then (flow.dport, flow.sport) else (flow.sport, flow.dport)
      fatFlowKey pkt .inet flow.proto ports.1 ports.2 flow.dip flow.sip p
    | r => r
  else
    fatFlowKey pkt .inet (ipProto ip) (inetPorts ip).1 (inetPorts ip).2 (ipSaddr ip) (ipDaddr ip) p

/-- `vr_inet_fragment_flow`, and the fragment table afterwards. -/
def vrInetFragmentFlow (tbl : FragmentTable) (vrf : ℕ) (pkt : PktMd) (ip : List Byte)
    (p : FkeyParams) (custom : ℕ) : Formed × FragmentTable :=
  match vrFragmentGet tbl vrf ip custom with
  | none => (.undefined, tbl)
  | some none => (.drop .noFragEntry, tbl)
  | some (some (key, frag)) =>
    let tail :=
      if vrIpFragmentTail ip then some ((ipOffset ip : ℤ) * 8 + ipPayload ip) else none
    (.key (fillFlow .inet (vrInetFlowNexthop pkt) (ipSaddr ip) (ipDaddr ip) (ipProto ip)
        frag.fSport frag.fDport p),
      fragmentSeen tbl key frag (ipPayload ip) tail)

def vrInetFormFlow (tbl : FragmentTable) (vrf : ℕ) (pkt : PktMd) (ip : List Byte) (p : FkeyParams)
    (custom : ℕ) : Formed × FragmentTable :=
  if vrIpTransportHeaderValid ip then (vrInetProtoFlow pkt ip p, tbl)
  else vrInetFragmentFlow tbl vrf pkt ip p custom

/-- A tunnel packet of the fabric, which `vr_inet_flow_lookup` forwards without a flow. -/
def tunnelled (pkt : PktMd) (flow : VrFlow) : Bool :=
  pkt.vpIf.isFabric && !pkt.outerSrcIp &&
    (decide (flow.proto = vrIpProtoGre) ||
      (decide (flow.proto = vrIpProtoUdp) &&
        (decide (ntohs flow.dport = 51234) || decide (ntohs flow.dport = 6635) ||
          decide (ntohs flow.dport = 4789))))

/-- The first fragment of a datagram is entered into the fragment table, with the ports of its
key. -/
def enterHead (tbl : FragmentTable) (head : Bool) (key : FragmentKey) (flow : VrFlow) (len : ℤ)
    (allocOk : Bool) : Formed × FragmentTable :=
  if head then
    match vrFragmentAdd tbl key flow.sport flow.dport len allocOk with
    | none => (.drop .noMemory, tbl)
    | some tbl => (.key flow, tbl)
  else (.key flow, tbl)

def vrInetGetFlowKey (tbl : FragmentTable) (vrf : ℕ) (pkt : PktMd) (ip : List Byte) (p : FkeyParams)
    (custom : ℕ) (allocOk : Bool) : Formed × FragmentTable :=
  match vrInetFormFlow tbl vrf pkt ip p custom with
  | (.key flow, tbl) =>
    enterHead tbl (vrIpFragmentHead ip) (fragmentKey4 vrf ip custom) flow (ipPayload ip) allocOk
  | r => r

/-- The key that `vr_inet_flow_lookup` looks up. -/
def vrInetFlowLookup (tbl : FragmentTable) (vrf : ℕ) (pkt : PktMd) (ip : List Byte)
    (allocOk : Bool) : Formed × FragmentTable :=
  match vrInetFormFlow tbl vrf pkt ip vrFlowKeyAll 0 with
  | (.key flow, tbl) =>
    if tunnelled pkt flow then (.flowSet, tbl)
    else enterHead tbl (vrIpFragmentHead ip) (fragmentKey4 vrf ip 0) flow (ipPayload ip) allocOk
  | r => r

/-! ### IPv6 -/

/-- The payload bytes of an IPv6 fragment, as the code computes them. -/
def ip6Payload (ip6 : List Byte) : ℤ := (ntohs (ip6Plen ip6) : ℤ) - ip6FragSize

/-- The protocol of an IPv6 packet, behind a fragment header. -/
def ip6Proto (ip6 : List Byte) : ℕ :=
  if ip6Nxt ip6 = vrIp6ProtoFrag then ip6FragNxt ip6 else ip6Nxt ip6

/-- The transport header, behind a fragment header. -/
def ip6Transport (ip6 : List Byte) : List Byte :=
  if ip6Nxt ip6 = vrIp6ProtoFrag then ip6.drop (ip6HdrSize + ip6FragSize) else ip6.drop ip6HdrSize

/-- The ports that `vr_inet6_proto_flow` reads, unless the packet is an ICMP error or one of
neighbour discovery. -/
def inet6Ports (ip6 : List Byte) : ℕ × ℕ :=
  let t := ip6Transport ip6
  if ip6Proto ip6 = vrIpProtoIcmp6 then
    if icmpType t = vrIcmp6TypeEchoReq ∨ icmpType t = vrIcmp6TypeEchoReply then
      (icmpEid t, ntohs vrIcmp6TypeEchoReply)
    else (0, icmpType t)
  else if ip6Proto ip6 = vrIpProtoTcp ∨ ip6Proto ip6 = vrIpProtoUdp ∨
      ip6Proto ip6 = vrIpProtoSctp then (le16 t 0, le16 t 2)
  else (0, 0)

/-- The packet is an ICMPv6 error. -/
def inet6IcmpError (ip6 : List Byte) : Bool :=
  ip6Proto ip6 = vrIpProtoIcmp6 && vrIcmp6Error (ip6Transport ip6)

/-- The packet is a neighbour solicitation or advertisement. -/
def inet6Neighbour (ip6 : List Byte) : Bool :=
  ip6Proto ip6 = vrIpProtoIcmp6 &&
    (icmpType (ip6Transport ip6) = vrIcmp6TypeNeighSol ||
      icmpType (ip6Transport ip6) = vrIcmp6TypeNeighAd)

/-- `vr_inet6_proto_flow` on a packet that is not an ICMP error; the ends are swapped where the
packet is one that an error quotes. -/
def inet6PlainFlow (pkt : PktMd) (ip6 : List Byte) (p : FkeyParams) (forward : Bool) : Formed :=
  if inet6Neighbour ip6 then .flowSet
  else if forward then
    fatFlowKey pkt .inet6 (ip6Proto ip6) (inet6Ports ip6).1 (inet6Ports ip6).2 (ip6Src ip6)
      (ip6Dst ip6) p
  else
    fatFlowKey pkt .inet6 (ip6Proto ip6) (inet6Ports ip6).2 (inet6Ports ip6).1 (ip6Dst ip6)
      (ip6Src ip6) p

/-- `vr_inet6_fragment_flow`.  The entry is looked up under the network header `outer`, also where
the fragment is one that an ICMP error quotes. -/
def vrInet6FragmentFlow (tbl : FragmentTable) (vrf : ℕ) (pkt : PktMd) (outer ip6 : List Byte)
    (p : FkeyParams) (custom : ℕ) (forward : Bool) : Formed × FragmentTable :=
  match vrFragmentGet tbl vrf outer custom with
  | none => (.undefined, tbl)
  | some none => (.drop .noFragEntry, tbl)
  | some (some (key, frag)) =>
    let tail :=
      if vrIp6FragmentTail ip6 then some ((ip6Offset ip6 : ℤ) * 8 + ip6Payload ip6) else none
    let flow :=
      if forward then
        fillFlow .inet6 (vrInetFlowNexthop pkt) (ip6Src ip6) (ip6Dst ip6) (ip6FragNxt ip6)
          frag.fSport frag.fDport p
      else
        fillFlow .inet6 (vrInetFlowNexthop pkt) (ip6Dst ip6) (ip6Src ip6) (ip6FragNxt ip6)
          frag.fDport frag.fSport p
    (.key flow, fragmentSeen tbl key frag (ip6Payload ip6) tail)

/-- `vr_inet6_form_flow` on the packet that an ICMP error quotes. -/
def inet6PayloadFlow (tbl : FragmentTable) (vrf : ℕ) (pkt : PktMd) (outer ip6 : List Byte)
    (p : FkeyParams) (custom : ℕ) : Formed × FragmentTable :=
  if vrIp6TransportHeaderValid ip6 then
    if inet6IcmpError ip6 then (.drop .icmpError, tbl) else (inet6PlainFlow pkt ip6 p false, tbl)
  else vrInet6FragmentFlow tbl vrf pkt outer ip6 p custom false

def vrInet6FormFlow (tbl : FragmentTable) (vrf : ℕ) (pkt : PktMd) (ip6 : List Byte)
    (p : FkeyParams) (custom : ℕ) : Formed × FragmentTable :=
  if vrIp6TransportHeaderValid ip6 then
    if inet6IcmpError ip6 then
      inet6PayloadFlow tbl vrf pkt ip6 ((ip6Transport ip6).drop icmpHdrSize) p custom
    else (inet6PlainFlow pkt ip6 p true, tbl)
  else vrInet6FragmentFlow tbl vrf pkt ip6 ip6 p custom true

/-- `vr_inet6_get_flow_key`.  A packet that needs no flow is entered as well, with the ports that
`flow_p` happens to hold. -/
def vrInet6GetFlowKey (tbl : FragmentTable) (vrf : ℕ) (pkt : PktMd) (ip6 : List Byte)
    (p : FkeyParams) (custom : ℕ) (stack : VrFlow) (allocOk : Bool) : Formed × FragmentTable :=
  let enter := fun tbl flow =>
    enterHead tbl (vrIp6FragmentHead ip6) (fragmentKey6 vrf ip6 custom) flow (ip6Payload ip6) allocOk
  match vrInet6FormFlow tbl vrf pkt ip6 p custom with
  | (.key flow, tbl) => enter tbl flow
  | (.flowSet, tbl) =>
    match enter tbl stack with
    | (.key _, tbl) => (.flowSet, tbl)
    | r => r
  | r => r

/-- The key that `vr_inet6_flow_lookup` looks up. -/
def vrInet6FlowLookup (tbl : FragmentTable) (vrf : ℕ) (pkt : PktMd) (ip6 : List Byte)
    (allocOk : Bool) : Formed × FragmentTable :=
  match vrInet6FormFlow tbl vrf pkt ip6 vrFlowKeyAll 0 with
  | (.key flow, tbl) =>
    enterHead tbl (vrIp6FragmentHead ip6) (fragmentKey6 vrf ip6 0) flow (ip6Payload ip6) allocOk
  | r => r

/-! ### Both versions -/

/-- The two versions of the protocol. -/
inductive Version
  | v4
  | v6
  deriving DecidableEq, Repr

def Version.family : Version → Family
  | .v4 => .inet
  | .v6 => .inet6

/-- `vr_inet_form_flow` or `vr_inet6_form_flow`. -/
def formFlow : Version → FragmentTable → ℕ → PktMd → List Byte → FkeyParams → ℕ →
    Formed × FragmentTable
  | .v4 => vrInetFormFlow
  | .v6 => vrInet6FormFlow

/-- The key that `vr_inet_flow_lookup` or `vr_inet6_flow_lookup` looks up. -/
def flowLookup : Version → FragmentTable → ℕ → PktMd → List Byte → Bool → Formed × FragmentTable
  | .v4 => vrInetFlowLookup
  | .v6 => vrInet6FlowLookup

/-- `vr_inet_get_flow_key` or `vr_inet6_get_flow_key`. -/
def getFlowKey (v : Version) (tbl : FragmentTable) (vrf : ℕ) (pkt : PktMd) (ip : List Byte)
    (p : FkeyParams) (custom : ℕ) (stack : VrFlow) (allocOk : Bool) : Formed × FragmentTable :=
  match v with
  | .v4 => vrInetGetFlowKey tbl vrf pkt ip p custom allocOk
  | .v6 => vrInet6GetFlowKey tbl vrf pkt ip p custom stack allocOk

/-- `vr_ip_fragment_head` or `vr_ip6_fragment_head`. -/
def fragmentHead : Version → List Byte → Bool
  | .v4 => vrIpFragmentHead
  | .v6 => vrIp6FragmentHead

/-- The key of a fragment in the table. -/
def fragmentKey : Version → ℕ → List Byte → ℕ → FragmentKey
  | .v4 => fragmentKey4
  | .v6 => fragmentKey6

/-- What a key is formed from. -/
structure Headers where
  proto : ℕ
  saddr : List Byte
  daddr : List Byte
  sport : ℕ
  dport : ℕ
  deriving DecidableEq, Repr

/-- The headers of a packet. -/
def headers : Version → List Byte → Headers
  | .v4, ip => ⟨ipProto ip, ipSaddr ip, ipDaddr ip, (inetPorts ip).1, (inetPorts ip).2⟩
  | .v6, ip6 => ⟨ip6Proto ip6, ip6Src ip6, ip6Dst ip6, (inet6Ports ip6).1, (inet6Ports ip6).2⟩

/-- The packet has a transport header and is no ICMP error, nor one of neighbour discovery. -/
def Plain : Version → List Byte → Prop
  | .v4, ip => vrIpTransportHeaderValid ip ∧ ¬ inetIcmpError ip
  | .v6, ip6 => vrIp6TransportHeaderValid ip6 ∧ ¬ inet6IcmpError ip6 ∧ ¬ inet6Neighbour ip6

instance : ∀ v ip, Decidable (Plain v ip)
  | .v4, _ => inferInstanceAs (Decidable (_ ∧ _))
  | .v6, _ => inferInstanceAs (Decidable (_ ∧ _ ∧ _))

theorem formFlow_plain {v : Version} {ip : List Byte} (h : Plain v ip) (tbl : FragmentTable)
    (vrf : ℕ) (pkt : PktMd) (p : FkeyParams) (custom : ℕ) :
    formFlow v tbl vrf pkt ip p custom =
      (fatFlowKey pkt v.family (headers v ip).proto (headers v ip).sport (headers v ip).dport
        (headers v ip).saddr (headers v ip).daddr p, tbl) := by
  cases v with
  | v4 =>
    obtain ⟨hvalid, herror⟩ := h
    simp only [formFlow, vrInetFormFlow, hvalid, if_true, vrInetProtoFlow, herror]
    rfl
  | v6 =>
    obtain ⟨hvalid, herror, hneighbour⟩ := h
    simp only [formFlow, vrInet6FormFlow, hvalid, if_true, herror, inet6PlainFlow,
      hneighbour]
    rfl

end Vrouter.FlowKey
