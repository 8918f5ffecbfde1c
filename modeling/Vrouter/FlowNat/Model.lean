import Vrouter.FlowKey.Model
import Vrouter.Packet.Checksum

/-! # Address translation of flows

A translation of `vr_inet_flow_nat`, `vr_inet6_flow_nat` and the checksum updates that they use.
The packet is the byte string from its network header on.  The nexthop that is looked up anew for
flows that change the VRF is left out.  A read or write beyond the end of the packet, which the code
does not check for, reads zero and writes nothing. -/

namespace Vrouter.FlowNat

open Vrouter.Lib Vrouter.Packet Vrouter.FlowKey

/-- The fields of `struct vr_packet` that translation uses. -/
structure VrPacket where
  data : List Byte
  csumPartial : Bool
  diag : Bool
  deriving DecidableEq, Repr

/-- The key of `struct vr_flow_entry`, and the flags `VR_FLOW_FLAG_*` that ask for translation. -/
structure NatEntry where
  feKey : VrFlow
  snat : Bool
  dnat : Bool
  spat : Bool
  dpat : Bool
  deriving DecidableEq, Repr

/-! ### Transport checksums -/

/-- Where the checksum of a transport header is, for the protocols that have one to update. -/
def csumPos (proto transport : ℕ) : Option ℕ :=
  if proto = vrIpProtoTcp then some (transport + 16)
  else if proto = vrIpProtoUdp then some (transport + 6)
  else none

/-- The value of the checksum to which differences are added.  A partial checksum is stored as it
is, others as their complement. -/
def loadCsum (csumPartial : Bool) (csum : ℕ) : ℕ := if csumPartial then csum else not16 csum

/-- The field for a value of the checksum. -/
def storeCsum (csumPartial : Bool) (csum : ℕ) : ℕ :=
  if csumPartial then csum % 2 ^ 16 else not16 csum

def vrIpUpdateCsum (pkt : VrPacket) (ipInc inc : ℕ) : VrPacket :=
  let ip := if ipInc ≠ 0 then vrIpIncrementalCsum pkt.data ipInc else pkt.data
  let data :=
    match csumPos (ipProto ip) (ipHl ip * 4) with
    | none => ip
    | some pos =>
      if ipProto ip = vrIpProtoUdp ∧ le16 ip pos = 0 then ip
      else if vrIpTransportHeaderValid ip then
        let inc := if pkt.csumPartial then ipInc else inc
        let csum := fold16 (addCarry (loadCsum pkt.csumPartial (le16 ip pos)) inc)
        set16 ip pos (storeCsum pkt.csumPartial csum)
      else ip
  { pkt with data := data }

def vrIp6UpdateCsum (pkt : VrPacket) (ipInc portInc : ℕ) : VrPacket :=
  let ip6 := pkt.data
  let data :=
    match csumPos (ip6Nxt ip6) ip6HdrSize with
    | none => ip6
    | some pos =>
      if ip6Nxt ip6 = vrIpProtoUdp ∧ le16 ip6 pos = 0 then ip6
      else if vrIp6TransportHeaderValid ip6 then
        let csum := loadCsum pkt.csumPartial (le16 ip6 pos)
        let csum := fold16 (csum + (fold16 ipInc + fold16 portInc))
        set16 ip6 pos (storeCsum pkt.csumPartial csum)
      else ip6
  { pkt with data := data }

/-- The first loop of `vr_sum`. -/
def vrSumLoop : List Byte → ℕ → ℕ → ℕ
  | ptr, numWords + 1, total => vrSumLoop (ptr.drop 2) numWords (total + le16 ptr 0)
  | _, 0, total => total

/-- The second loop of `vr_sum`. -/
def foldLoop (total : ℕ) : ℕ :=
  if total / 2 ^ 16 = 0 then total else foldLoop (total / 2 ^ 16 + total % 2 ^ 16)
termination_by total
decreasing_by omega

def vrSum (buf : List Byte) (length : ℕ) : ℕ := foldLoop (vrSumLoop buf ((length + 1) / 2) 0)

/-- A word as bytes. -/
def leBytes (w : ℕ) : List Byte := [Fin.ofNat 256 w, Fin.ofNat 256 (w / 256)]

/-- `struct vr_ip6_pseudo` -/
def ip6Pseudo (ip6 : List Byte) : List Byte :=
  ip6Src ip6 ++ ip6Dst ip6 ++ slice ip6 4 2 ++ [0, 0] ++ [0, 0, 0, Fin.ofNat 256 (ip6Nxt ip6)]

def vrIp6PseudoHeaderSum (ip6 : List Byte) : ℕ := vrSum (ip6Pseudo ip6) 40

/-- The field is cleared before the message is summed. -/
def vrIcmp6Checksum (ip6 icmph : List Byte) : ℕ :=
  vrSum (leBytes (vrIp6PseudoHeaderSum ip6) ++
    leBytes (vrSum (set16 icmph 2 0) (ntohs (ip6Plen ip6)))) 4

/-! ### IPv4 -/

/-- The addresses of the packet that an ICMP error quotes at `pl` are translated backwards. -/
def quotedAddrs (fe : NatEntry) (rfe : VrFlow) (pl : ℕ) (ip : List Byte) : List Byte :=
  let ip := if fe.snat then setBytes ip (pl + 16) rfe.dip else ip
  if fe.dnat then setBytes ip (pl + 12) rfe.sip else ip

/-- Its header gets a new checksum if an address was translated. -/
def quotedCsum (fe : NatEntry) (pl : ℕ) (ip : List Byte) : List Byte :=
  if fe.snat || fe.dnat then set16 ip (pl + 10) (vrIpCsum (ip.drop pl)) else ip

/-- Its ports are translated backwards. -/
def quotedPorts (fe : NatEntry) (rfe : VrFlow) (transport : ℕ) (ip : List Byte) : List Byte :=
  let ip := if fe.spat then set16 ip (transport + 2) rfe.dport else ip
  if fe.dpat then set16 ip transport rfe.sport else ip

/-- The packet quoted by an ICMP error is translated backwards.  The checksums of its transport
header and of the error stay as they are. -/
def natQuoted (fe : NatEntry) (rfe : VrFlow) (ip : List Byte) : List Byte :=
  let pl := ipHl ip * 4 + icmpHdrSize
  let ip := quotedCsum fe pl (quotedAddrs fe rfe pl ip)
  quotedPorts fe rfe (pl + ipHl (ip.drop pl) * 4) ip

/-- The addresses are translated; with the packet, the difference that this makes. -/
def natAddrs (fe : NatEntry) (rfe : VrFlow) (ip : List Byte) : List Byte × ℕ :=
  let (ip, inc) :=
    if fe.snat && decide (ipSaddr ip = fe.feKey.sip) then
      (setBytes ip 12 rfe.dip, vrIncrementalDiff (le32 ip 12) (le32 rfe.dip 0) 0)
    else (ip, 0)
  if fe.dnat then (setBytes ip 16 rfe.sip, vrIncrementalDiff (le32 ip 16) (le32 rfe.sip 0) inc)
  else (ip, inc)

/-- The ports at an offset are translated, and the difference is added up. -/
def natPorts (fe : NatEntry) (rfe : VrFlow) (transport : ℕ) (ip : List Byte) (inc : ℕ) :
    List Byte × ℕ :=
  let (ip, inc) :=
    if fe.spat then
      (set16 ip transport rfe.dport, vrIncrementalDiff (le16 ip transport) rfe.dport inc)
    else (ip, inc)
  if fe.dpat then
    (set16 ip (transport + 2) rfe.sport, vrIncrementalDiff (le16 ip (transport + 2)) rfe.sport inc)
  else (ip, inc)

/-- The packet that an ICMP error quotes is translated, before the packet itself. -/
def natIcmp (fe : NatEntry) (rfe : VrFlow) (ip : List Byte) : List Byte :=
  if ipProto ip = vrIpProtoIcmp ∧ vrIcmpError (ip.drop (ipHl ip * 4)) = true then
    natQuoted fe rfe ip
  else ip

/-- The ports are translated if the packet has them. -/
def natTransport (fe : NatEntry) (rfe : VrFlow) (ip : List Byte) (inc : ℕ) : List Byte × ℕ :=
  if vrIpTransportHeaderValid ip then natPorts fe rfe (ipHl ip * 4) ip inc else (ip, inc)

/-- `vr_inet_flow_nat`, with the key of the reverse flow; `none` when the packet is dropped. -/
def vrInetFlowNat (fe : NatEntry) (rfe : Option VrFlow) (pkt : VrPacket) : Option VrPacket :=
  rfe.map fun rfe =>
    let addrs := natAddrs fe rfe (natIcmp fe rfe pkt.data)
    let ports := natTransport fe rfe addrs.1 addrs.2
    let pkt := { pkt with data := ports.1 }
    if pkt.diag then pkt else vrIpUpdateCsum pkt addrs.2 ports.2

/-! ### IPv6 -/

/-- The packet quoted by an ICMP error is translated backwards. -/
def nat6Quoted (fe : NatEntry) (rfe : VrFlow) (ip6 : List Byte) : List Byte :=
  let pl := ip6HdrSize + icmpHdrSize
  let ip6 := if fe.snat then setBytes ip6 (pl + 24) rfe.dip else ip6
  let ip6 := if fe.dnat then setBytes ip6 (pl + 8) rfe.sip else ip6
  quotedPorts fe rfe (pl + ip6HdrSize) ip6

/-- The difference that a new address makes, word by word. -/
def addrDiff (old new : List Byte) (inc : ℕ) : ℕ :=
  [0, 4, 8, 12].foldl (fun inc i => vrIncrementalDiff (le32 old i) (le32 new i) inc) inc

/-- The addresses are translated; with the packet, the difference that this makes. -/
def nat6Addrs (fe : NatEntry) (rfe : VrFlow) (ip6 : List Byte) : List Byte × ℕ :=
  let (ip6, inc) :=
    if fe.snat && decide (ip6Src ip6 = fe.feKey.sip) then
      (setBytes ip6 8 rfe.dip, addrDiff (ip6Src ip6) rfe.dip 0)
    else (ip6, 0)
  if fe.dnat then (setBytes ip6 24 rfe.sip, addrDiff (ip6Dst ip6) rfe.sip inc) else (ip6, inc)

/-- The packet that an ICMP error quotes is translated, before the packet itself.  The types are
those of ICMP for IPv4. -/
def nat6Icmp (fe : NatEntry) (rfe : VrFlow) (ip6 : List Byte) : List Byte :=
  if ip6Nxt ip6 = vrIpProtoIcmp6 ∧ vrIcmpError (ip6.drop ip6HdrSize) = true then
    nat6Quoted fe rfe ip6
  else ip6

/-- What follows the header is taken for the ports, unless it is a later fragment. -/
def nat6Transport (fe : NatEntry) (rfe : VrFlow) (ip6 : List Byte) : List Byte × ℕ :=
  if vrIp6TransportHeaderValid ip6 then natPorts fe rfe ip6HdrSize ip6 0 else (ip6, 0)

/-- The checksum of ICMP is computed anew if an address may have changed. -/
def nat6IcmpCsum (fe : NatEntry) (pkt : VrPacket) : VrPacket :=
  if ip6Nxt pkt.data = vrIpProtoIcmp6 ∧ (fe.dnat || fe.snat) = true then
    let csum := not16 (vrIcmp6Checksum pkt.data (pkt.data.drop ip6HdrSize))
    { pkt with data := set16 pkt.data (ip6HdrSize + 2) csum }
  else pkt

/-- `vr_inet6_flow_nat`, with the key of the reverse flow; `none` when the packet is dropped. -/
def vrInet6FlowNat (fe : NatEntry) (rfe : Option VrFlow) (pkt : VrPacket) : Option VrPacket :=
  rfe.map fun rfe =>
    let addrs := nat6Addrs fe rfe (nat6Icmp fe rfe pkt.data)
    let ports := nat6Transport fe rfe addrs.1
    let pkt := { pkt with data := ports.1 }
    nat6IcmpCsum fe (if pkt.diag then pkt else vrIp6UpdateCsum pkt addrs.2 ports.2)

end Vrouter.FlowNat
