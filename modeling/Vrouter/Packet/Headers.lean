import Vrouter.Lib.Words

/-! # Packet headers

The fields of the IPv4, IPv6, fragment and ICMP headers that the datapath reads, as the packed
structures of `vr_packet.h` lay them out.  A pointer to a header is the byte string from that byte
on; a field of sixteen bits is the word that a little-endian host reads there. -/

namespace Vrouter.Packet

open Vrouter.Lib

/-- `ntohs` and `htons` of a little-endian host. -/
def ntohs (w : ℕ) : ℕ := swap16 w

def vrIpProtoIcmp : ℕ := 1
def vrIpProtoTcp : ℕ := 6
def vrIpProtoUdp : ℕ := 17
def vrIpProtoGre : ℕ := 47
def vrIpProtoIcmp6 : ℕ := 58
def vrIpProtoSctp : ℕ := 132
def vrIp6ProtoFrag : ℕ := 44

def vrEtherHlen : ℕ := 14

def vlanIdInvalid : ℕ := 0xFFFF

/-- `VP_TYPE_NULL` and the other types of a packet. -/
inductive VpType
  | null
  | arp
  | ip
  | ip6
  | ipoip
  | ip6oip
  | agent
  | pbb
  | unknown
  deriving DecidableEq, Repr

/-! ### `struct vr_ip` -/

def ipHl (ip : List Byte) : ℕ := u8 ip 0 % 16
def ipVersion (ip : List Byte) : ℕ := u8 ip 0 / 16
def ipTos (ip : List Byte) : ℕ := u8 ip 1
def ipLen (ip : List Byte) : ℕ := le16 ip 2
def ipId (ip : List Byte) : ℕ := le16 ip 4
def ipFragOff (ip : List Byte) : ℕ := le16 ip 6
def ipTtl (ip : List Byte) : ℕ := u8 ip 8
def ipProto (ip : List Byte) : ℕ := u8 ip 9
def ipCsum (ip : List Byte) : ℕ := le16 ip 10
def ipSaddr (ip : List Byte) : List Byte := slice ip 12 4
def ipDaddr (ip : List Byte) : List Byte := slice ip 16 4

def vrIpIsIp4 (ip : List Byte) : Bool := ipVersion ip = 4

def vrIpIsIp6 (ip : List Byte) : Bool := ipVersion ip = 6

def vrIpMf : ℕ := 1 <<< 13

/-- The flag `VR_IP_MF` of the fragment field. -/
def ipMore (ip : List Byte) : Bool := ntohs (ipFragOff ip) / vrIpMf % 2 = 1

/-- The offset in the fragment field. -/
def ipOffset (ip : List Byte) : ℕ := ntohs (ipFragOff ip) % vrIpMf

def vrIpFragmentHead (ip : List Byte) : Bool :=
  vrIpIsIp4 ip && (ipMore ip && decide (ipOffset ip = 0))

def vrIpFragmentTail (ip : List Byte) : Bool :=
  vrIpIsIp4 ip && (!ipMore ip && decide (ipOffset ip ≠ 0))

def vrIpTransportHeaderValid (ip : List Byte) : Bool :=
  !vrIpIsIp4 ip || decide (ipOffset ip = 0)

/-! ### `struct vr_ip6` and `struct vr_ip6_frag` -/

def ip6HdrSize : ℕ := 40
def ip6FragSize : ℕ := 8

def ip6Plen (ip6 : List Byte) : ℕ := le16 ip6 4
def ip6Nxt (ip6 : List Byte) : ℕ := u8 ip6 6
def ip6Src (ip6 : List Byte) : List Byte := slice ip6 8 16
def ip6Dst (ip6 : List Byte) : List Byte := slice ip6 24 16
def ip6FragNxt (ip6 : List Byte) : ℕ := u8 ip6 40
def ip6FragOffset (ip6 : List Byte) : ℕ := le16 ip6 42
def ip6FragId (ip6 : List Byte) : ℕ := le32 ip6 44

/-- The flag `VR_IP6_MF` of the fragment header. -/
def ip6More (ip6 : List Byte) : Bool := ntohs (ip6FragOffset ip6) % 2 = 1

def vrIp6FragOffsetBits : ℕ := 3

/-- The offset in the fragment header. -/
def ip6Offset (ip6 : List Byte) : ℕ := ntohs (ip6FragOffset ip6) >>> vrIp6FragOffsetBits

def vrIp6TransportHeaderValid (ip6 : List Byte) : Bool :=
  decide (ip6Nxt ip6 ≠ vrIp6ProtoFrag) || decide (ip6Offset ip6 = 0)

def vrIp6FragmentHead (ip6 : List Byte) : Bool :=
  decide (ip6Nxt ip6 = vrIp6ProtoFrag) && (ip6More ip6 && decide (ip6Offset ip6 = 0))

/-- `vr_ip6_fragment_tail`, which compares the field where it should shift it. -/
def vrIp6FragmentTail (ip6 : List Byte) : Bool :=
  decide (ip6Nxt ip6 = vrIp6ProtoFrag) &&
    (!ip6More ip6 && decide (ntohs (ip6FragOffset ip6) > vrIp6FragOffsetBits))

/-! ### `struct vr_icmp` -/

def icmpHdrSize : ℕ := 8

def icmpType (icmp : List Byte) : ℕ := u8 icmp 0
def icmpEid (icmp : List Byte) : ℕ := le16 icmp 4

def vrIcmpTypeEchoReply : ℕ := 0
def vrIcmpTypeDestUnreach : ℕ := 3
def vrIcmpTypeEcho : ℕ := 8
def vrIcmpTypeTimeExceeded : ℕ := 11

def vrIcmpError (icmp : List Byte) : Bool :=
  icmpType icmp = vrIcmpTypeDestUnreach || icmpType icmp = vrIcmpTypeTimeExceeded

def vrIcmpEcho (icmp : List Byte) : Bool :=
  icmpType icmp = vrIcmpTypeEcho || icmpType icmp = vrIcmpTypeEchoReply

def vrIcmp6TypeEchoReq : ℕ := 128
def vrIcmp6TypeEchoReply : ℕ := 129
def vrIcmp6TypeNeighSol : ℕ := 135
def vrIcmp6TypeNeighAd : ℕ := 136

def vrIcmp6Error (icmp : List Byte) : Bool := icmpType icmp < 128

end Vrouter.Packet
