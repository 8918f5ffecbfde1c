import Vrouter.FlowNat.Steps

/-! # Valid transport checksums

When the transport checksum of a packet is valid, said for itself and for both versions of IP.  The
checksums of TCP, UDP and ICMPv6 cover the addresses, the protocol and the length of the segment
besides the segment, that of ICMP the segment alone.  The segment of a head fragment goes on in the
fragments that follow: `rest` is what they carry.

While the computation is left to the hardware, the field holds the sum of the first part, not its
complement.  A checksum of UDP that is zero stands for none. -/

namespace Vrouter.FlowNat

open Vrouter.Lib Vrouter.Packet Vrouter.FlowKey

/-! ### Where things are -/

/-- The offset of the transport header, if no extension header comes before it. -/
def transportAt : Version → List Byte → ℕ
  | .v4, ip => ipHl ip * 4
  | .v6, _ => ip6HdrSize

/-- The transport protocol. -/
def protoOf : Version → List Byte → ℕ
  | .v4 => ipProto
  | .v6 => ip6Nxt

/-- The length of the segment, or of its part in a fragment. -/
def segmentLen : Version → List Byte → ℕ
  | .v4, ip => ntohs (ipLen ip) - ipHl ip * 4
  | .v6, ip6 => ntohs (ip6Plen ip6)

/-- The offset of the addresses. -/
def addrsAt : Version → ℕ
  | .v4 => 12
  | .v6 => 8

/-- The length of an address. -/
def addrLen : Version → ℕ
  | .v4 => 4
  | .v6 => 16

/-- The offset of the checksum in the transport header. -/
def csumOffset (proto : ℕ) : ℕ :=
  if proto = vrIpProtoTcp then 16 else if proto = vrIpProtoUdp then 6 else 2

/-- The length of the transport header. -/
def transportHdrLen (proto : ℕ) : ℕ := if proto = vrIpProtoTcp then 20 else 8

/-- The checksum field. -/
def csumField (v : Version) (ip : List Byte) : ℕ :=
  le16 ip (transportAt v ip + csumOffset (protoOf v ip))

/-! ### Validity -/

/-- The segment. -/
def segment (v : Version) (ip : List Byte) : List Byte :=
  slice ip (transportAt v ip) (segmentLen v ip)

/-- The sum of the addresses, the protocol and the length. -/
def pseudoSum (v : Version) (ip rest : List Byte) : ℕ :=
  wordSum (slice ip (addrsAt v) (2 * addrLen v)) + 256 * protoOf v ip +
    swap16 (segment v ip ++ rest).length

/-- The sum of everything that the checksum covers. -/
def coveredSum (v : Version) (ip rest : List Byte) : ℕ :=
  (if protoOf v ip = vrIpProtoIcmp then 0 else pseudoSum v ip rest) + wordSum (segment v ip ++ rest)

/-- A positive sum folded into a word. -/
def foldedSum (s : ℕ) : ℕ := (s - 1) % 65535 + 1

/-- **The transport checksum is valid**, or will be when the hardware has completed it. -/
def ChecksumOk (v : Version) (pkt : VrPacket) (rest : List Byte) : Prop :=
  if protoOf v pkt.data = vrIpProtoUdp ∧ csumField v pkt.data = 0 then True
  else if pkt.csumPartial = true ∧ protoOf v pkt.data ≠ vrIpProtoIcmp then
    csumField v pkt.data = foldedSum (pseudoSum v pkt.data rest)
  else (coveredSum v pkt.data rest : ZMod 65535) = 0

/-- A packet of TCP, UDP or ICMP with its transport header, and with all of its segment but
`rest`. -/
structure Whole (v : Version) (ip rest : List Byte) : Prop where
  proto : protoOf v ip = vrIpProtoTcp ∨ protoOf v ip = vrIpProtoUdp ∨
    protoOf v ip = match v with | .v4 => vrIpProtoIcmp | .v6 => vrIpProtoIcmp6
  header : transportHdrLen (protoOf v ip) ≤ segmentLen v ip
  length : transportAt v ip + segmentLen v ip ≤ ip.length
  version : match v with
    | .v4 => ipVersion ip = 4 ∧ 5 ≤ ipHl ip ∧ ipOffset ip = 0
    | .v6 => rest = []

/-! ### Packets that differ in a few bytes -/

variable {v : Version} {ip ip' rest : List Byte}

/-- The bytes that say where things are: all before the addresses, and before the checksum of the
header. -/
def fixedLen : Version → ℕ
  | .v4 => 10
  | .v6 => 8

/-- Two packets are laid out alike. -/
structure SameLayout (v : Version) (ip ip' : List Byte) : Prop where
  length : ip'.length = ip.length
  bytes : ∀ j < fixedLen v, u8 ip' j = u8 ip j

theorem SameLayout.refl (v : Version) (ip : List Byte) : SameLayout v ip ip :=
  ⟨rfl, fun _ _ => rfl⟩

theorem SameLayout.trans {ip'' : List Byte} (h : SameLayout v ip ip') (h' : SameLayout v ip' ip'') :
    SameLayout v ip ip'' :=
  ⟨h'.length.trans h.length, fun j hj => (h'.bytes j hj).trans (h.bytes j hj)⟩

theorem sameLayout_of_sameOutside {lo hi : ℕ} (h : SameOutside lo hi ip ip')
    (hlo : fixedLen v ≤ lo) : SameLayout v ip ip' :=
  ⟨h.length, fun j hj => h.bytes j (by omega)⟩

namespace SameLayout

section

variable (h : SameLayout v ip ip')
include h

theorem le16 {j : ℕ} (hj : j + 1 < fixedLen v) : le16 ip' j = le16 ip j := by
  rw [Lib.le16, Lib.le16, h.bytes j (by omega), h.bytes (j + 1) hj]

theorem transportAt : transportAt v ip' = transportAt v ip := by
  cases v with
  | v4 => rw [FlowNat.transportAt, FlowNat.transportAt, ipHl, ipHl, h.bytes 0 (by decide)]
  | v6 => rfl

theorem protoOf : protoOf v ip' = protoOf v ip := by
  cases v with
  | v4 => exact h.bytes 9 (by decide)
  | v6 => exact h.bytes 6 (by decide)

theorem segmentLen : segmentLen v ip' = segmentLen v ip := by
  cases v with
  | v4 =>
    have hhl : ipHl ip' * 4 = ipHl ip * 4 := h.transportAt
    have hlen : ipLen ip' = ipLen ip := h.le16 (by decide)
    rw [FlowNat.segmentLen, FlowNat.segmentLen, hhl, hlen]
  | v6 =>
    have hlen : ip6Plen ip' = ip6Plen ip := h.le16 (by decide)
    rw [FlowNat.segmentLen, FlowNat.segmentLen, hlen]

theorem segment_length : (segment v ip').length = (segment v ip).length := by
  rw [segment, segment, h.transportAt, h.segmentLen, slice, slice, List.length_take,
    List.length_take, List.length_drop, List.length_drop, h.length]

end

end SameLayout

theorem pseudoSum_of_addrs (h : SameLayout v ip ip') {d : ZMod 65535}
    (haddrs : (wordSum (slice ip' (addrsAt v) (2 * addrLen v)) : ZMod 65535) =
      wordSum (slice ip (addrsAt v) (2 * addrLen v)) + d) (rest : List Byte) :
    (pseudoSum v ip' rest : ZMod 65535) = pseudoSum v ip rest + d := by
  rw [pseudoSum, pseudoSum, h.protoOf, List.length_append, List.length_append, h.segment_length]
  push_cast
  linear_combination haddrs

theorem coveredSum_of_parts (h : SameLayout v ip ip') {a s : ZMod 65535}
    (hpseudo : (pseudoSum v ip' rest : ZMod 65535) = pseudoSum v ip rest + a)
    (hproto : protoOf v ip ≠ vrIpProtoIcmp)
    (hseg : (wordSum (segment v ip') : ZMod 65535) = wordSum (segment v ip) + s) :
    (coveredSum v ip' rest : ZMod 65535) = coveredSum v ip rest + a + s := by
  rw [coveredSum, coveredSum, h.protoOf, if_neg hproto, if_neg hproto, wordSum, wordSum,
    wordSumFrom_append, wordSumFrom_append, h.segment_length]
  rw [wordSum, wordSum] at hseg
  push_cast
  linear_combination hpseudo + hseg

theorem eq_foldedSum {w s : ℕ} (hw : 0 < w) (hlt : w < 2 ^ 16) (hs : 0 < s)
    (h : (w : ZMod 65535) = s) : w = foldedSum s := by
  rw [ZMod.natCast_eq_natCast_iff'] at h
  unfold foldedSum
  omega

theorem foldedSum_cast {s : ℕ} (hs : 0 < s) : (foldedSum s : ZMod 65535) = s := by
  rw [ZMod.natCast_eq_natCast_iff', foldedSum]
  omega

theorem foldedSum_pos (s : ℕ) : 0 < foldedSum s := Nat.succ_pos _

theorem pseudoSum_pos (hproto : 0 < protoOf v ip) (rest : List Byte) : 0 < pseudoSum v ip rest := by
  unfold pseudoSum
  omega

end Vrouter.FlowNat
