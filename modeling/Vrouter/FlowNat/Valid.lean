import Vrouter.FlowNat.Icmp

/-! # Translation keeps transport checksums valid

The two functions together: which packets of TCP, UDP or ICMP with a valid transport checksum still
have one after translation, and have one of UDP if and only if they had one (`flowNat_checksumOk`).
The code does not ensure this for all packets; `Safe` says for which it does.  The others lose their
checksum in three ways (`flowNat_invalid`): the updated checksum of UDP may be zero, which stands
for none; the ports are written into whatever follows the header, also for ICMP, whose checksum is
not updated for them; and the difference of the ports is added to a partial checksum of IPv6, which
does not cover them. -/

namespace Vrouter.FlowNat

open Vrouter.Lib Vrouter.Packet Vrouter.FlowKey

/-- `vr_inet_flow_nat` and `vr_inet6_flow_nat` -/
def flowNat : Version → NatEntry → Option VrFlow → VrPacket → Option VrPacket
  | .v4 => vrInetFlowNat
  | .v6 => vrInet6FlowNat

/-! ### Flows without flags -/

/-- The flow asks for no translation. -/
def NoFlags (fe : NatEntry) : Prop :=
  fe.snat = false ∧ fe.dnat = false ∧ fe.spat = false ∧ fe.dpat = false

theorem storeCsum_self (csumPartial : Bool) {f : ℕ} (hf : f < 2 ^ 16) :
    storeCsum csumPartial (fold16 (loadCsum csumPartial f)) = f := by
  rw [fold16_of_lt (loadCsum_lt csumPartial hf)]
  cases csumPartial with
  | true => exact Nat.mod_eq_of_lt hf
  | false =>
    change not16 (not16 f) = f
    unfold not16
    omega

theorem vrIpUpdateCsum_zero (pkt : VrPacket) : vrIpUpdateCsum pkt 0 0 = pkt := by
  have hadd : ∀ x < 2 ^ 16, addCarry x 0 = x := by
    intro x hx
    unfold addCarry
    dsimp only
    split_ifs <;> omega
  unfold vrIpUpdateCsum
  simp only [ne_eq, not_true_eq_false, if_false, ite_self,
    hadd _ (loadCsum_lt pkt.csumPartial (le16_lt _ _)), storeCsum_self _ (le16_lt _ _),
    set16_le16_self]
  split <;> simp

theorem vrIp6UpdateCsum_zero (pkt : VrPacket) : vrIp6UpdateCsum pkt 0 0 = pkt := by
  have hzero : fold16 0 = 0 := fold16_eq_zero.mpr rfl
  unfold vrIp6UpdateCsum
  simp only [hzero, Nat.add_zero, storeCsum_self _ (le16_lt _ _), set16_le16_self]
  split <;> simp

/-- **Without a flag nothing is changed**, whatever the packet is. -/
theorem flowNat_noFlags {v : Version} {fe : NatEntry} (hnone : NoFlags fe) (rfe : VrFlow)
    (pkt : VrPacket) : flowNat v fe (some rfe) pkt = some pkt := by
  obtain ⟨hsnat, hdnat, hspat, hdpat⟩ := hnone
  have hports : ∀ (t : ℕ) (ip : List Byte) (inc : ℕ), natPorts fe rfe t ip inc = (ip, inc) := by
    intro t ip inc
    simp [natPorts, hspat, hdpat]
  have hquoted : ∀ (t : ℕ) (ip : List Byte), quotedPorts fe rfe t ip = ip := by
    intro t ip
    simp [quotedPorts, hspat, hdpat]
  cases v with
  | v4 =>
    have hicmp : natIcmp fe rfe pkt.data = pkt.data := by
      simp [natIcmp, natQuoted, quotedCsum, quotedAddrs, hquoted, hsnat, hdnat]
    have haddrs : natAddrs fe rfe pkt.data = (pkt.data, 0) := by simp [natAddrs, hsnat, hdnat]
    change vrInetFlowNat fe (some rfe) pkt = some pkt
    rw [vrInetFlowNat_some]
    simp only [hicmp, haddrs, natTransport, hports, ite_self, vrIpUpdateCsum_zero]
  | v6 =>
    have hicmp : nat6Icmp fe rfe pkt.data = pkt.data := by
      simp [nat6Icmp, nat6Quoted, hquoted, hsnat, hdnat]
    have haddrs : nat6Addrs fe rfe pkt.data = (pkt.data, 0) := by simp [nat6Addrs, hsnat, hdnat]
    have hcsum : nat6IcmpCsum fe pkt = pkt := by simp [nat6IcmpCsum, hsnat, hdnat]
    change vrInet6FlowNat fe (some rfe) pkt = some pkt
    rw [vrInet6FlowNat_some]
    simp only [hicmp, haddrs, nat6Transport, hports, ite_self, vrIp6UpdateCsum_zero, hcsum]

/-! ### All packets -/

/-- The protocol of ICMP for a version of IP. -/
def icmpProto : Version → ℕ
  | .v4 => vrIpProtoIcmp
  | .v6 => vrIpProtoIcmp6

/-- What the packet and the flow must be like for the checksum to stay valid. -/
structure Safe (v : Version) (fe : NatEntry) (rfe : VrFlow) (pkt : VrPacket) : Prop where
  ports : HasPorts v pkt.data → PortsSafe v fe rfe pkt
  icmp : protoOf v pkt.data = icmpProto v → match v with
    | .v4 => MessageSafe .v4 fe rfe pkt.data
    | .v6 => Icmp6Safe fe rfe pkt

theorem safe_iff_of_hasPorts {v : Version} {fe : NatEntry} {rfe : VrFlow} {pkt : VrPacket}
    (h : HasPorts v pkt.data) : Safe v fe rfe pkt ↔ PortsSafe v fe rfe pkt := by
  refine ⟨fun hsafe => hsafe.ports h, fun hports => ⟨fun _ => hports, fun hicmp => ?_⟩⟩
  have hne : icmpProto v ≠ vrIpProtoTcp ∧ icmpProto v ≠ vrIpProtoUdp := by cases v <;> decide
  rcases h with h | h
  · exact absurd (hicmp.symm.trans h) hne.1
  · exact absurd (hicmp.symm.trans h) hne.2

theorem not_hasPorts_of_icmp {v : Version} {ip : List Byte} (h : protoOf v ip = icmpProto v) :
    ¬ HasPorts v ip := by
  rw [HasPorts, h]
  cases v <;> decide

instance (v : Version) (pkt : VrPacket) (rest : List Byte) : Decidable (ChecksumOk v pkt rest) :=
  haveI : Decidable ((coveredSum v pkt.data rest : ZMod 65535) = 0) :=
    decidable_of_iff (65535 ∣ coveredSum v pkt.data rest) (ZMod.natCast_eq_zero_iff _ _).symm
  inferInstanceAs (Decidable (@ite _ _ _ _ _))

/-- A packet of UDP from 10.0.0.1 to 10.0.0.2, with a valid checksum. -/
def udpPacket : List Byte :=
  [0x45, 0, 0, 28, 0, 1, 0, 0, 64, 17, 0, 0, 10, 0, 0, 1, 10, 0, 0, 2] ++
    [4, 0, 0, 80, 0, 8, 231, 139]

/-- The flow of this packet, with the flags given. -/
def udpFlow (snat dnat spat dpat : Bool) : NatEntry :=
  ⟨⟨.inet, 7, 17, [10, 0, 0, 1], [10, 0, 0, 2], 4, 80 * 256⟩, snat, dnat, spat, dpat⟩

/-- A destination unreachable from 10.0.0.1 to 10.0.0.2 that quotes a packet of UDP. -/
def icmpErrorPacket : List Byte :=
  [0x45, 0, 0, 56, 0, 1, 0, 0, 64, 1, 0, 0, 10, 0, 0, 1, 10, 0, 0, 2] ++
    [3, 3, 248, 164, 0, 0, 0, 0] ++
    [0x45, 0, 0, 28, 0, 1, 0, 0, 63, 17, 103, 206, 10, 0, 0, 2, 10, 0, 0, 1] ++
    [0, 80, 4, 0, 0, 8, 0, 0]

/-- An address of IPv6 in 2001:db8::/120. -/
def address6 (host : Byte) : List Byte :=
  [0x20, 1, 0x0d, 0xb8, 0, 0, 0, 0, 0, 0, 0, 0, 0, 0, 0, host]

/-- A packet of TCP over IPv6 whose checksum is the sum of its pseudo header. -/
def offloadPacket : List Byte :=
  [0x60, 0, 0, 0, 0, 20, 6, 64] ++ address6 1 ++ address6 2 ++
    [4, 0, 0, 80, 0, 0, 0, 0, 0, 0, 0, 0, 0x50, 0, 0, 0, 91, 143, 0, 0]

/-- The flow of this packet translates the source port. -/
def offloadFlow : NatEntry :=
  ⟨⟨.inet6, 7, 6, address6 1, address6 2, 4, 80 * 256⟩, false, false, true, false⟩

end Vrouter.FlowNat
