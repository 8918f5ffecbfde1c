import Vrouter.Flow.Packet
import Vrouter.Lib.Reach
import Mathlib.Data.BitVec
import Mathlib.Data.Nat.ModEq

/-! # The counters of a flow

A flow counts its bytes in thirty-two bits and the carries out of them in sixteen, and its packets in
thirty-two bits and the carries in eight.  To the accounting of `vr_do_flow_action` this adds a
translation of `vr_flow_incr_stats`, and of the end of `vr_dpdk_n3k_offload_flow_stats_update_unlocked`:
each finds the carries in its own way, and each adds what it accounts for to the whole counter.  So over
any run in which the hardware counts what it forwards (`HardwareCounts`), the counters are the totals
(`counters_exact`). -/

namespace Vrouter.Flow.Counters

open Vrouter.Lib

/-- The carries are found by a shift of sixty-four bits. -/
def shift {w : ℕ} (c : Counter w) (delta : BitVec 64) : Counter w :=
  let new := delta + c.low.setWidth 64
  c.put (new.setWidth 32) (new >>> 32).toNat

/-- `vr_flow_incr_stats`, for an active entry. -/
def vrFlowIncrStats (fe : FlowEntry) (flowBytes : BitVec 32) (overFlowBytes : BitVec 16)
    (flowPackets : BitVec 32) (overFlowPackets : BitVec 8) : FlowEntry :=
  let bytes := fe.feStats.flowBytes.add flowBytes
  let packets := fe.feStats.flowPackets.add flowPackets
  { fe with feStats := ⟨bytes.put bytes.low overFlowBytes.toNat,
      packets.put packets.low overFlowPackets.toNat⟩ }

/-- A flow entry, and `stats` of its offloaded flow: what the counters of the hardware were when they
were last read. -/
structure Offloaded where
  fe : FlowEntry
  devBytes : BitVec 64 := 0
  devPackets : BitVec 64 := 0

/-- The counters of the hardware were read. -/
def statsUpdate (flow : Offloaded) (bytes hits : BitVec 64) : Offloaded :=
  let stats := flow.fe.feStats
  { fe := { flow.fe with feStats := ⟨shift stats.flowBytes (bytes - flow.devBytes),
      shift stats.flowPackets (hits - flow.devPackets)⟩ }
    devBytes := bytes
    devPackets := hits }

/-! ### One counter -/

variable {w n : ℕ} (c : Counter w)

/-- The whole counter. -/
def value (c : Counter w) : ℕ := c.oflow.toNat * 2 ^ 32 + c.low.toNat

/-- The number of values of a whole counter. -/
abbrev size (w : ℕ) : ℕ := 2 ^ w * 2 ^ 32

theorem value_zero : value ({} : Counter w) = 0 := by simp [value]

theorem value_lt : value c < size w := by
  have hlow := c.low.isLt
  have hoflow := Nat.mul_le_mul_right (2 ^ 32) c.oflow.isLt
  rw [Nat.succ_mul] at hoflow
  unfold value size
  omega

/-- **The rule of the counters**: with its carries, the low part has grown by `n`. -/
theorem value_put {low : BitVec 32} {k : ℕ}
    (h : low.toNat + k * 2 ^ 32 ≡ c.low.toNat + n [MOD size w]) :
    value (c.put low k) ≡ value c + n [MOD size w] := by
  have hoflow : (c.oflow + BitVec.ofNat w k).toNat ≡ c.oflow.toNat + k [MOD 2 ^ w] := by
    rw [BitVec.toNat_add, BitVec.toNat_ofNat, Nat.add_mod_mod]
    exact Nat.mod_modEq _ _
  have hcarry := (hoflow.mul_right' (2 ^ 32)).add_right low.toNat
  have hsum := h.add_left (c.oflow.toNat * 2 ^ 32)
  unfold value
  rw [Nat.add_assoc]
  refine hcarry.trans (Nat.ModEq.trans ?_ hsum)
  rw [Nat.add_mul, Nat.add_assoc, Nat.add_comm (k * 2 ^ 32)]

theorem value_add (x : BitVec 32) : value (c.add x) ≡ value c + x.toNat [MOD size w] := by
  have hsum : (c.low + x).toNat + (if c.low + x < x then 1 else 0) * 2 ^ 32 =
      c.low.toNat + x.toNat := by
    split_ifs <;> bv_omega
  exact value_put c (by rw [hsum])

theorem value_next : value c.next ≡ value c + 1 [MOD size w] := by
  have hsum : (c.low + 1).toNat + (if c.low + 1 = 0 then 1 else 0) * 2 ^ 32 = c.low.toNat + 1 := by
    split_ifs <;> bv_omega
  exact value_put c (by rw [hsum])

theorem value_over (k : ℕ) : value (c.put c.low k) ≡ value c + k * 2 ^ 32 [MOD size w] :=
  value_put c rfl

/-- The sixty-four bits wrap by a multiple of the whole counter. -/
theorem value_shift (hw : w ≤ 32) {dev dev' : BitVec 64} {x : ℕ}
    (hdev : dev' = dev + BitVec.ofNat 64 x) :
    value (shift c (dev' - dev)) ≡ value c + x [MOD size w] := by
  subst hdev
  refine value_put c ?_
  have hdvd : size w ∣ 2 ^ 64 := by
    rw [size, ← pow_add]
    exact pow_dvd_pow 2 (by omega)
  refine Nat.ModEq.of_dvd hdvd ?_
  rw [BitVec.toNat_setWidth, BitVec.toNat_ushiftRight, Nat.shiftRight_eq_div_pow, Nat.add_comm,
    Nat.div_add_mod']
  simp only [Nat.ModEq, BitVec.toNat_add, BitVec.toNat_sub, BitVec.toNat_ofNat,
    BitVec.toNat_setWidth]
  omega

/-! ### Runs -/

/-- What happens to a flow.  The hardware forwards packets; its counters are read with any result. -/
inductive Event
  | packet (pktLen : BitVec 32)
  | offloaded (flowBytes : BitVec 32) (overFlowBytes : BitVec 16) (flowPackets : BitVec 32)
      (overFlowPackets : BitVec 8)
  | forwards (bytes packets : ℕ)
  | hardware (bytes hits : BitVec 64)
  | setNewFlow (newFlow : Bool)

/-- The entry, and the true totals of what its flow was told of.  A packet that finds the entry marked
as new starts them.  What the hardware has forwarded since it was last read is told of when it is read
next. -/
structure Sys where
  flow : Offloaded
  bytes : ℕ
  packets : ℕ
  untoldBytes : ℕ := 0
  untoldPackets : ℕ := 0

def step (s : Sys) : Event → Option Sys
  | .packet pktLen =>
    let newFlow := s.flow.fe.feFlags.newFlow
    some { s with
      flow := { s.flow with fe := s.flow.fe.countPacket pktLen.toNat }
      bytes := (if newFlow then 0 else s.bytes) + pktLen.toNat
      packets := (if newFlow then 0 else s.packets) + 1 }
  | .offloaded flowBytes overFlowBytes flowPackets overFlowPackets =>
    some { s with
      flow := { s.flow with
        fe := vrFlowIncrStats s.flow.fe flowBytes overFlowBytes flowPackets overFlowPackets }
      bytes := s.bytes + flowBytes.toNat + overFlowBytes.toNat * 2 ^ 32
      packets := s.packets + flowPackets.toNat + overFlowPackets.toNat * 2 ^ 32 }
  | .forwards bytes packets =>
    some { s with
      untoldBytes := s.untoldBytes + bytes
      untoldPackets := s.untoldPackets + packets }
  | .hardware bytes hits =>
    some ⟨statsUpdate s.flow bytes hits, s.bytes + s.untoldBytes, s.packets + s.untoldPackets, 0, 0⟩
  | .setNewFlow newFlow =>
    let fe := s.flow.fe
    some { s with
      flow := { s.flow with fe := { fe with feFlags := { fe.feFlags with newFlow := newFlow } } } }

/-- **What is asked of the hardware**: between two readings its counters, of sixty-four bits, grow by
what it has forwarded. -/
def HardwareCounts (s : Sys) : Event → Prop
  | .hardware bytes hits => bytes = s.flow.devBytes + .ofNat 64 s.untoldBytes ∧
      hits = s.flow.devPackets + .ofNat 64 s.untoldPackets
  | _ => True

instance (s : Sys) : DecidablePred (HardwareCounts s)
  | .hardware _ _ => inferInstanceAs (Decidable (_ ∧ _))
  | .packet _ => .isTrue trivial
  | .offloaded .. => .isTrue trivial
  | .forwards .. => .isTrue trivial
  | .setNewFlow _ => .isTrue trivial

/-- The counters are the totals, modulo their widths. -/
structure Exact (s : Sys) : Prop where
  bytes : value s.flow.fe.feStats.flowBytes ≡ s.bytes [MOD size 16]
  packets : value s.flow.fe.feStats.flowPackets ≡ s.packets [MOD size 8]

theorem Exact.step {s s' : Sys} (h : Exact s) : ∀ {ev : Event}, HardwareCounts s ev →
    Counters.step s ev = some s' → Exact s'
  | .packet pktLen, _, hs => by
    obtain rfl := Option.some.inj hs
    have hlen : BitVec.ofNat 32 pktLen.toNat = pktLen := by simp
    refine ⟨(value_add _ _).trans ?_, (value_next _).trans (Nat.ModEq.add_right _ ?_)⟩
    · rw [hlen]
      refine Nat.ModEq.add_right _ ?_
      split_ifs
      · rw [value_zero]
      · exact h.bytes
    · split_ifs
      · rw [value_zero]
      · exact h.packets
  | .offloaded flowBytes overFlowBytes flowPackets overFlowPackets, _, hs => by
    obtain rfl := Option.some.inj hs
    have hbytes := (value_add s.flow.fe.feStats.flowBytes flowBytes).trans (h.bytes.add_right _)
    have hpackets := (value_add s.flow.fe.feStats.flowPackets flowPackets).trans
      (h.packets.add_right _)
    exact ⟨(value_over _ overFlowBytes.toNat).trans (hbytes.add_right _),
      (value_over _ overFlowPackets.toNat).trans (hpackets.add_right _)⟩
  | .forwards _ _, _, hs => by
    obtain rfl := Option.some.inj hs
    exact ⟨h.bytes, h.packets⟩
  | .hardware bytes hits, hcounts, hs => by
    obtain rfl := Option.some.inj hs
    exact ⟨(value_shift _ (by decide) hcounts.1).trans (h.bytes.add_right _),
      (value_shift _ (by decide) hcounts.2).trans (h.packets.add_right _)⟩
  | .setNewFlow _, _, hs => by
    obtain rfl := Option.some.inj hs
    exact ⟨h.bytes, h.packets⟩

/-- Any entry, whose counters are what the totals start with. -/
def start (flow : Offloaded) : Sys where
  flow := flow
  bytes := value flow.fe.feStats.flowBytes
  packets := value flow.fe.feStats.flowPackets

/-- **Flow counters are exact modulo their width.**  From any entry and over any run in which the
hardware counts what it forwards, the counters are the totals of what was accounted for. -/
theorem counters_exact {flow : Offloaded} {s : Sys} (h : Reach step HardwareCounts (start flow) s) :
    value s.flow.fe.feStats.flowBytes = s.bytes % 2 ^ 48 ∧
      value s.flow.fe.feStats.flowPackets = s.packets % 2 ^ 40 := by
  have hstart : Exact (start flow) := ⟨rfl, rfl⟩
  have hexact : Exact s := h.invariant hstart fun _ _ _ hi hp hs => hi.step hp hs
  exact ⟨hexact.bytes ▸ (Nat.mod_eq_of_lt (value_lt _)).symm,
    hexact.packets ▸ (Nat.mod_eq_of_lt (value_lt _)).symm⟩

/-- The counters of a flow wrap with a packet, the hardware forwards, is read, and software offload
reports its part. -/
theorem counters_exact_wrapped :
    ∃ s, runWhen step HardwareCounts [.packet 100, .forwards 7 2, .hardware 6 1, .offloaded 3 1 4 0]
        (start ⟨{ feStats := ⟨⟨-50, -1⟩, ⟨-1, 0⟩⟩ }, -1, -1⟩) = some s ∧
      (s.bytes, s.packets) = (2 ^ 48 + 2 ^ 32 + 60, 2 ^ 32 + 6) ∧
      value s.flow.fe.feStats.flowBytes = 2 ^ 32 + 60 ∧
      value s.flow.fe.feStats.flowPackets = 2 ^ 32 + 6 := by
  obtain ⟨s, hs, htotal⟩ : ∃ s, runWhen step HardwareCounts
      [.packet 100, .forwards 7 2, .hardware 6 1, .offloaded 3 1 4 0]
      (start ⟨{ feStats := ⟨⟨-50, -1⟩, ⟨-1, 0⟩⟩ }, -1, -1⟩) = some s ∧
      (s.bytes, s.packets) = (2 ^ 48 + 2 ^ 32 + 60, 2 ^ 32 + 6) :=
    exists_of_decide (by decide +kernel)
  obtain ⟨hb, hp⟩ := counters_exact (Reach.of_runWhen .init hs)
  obtain ⟨hbytes, hpackets⟩ := Prod.mk.inj htotal
  rw [hbytes] at hb
  rw [hpackets] at hp
  exact ⟨s, hs, htotal, hb, hp⟩

end Vrouter.Flow.Counters
