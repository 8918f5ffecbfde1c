import Vrouter.Packet.Headers
import Mathlib.Data.BitVec
import Mathlib.Data.Nat.Bitwise

/-! # A burst of packets on a forwarding core

Packets of one interface come to a forwarding core in bursts.  `vrDpdkLcoreVroute` takes the packets of
the burst one after the other.  On the fabric interface of a router that works in a VLAN, packets of
other VLANs go to the kernel and the tag of its own is cleared; every packet that is left is given to
`vif_rx`, together with a VLAN id.

The variable that holds this id is set once for the burst and written only by packets with a tag
(`receive`).  So what an untagged packet is given is what the tagged packets before it have left there
(`carried`), and it is its own exactly as long as there are none (`Undisturbed`). -/

namespace Vrouter.Lcore

open Vrouter.Lib

/-! ### Packets, interfaces, surroundings -/

def vlanIdInvalid : BitVec 16 := .ofNat 16 Vrouter.Packet.vlanIdInvalid

def pktRxVlan : BitVec 64 := 1

/-- What `struct rte_mbuf` says of a received packet, and its frame. -/
structure Packet where
  olFlags : BitVec 64
  vlanTci : BitVec 16
  frame : List Byte
  deriving DecidableEq, Repr

/-- What `struct vr_interface` says of the interface of the burst. -/
structure Vif where
  fabric : Bool
  monitored : Bool
  deriving DecidableEq, Repr

/-- The fields of `vr_dpdk` that are read here: the VLAN the router works in, whether there is a ring to
the kernel, and whether the monitoring interface can send. -/
structure Config where
  vlanTag : BitVec 16
  vlanRing : Bool
  monitorTx : Bool
  deriving DecidableEq, Repr

/-- What the surroundings decide for the packet at a position of the burst: the frame with its tag put
back, or that there was no room; whether the ring to the kernel had room; the copy for the monitoring
interface, or that there was no buffer. -/
structure Env where
  vlanInsert : ℕ → Packet → Option Packet
  vlanRingEnqueue : ℕ → Bool
  pktmbufCopyMon : ℕ → Packet → Option Packet

/-- What becomes of a packet. -/
inductive Verdict
  | freed (p : Packet)
  | toKernel (p : Packet)
  | vifRx (p : Packet) (vlanId : BitVec 16)
  deriving DecidableEq, Repr

/-! ### The loop over a burst -/

/-- The end of the loop body. -/
def receive (vlanId : BitVec 16) (p : Packet) : BitVec 16 × Verdict :=
  let vlanId := if p.olFlags &&& pktRxVlan ≠ 0 then p.vlanTci &&& 0xFFF else vlanId
  (vlanId, .vifRx p vlanId)

/-- The router works in a VLAN and the interface is the fabric. -/
def inVlan (c : Config) (v : Vif) : Prop := v.fabric = true ∧ c.vlanTag ≠ vlanIdInvalid

instance (c : Config) (v : Vif) : Decidable (inVlan c v) := inferInstanceAs (Decidable (_ ∧ _))

/-- One packet of `vr_dpdk_lcore_vroute`, with the variable that the loop carries. -/
def vrouteOne (c : Config) (v : Vif) (e : Env) (i : ℕ) (vlanId : BitVec 16) (p : Packet) :
    BitVec 16 × Verdict :=
  if inVlan c v then
    if p.vlanTci &&& 0xFFF ≠ c.vlanTag then
      if c.vlanRing = false then (vlanId, .freed p)
      else
        match e.vlanInsert i p with
        | none => (vlanId, .freed p)
        | some p' => (vlanId, if e.vlanRingEnqueue i then .toKernel p' else .freed p')
    else receive vlanId { p with olFlags := p.olFlags &&& ~~~pktRxVlan }
  else receive vlanId p

/-- The loop, from a position of the burst on. -/
def vrouteLoop (c : Config) (v : Vif) (e : Env) : ℕ → BitVec 16 → List Packet → List Verdict
  | _, _, [] => []
  | i, vlanId, p :: ps =>
    (vrouteOne c v e i vlanId p).2 :: vrouteLoop c v e (i + 1) (vrouteOne c v e i vlanId p).1 ps

/-- The copies for the monitoring interface. -/
def monitorCopies (c : Config) (v : Vif) (e : Env) (pkts : List Packet) : List Packet :=
  if v.monitored && c.monitorTx then (pkts.zipIdx.filterMap fun (p, i) => e.pktmbufCopyMon i p)
  else []

structure Burst where
  copies : List Packet
  verdicts : List Verdict
  deriving DecidableEq, Repr

def vrDpdkLcoreVroute (c : Config) (v : Vif) (e : Env) (pkts : List Packet) : Burst :=
  ⟨monitorCopies c v e pkts, vrouteLoop c v e 0 vlanIdInvalid pkts⟩

/-- The VLAN id that is passed to `vif_rx` for the packet at a position, if it is passed there. -/
def Burst.vlanId (b : Burst) (i : ℕ) : Option (BitVec 16) :=
  match b.verdicts[i]? with
  | some (.vifRx _ vlanId) => some vlanId
  | _ => none

/-! ### What the loop carries -/

/-- The packet has a tag when `vif_rx` is about to be called for it. -/
def Tagged (c : Config) (v : Vif) (p : Packet) : Prop :=
  ¬ inVlan c v ∧ p.olFlags &&& pktRxVlan ≠ 0

instance (c : Config) (v : Vif) (p : Packet) : Decidable (Tagged c v p) :=
  inferInstanceAs (Decidable (_ ∧ _))

/-- The variable after the packets of a list: the id of the last packet that has a tag. -/
def carried (c : Config) (v : Vif) (vlanId : BitVec 16) (ps : List Packet) : BitVec 16 :=
  ps.foldl (fun w p => if Tagged c v p then p.vlanTci &&& 0xFFF else w) vlanId

theorem receive_cleared (vlanId : BitVec 16) (p : Packet) :
    receive vlanId { p with olFlags := p.olFlags &&& ~~~pktRxVlan } =
      (vlanId, .vifRx { p with olFlags := p.olFlags &&& ~~~pktRxVlan } vlanId) := by
  have hclear : p.olFlags &&& ~~~pktRxVlan &&& pktRxVlan = 0 := by
    rw [BitVec.and_assoc, BitVec.and_comm (~~~pktRxVlan), show pktRxVlan &&& ~~~pktRxVlan = 0 from rfl]
    exact BitVec.and_zero
  simp [receive, hclear]

/-- **One packet**: only a packet with a tag writes the variable, and it writes its own id. -/
theorem vrouteOne_carries (c : Config) (v : Vif) (e : Env) (i : ℕ) (vlanId : BitVec 16)
    (p : Packet) : (vrouteOne c v e i vlanId p).1 =
      if Tagged c v p then p.vlanTci &&& 0xFFF else vlanId := by
  unfold vrouteOne
  by_cases hin : inVlan c v
  · have hnot : ¬ Tagged c v p := fun h => h.1 hin
    rw [if_pos hin, if_neg hnot]
    by_cases htag : p.vlanTci &&& 0xFFF = c.vlanTag
    · rw [if_neg (not_not_intro htag), receive_cleared]
    · rw [if_pos htag]
      cases c.vlanRing with
      | false => rfl
      | true => cases e.vlanInsert i p <;> rfl
  · rw [if_neg hin]
    simp only [Tagged, hin, not_false_eq_true, true_and, receive]

/-- **The whole burst**: every packet is taken with what the packets before it have left. -/
theorem vrouteLoop_getElem? (c : Config) (v : Vif) (e : Env) (pkts : List Packet) :
    ∀ (k : ℕ) (vlanId : BitVec 16) (i : ℕ), (vrouteLoop c v e k vlanId pkts)[i]? =
      pkts[i]?.map fun p => (vrouteOne c v e (k + i) (carried c v vlanId (pkts.take i)) p).2 := by
  induction pkts with
  | nil => intro k vlanId i; rfl
  | cons q ps ih =>
    intro k vlanId i
    cases i with
    | zero => rfl
    | succ i =>
      rw [vrouteLoop, List.getElem?_cons_succ, List.getElem?_cons_succ, ih, vrouteOne_carries,
        show k + 1 + i = k + (i + 1) by omega]
      rfl

variable {ps pkts : List Packet} {p : Packet}

theorem carried_of_untagged {c : Config} {v : Vif} {vlanId : BitVec 16}
    (h : ∀ p ∈ ps, ¬ Tagged c v p) : carried c v vlanId ps = vlanId := by
  induction ps with
  | nil => rfl
  | cons p ps ih =>
    have hp : ¬ Tagged c v p := h p List.mem_cons_self
    have hps := ih fun q hq => h q (List.mem_cons_of_mem p hq)
    simpa [carried, hp] using hps

/-! ### The id of a packet -/

/-- The VLAN id as a function of the packet's own metadata and of the configuration. -/
def ownVlanId (c : Config) (v : Vif) (olFlags : BitVec 64) (vlanTci : BitVec 16) :
    Option (BitVec 16) :=
  if inVlan c v then if vlanTci &&& 0xFFF = c.vlanTag then some vlanIdInvalid else none
  else some (if olFlags &&& pktRxVlan ≠ 0 then vlanTci &&& 0xFFF else vlanIdInvalid)

/-- At this position of the burst the variable is the packet's own: the router works in a VLAN, or the
packet has a tag, or no packet before it has one. -/
def Undisturbed (c : Config) (v : Vif) (pkts : List Packet) (i : ℕ) : Prop :=
  inVlan c v ∨ (∃ p, pkts[i]? = some p ∧ p.olFlags &&& pktRxVlan ≠ 0) ∨
    ∀ p ∈ pkts.take i, p.olFlags &&& pktRxVlan = 0

/-- What the packet at a position is passed to `vif_rx` with, whatever was left by the others. -/
theorem vlanId_eq_carried (c : Config) (v : Vif) (e : Env) {i : ℕ} (hp : pkts[i]? = some p) :
    (vrDpdkLcoreVroute c v e pkts).vlanId i =
      if inVlan c v then ownVlanId c v p.olFlags p.vlanTci
      else some (if p.olFlags &&& pktRxVlan ≠ 0 then p.vlanTci &&& 0xFFF
        else carried c v vlanIdInvalid (pkts.take i)) := by
  unfold Burst.vlanId vrDpdkLcoreVroute
  rw [vrouteLoop_getElem?, hp, Option.map_some, vrouteOne]
  by_cases hin : inVlan c v
  · rw [if_pos hin, if_pos hin, ownVlanId, if_pos hin]
    have hleft : carried c v vlanIdInvalid (pkts.take i) = vlanIdInvalid :=
      carried_of_untagged fun q _ h => h.1 hin
    by_cases htag : p.vlanTci &&& 0xFFF = c.vlanTag
    · rw [if_neg (not_not_intro htag), if_pos htag, receive_cleared, hleft]
    · rw [if_pos htag, if_neg htag]
      cases c.vlanRing with
      | false => rfl
      | true =>
        cases e.vlanInsert (0 + i) p with
        | none => rfl
        | some q => cases e.vlanRingEnqueue (0 + i) <;> rfl
  · rw [if_neg hin, if_neg hin]
    rfl

/-- A tag has twelve bits, so what a tagged packet leaves is never the invalid id. -/
theorem carried_ne_vlanIdInvalid {c : Config} {v : Vif} {vlanId : BitVec 16}
    (h : vlanId ≠ vlanIdInvalid ∨ ∃ p ∈ ps, Tagged c v p) : carried c v vlanId ps ≠ vlanIdInvalid := by
  induction ps generalizing vlanId with
  | nil => simpa [carried] using h
  | cons p ps ih =>
    by_cases hp : Tagged c v p
    · have hid : p.vlanTci &&& 0xFFF ≠ vlanIdInvalid := by
        intro hbits
        have htop := congrArg (·.getLsbD 15) hbits
        simp [vlanIdInvalid, Vrouter.Packet.vlanIdInvalid] at htop
      simpa [carried, hp] using ih (.inl hid)
    · have hrest : vlanId ≠ vlanIdInvalid ∨ ∃ q ∈ ps, Tagged c v q := by
        simpa [hp] using h
      simpa [carried, hp] using ih hrest

/-- The id of a packet is its own exactly where no earlier packet has left a tag for it. -/
theorem vlanId_own_iff (c : Config) (v : Vif) (e : Env) {i : ℕ} (hp : pkts[i]? = some p) :
    (vrDpdkLcoreVroute c v e pkts).vlanId i = ownVlanId c v p.olFlags p.vlanTci ↔
      Undisturbed c v pkts i := by
  rw [vlanId_eq_carried c v e hp, Undisturbed]
  by_cases hin : inVlan c v
  · simp [hin]
  · rw [if_neg hin, ownVlanId, if_neg hin]
    by_cases htag : p.olFlags &&& pktRxVlan ≠ 0
    · rw [if_pos htag, if_pos htag]
      exact iff_of_true rfl (.inr (.inl ⟨p, hp, htag⟩))
    · have hcarried : carried c v vlanIdInvalid (pkts.take i) = vlanIdInvalid ↔
          ¬ ∃ q ∈ pkts.take i, Tagged c v q :=
        ⟨fun h hex => carried_ne_vlanIdInvalid (.inr hex) h,
          fun h => carried_of_untagged fun q hq hqt => h ⟨q, hq, hqt⟩⟩
      rw [if_neg htag, if_neg htag, Option.some_inj, hcarried]
      simpa [hin, hp, Tagged] using fun h => absurd h htag

/-- The packet in a burst behind a tagged one, or behind packets without a tag. -/
def behind (q p : Packet) (i : ℕ) : List Packet := List.replicate i q ++ [p]

theorem behind_getElem? (q p : Packet) (i : ℕ) : (behind q p i)[i]? = some p := by
  simp [behind]

theorem undisturbed_behind_iff (c : Config) (v : Vif) (q p : Packet) (i : ℕ) :
    Undisturbed c v (behind q p i) i ↔
      inVlan c v ∨ p.olFlags &&& pktRxVlan ≠ 0 ∨ i = 0 ∨ q.olFlags &&& pktRxVlan = 0 := by
  simp only [Undisturbed, behind_getElem?, Option.some.injEq, exists_eq_left']
  simp [behind, List.mem_replicate]
  grind

/-- **Packets of a burst are independent** exactly so far: the VLAN id of a packet is a function of its
own metadata if and only if no earlier packet of the burst has left a tag for it; and it stays the same
whatever the other packets are, and whatever the surroundings decide, if and only if the router works in
a VLAN, or the packet has a tag itself, or it is the first. -/
theorem vrDpdkLcoreVroute_independent (c : Config) (v : Vif) (e : Env) (pkts : List Packet) (i : ℕ)
    (p : Packet) (hp : pkts[i]? = some p) :
    ((vrDpdkLcoreVroute c v e pkts).vlanId i = ownVlanId c v p.olFlags p.vlanTci ↔
        Undisturbed c v pkts i) ∧
      ((∀ (e' : Env) (pkts' : List Packet), pkts'[i]? = some p →
          (vrDpdkLcoreVroute c v e' pkts').vlanId i = (vrDpdkLcoreVroute c v e pkts).vlanId i) ↔
        inVlan c v ∨ p.olFlags &&& pktRxVlan ≠ 0 ∨ i = 0) := by
  refine ⟨vlanId_own_iff c v e hp, ?_, ?_⟩
  · -- one burst has tags before the packet, another has none: only one of the ids is the packet's own
    intro hsame
    have htagged := hsame e _ (behind_getElem? ⟨pktRxVlan, 0, []⟩ p i)
    have hplain := hsame e _ (behind_getElem? ⟨0, 0, []⟩ p i)
    have hown := (vlanId_own_iff c v e (behind_getElem? ⟨0, 0, []⟩ p i)).mpr
      ((undisturbed_behind_iff c v _ p i).mpr (.inr (.inr (.inr rfl))))
    have hfree := (vlanId_own_iff c v e (behind_getElem? ⟨pktRxVlan, 0, []⟩ p i)).mp
      (htagged.trans (hplain.symm.trans hown))
    have hcases := (undisturbed_behind_iff c v _ p i).mp hfree
    simpa [pktRxVlan] using hcases
  · intro hfree e' pkts' hp'
    have hany : ∀ ps : List Packet, ps[i]? = some p → Undisturbed c v ps i := by
      intro ps hps
      obtain hin | htag | rfl := hfree
      · exact .inl hin
      · exact .inr (.inl ⟨p, hps, htag⟩)
      · exact .inr (.inr (by simp))
    rw [(vlanId_own_iff c v e' hp').mpr (hany pkts' hp'), (vlanId_own_iff c v e hp).mpr (hany pkts hp)]

/-! ### A tag that stays behind -/

/-- The interface of a guest, on a router that works in no VLAN. -/
def guest : Vif := ⟨false, false⟩

def noVlan : Config := ⟨vlanIdInvalid, false, false⟩

/-- Nothing fails. -/
def quiet : Env := ⟨fun _ p => some p, fun _ => true, fun _ p => some p⟩

def tagged100 : Packet := ⟨pktRxVlan, 100, []⟩

def untagged : Packet := ⟨0, 0, []⟩

theorem vrDpdkLcoreVroute_untagged :
    (vrDpdkLcoreVroute noVlan guest quiet [untagged, untagged]).vlanId 1 =
        ownVlanId noVlan guest untagged.olFlags untagged.vlanTci ∧
      ∃ (e' : Env) (pkts' : List Packet), pkts'[1]? = some untagged ∧
        (vrDpdkLcoreVroute noVlan guest e' pkts').vlanId 1 ≠
          (vrDpdkLcoreVroute noVlan guest quiet [untagged, untagged]).vlanId 1 := by
  have h := vrDpdkLcoreVroute_independent noVlan guest quiet [untagged, untagged] 1 untagged rfl
  refine ⟨h.1.mpr (.inr (.inr (by decide))), ?_⟩
  have hnot := mt h.2.mp (by decide)
  push Not at hnot
  exact hnot

/-- An untagged packet is passed on with the VLAN id of the tagged packet before it. -/
theorem staleVlan_passed :
    (vrDpdkLcoreVroute noVlan guest quiet [untagged, untagged]).vlanId 1 = some vlanIdInvalid ∧
      (vrDpdkLcoreVroute noVlan guest quiet [tagged100, untagged]).vlanId 1 = some 100 := by
  decide

end Vrouter.Lcore
