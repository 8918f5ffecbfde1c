import Vrouter.Nh.Model
import Vrouter.FlowKey.Model

/-! # Multicast replication

A translation of `nh_composite_mcast` of `vr_nexthop.c` and of the four functions it hands its
copies to.  A multicast tree is a composite nexthop whose components are composite nexthops of four
kinds: *encap* (the virtual machines of this host), *fabric* and *EVPN* (other hosts) and *TOR*
(switches).  The packet is cloned once for each of them, each clone is cloned once for each of
their members, and every function frees the packet it was given when it is done.

One `struct vr_forwarding_md` is shared by all copies.  `Fmd` has the fields of it that replication
writes; what replication only reads is part of `Packet`.  A member nexthop may leave anything in the
fields of `Fmd` when it has sent its copy (`Env.leaf`), but none that transmits on an interface
writes the label.

A packet is known by a number, clones get the next one.  `Run.trace` says, in order, what became of
packets.  Everything that allocates memory or changes the length of a packet may fail, as
`Env.fails` decides.  `nh_output` calls the function of a nexthop; it traps a packet without TTL,
but such a packet has never come to a multicast tree.

A composite has one of the four flags, or it is passed over.  Statistics, the lengths of head room
and the UDP source port are left out, and so is what is done with a packet that turns out not to be
one to replicate (`Verdict`). -/

namespace Vrouter.Mcast

open Vrouter.Lib Nh

/-! ### Interfaces and nexthops -/

/-- The fields of `struct vr_interface` that replication depends on. -/
structure Vif where
  vifType : FlowKey.VifType
  vifVrf : BitVec 16
  vifParent : Option VifPtr

/-- `vif_is_virtual` -/
def Vif.isVirtual (vif : Vif) : Bool := vif.vifType.isVirtual

/-- `vif_is_vlan` -/
def Vif.isVlan (vif : Vif) : Bool := vif.vifType = .virtualVlan

/-- Which of `NH_FLAG_TUNNEL_GRE`, `NH_FLAG_TUNNEL_UDP_MPLS` and `NH_FLAG_TUNNEL_VXLAN` comes first
in the flags of a tunnel. -/
inductive TunnelType
  | gre
  | udpMpls
  | vxlan
  | other
  deriving DecidableEq, Repr

/-- A member of a composite: what replication reads of `struct vr_nexthop`.  The destinations of
all tunnel types stand at one place (`nh_gre_tun_dip`, `nh_udp_tun_dip`, `nh_vxlan_tun_dip`). -/
structure Nexthop where
  valid : Bool
  nhType : NhType
  tunnel : TunnelType := .other
  tunDip : ℕ := 0
  nhDevArr : DevArr

/-- `nh_dev` is the first slot of `nh_dev_arr`. -/
def Nexthop.nhDev (nh : Nexthop) : Option VifPtr := nh.nhDevArr 0

/-- The loop over `nh_dev_arr` that stops at a slot that is not `NULL`. -/
def Nexthop.firstDev (nh : Nexthop) : Option VifPtr :=
  (List.finRange vrMaxPhyInf).findSome? nh.nhDevArr

structure Component where
  cnh : Option Nexthop
  cnhLabel : ℤ

/-- `NH_FLAG_COMPOSITE_ENCAP`, `_FABRIC`, `_EVPN` and `_TOR` -/
inductive Kind
  | encap
  | fabric
  | evpn
  | tor
  deriving DecidableEq, Repr

/-- A component of the tree.  `kind` is `none` for a nexthop that is not `NH_COMPOSITE` or has none
of the four flags. -/
structure Composite where
  valid : Bool
  kind : Option Kind
  nhFamily : NhFamily
  nhVrf : BitVec 16 := 0
  tunnelPbb : Bool := false
  validateMcastSrc : Bool := false
  components : List Component

/-- The nexthop of `nh_composite_mcast`. -/
structure Tree where
  nhFamily : NhFamily
  validateMcastSrc : Bool := false
  components : List (Option Composite)

/-- A member of the tree, with what the composite it belongs to says about it; `slot` is the index
of the composite and its own. -/
structure Member where
  slot : ℕ × ℕ
  kind : Kind
  compositeFamily : NhFamily
  compositeVrf : BitVec 16
  nh : Nexthop
  label : ℤ

/-- The members of the composite at index `i`; empty slots are passed over. -/
def Composite.members (c : Composite) (kind : Kind) (i : ℕ) : List Member :=
  c.components.zipIdx.filterMap fun x =>
    x.1.cnh.map fun nh => ⟨(i, x.2), kind, c.nhFamily, c.nhVrf, nh, x.1.cnhLabel⟩

/-! ### Packets -/

inductive FmdSrc
  | unset
  | tor
  | torEvpn
  deriving DecidableEq, Repr

/-- `PKT_SRC_*`, and zero for a packet of a virtual machine. -/
inductive PktSrc
  | vm
  | tor
  | ingress
  | edge
  deriving DecidableEq, Repr

/-- A packet, with the fields of its metadata that its copies share and do not change. -/
structure Packet where
  id : ℕ
  vpIf : VifPtr
  fmdOuterSrcIp : ℕ
  fmdSrc : FmdSrc

/-- The fields of `struct vr_forwarding_md` that replication writes. -/
structure Fmd where
  fmdLabel : ℤ
  fmdDvrf : BitVec 16
  l2ControlData : Bool
  deriving DecidableEq, Repr

/-- What a member nexthop is given: the label and the VRF of the metadata, and the id of the VXLAN
header that was put in front of the packet. -/
structure Copy where
  label : ℤ
  vrf : BitVec 16
  vxlan : Option ℤ
  deriving DecidableEq, Repr

/-- What becomes of a packet: it is freed, handed to a member, trapped to the agent, or taken by
what handles packets that are not replicated. -/
inductive Event
  | freed (id : ℕ)
  | output (id : ℕ) (m : Member) (c : Copy)
  | trapped (id : ℕ)
  | taken (id : ℕ)

def Event.id : Event → ℕ
  | freed id | output id _ _ | trapped id | taken id => id

/-- The operations that may fail. -/
inductive Op
  | pclone
  | pcow
  | pull
  | pbbPush
  | vxlanPush
  | controlPush
  deriving DecidableEq, Repr

/-- What a member nexthop leaves in the metadata.  `nh_encap_l2` and `nh_encap_l3` and the transmit
functions of interfaces do not write the label. -/
structure Leaf where
  leaves : Nexthop → Fmd → Fmd
  encap : ∀ nh fmd, nh.nhType = .encap → (leaves nh fmd).fmdLabel = fmd.fmdLabel

/-- The interfaces, which of the operations fail (by their number in the run), and what a member
nexthop leaves in the metadata. -/
structure Env where
  vif : VifPtr → Vif
  fails : ℕ → Op → Bool
  leaf : Leaf

/-- `clock` counts the operations that may fail, `next` is the number of the next clone. -/
structure Run where
  fmd : Fmd
  clock : ℕ
  next : ℕ
  trace : List Event

namespace Run

def emit (s : Run) (e : Event) : Run := { s with trace := s.trace ++ [e] }

/-- `vr_pfree` -/
def free (s : Run) (pkt : Packet) : Run := s.emit (.freed pkt.id)

def tick (s : Run) : Run := { s with clock := s.clock + 1 }

end Run

variable (env : Env)

/-- `nh_mcast_clone`, and `pkt_cow`, which does the same. -/
def nhMcastClone (pkt : Packet) (s : Run) : Option Packet × Run :=
  if env.fails s.clock .pclone then (none, s.tick)
  else
    let clone := { pkt with id := s.next }
    let s := { s.tick with next := s.next + 1 }
    if env.fails s.clock .pcow then (none, s.tick.free clone) else (some clone, s.tick)

/-- Every loop goes on with a clone and is left when there is none. -/
def withClone (pkt : Packet) (s : Run) (go : Packet → Run → Bool × Run) : Bool × Run :=
  match nhMcastClone env pkt s with
  | (none, s) => (false, s)
  | (some clone, s) => go clone s

/-- `nh_output` of a member nexthop. -/
def nhOutput (pkt : Packet) (m : Member) (vxlan : Option ℤ) (s : Run) : Run :=
  { s.emit (.output pkt.id m ⟨s.fmd.fmdLabel, s.fmd.fmdDvrf, vxlan⟩) with
    fmd := env.leaf.leaves m.nh s.fmd }

/-- The loop over the devices of a nexthop that sets `fmd_dvrf`; without one it stays as it is. -/
def setDvrf (nh : Nexthop) (fmd : Fmd) : Fmd :=
  match nh.firstDev with
  | none => fmd
  | some dev => { fmd with fmdDvrf := (env.vif dev).vifVrf }

/-- The metadata of a copy with the label of its member. -/
def Run.address (s : Run) (m : Member) : Run :=
  { s with fmd := setDvrf env m.nh { s.fmd with fmdLabel := m.label } }

/-- The test that keeps a packet from going back to the tunnel it came from. -/
def sameSource (pkt : Packet) (nh : Nexthop) : Bool :=
  pkt.fmdOuterSrcIp ≠ 0 && pkt.fmdOuterSrcIp = nh.tunDip

/-! ### The four composites -/

/-- The loop of `nh_composite_encap`. -/
def encapBody (pkt : Packet) (m : Member) (s : Run) : Bool × Run :=
  if !m.nh.valid then (true, s)
  else if m.nh.nhDev = some pkt.vpIf then (true, s)
  else withClone env pkt s fun clone s =>
    (true, nhOutput env clone m none { s with fmd := setDvrf env m.nh s.fmd })

def nhCompositeEncap (pkt : Packet) (i : ℕ) (c : Composite) (s : Run) : Run :=
  (forBreak (encapBody env pkt) (c.members .encap i) s).free pkt

/-- The loop of `nh_composite_tor`. -/
def torBody (pkt : Packet) (m : Member) (s : Run) : Bool × Run :=
  if !m.nh.valid then (true, s)
  else if m.nh.nhType ≠ .tunnel then (true, s)
  else if sameSource pkt m.nh then (true, s)
  else withClone env pkt s fun clone s => (true, nhOutput env clone m none (s.address env m))

def nhCompositeTor (pkt : Packet) (i : ℕ) (c : Composite) (s : Run) : Run :=
  (forBreak (torBody env pkt) (c.members .tor i) s).free pkt

/-- The loop of `nh_composite_evpn` after the PBB header.  A clone without room for control data is
not freed. -/
def evpnControl (control : Bool) (m : Member) (clone : Packet) (s : Run) : Bool × Run :=
  if !control then (true, nhOutput env clone m none (s.address env m))
  else if env.fails s.clock .controlPush then (false, s.tick)
  else (true, nhOutput env clone m none (s.tick.address env m))

/-- The loop of `nh_composite_evpn`. -/
def evpnBody (pkt : Packet) (pbb control : Bool) (m : Member) (s : Run) : Bool × Run :=
  if !m.nh.valid then (true, s)
  else if m.nh.nhType ≠ .tunnel then (true, s)
  else withClone env pkt s fun clone s =>
    if !pbb then evpnControl env control m clone s
    else if env.fails s.clock .pbbPush then (true, s.tick.free clone)
    else evpnControl env control m clone s.tick

def nhCompositeEvpn (pkt : Packet) (i : ℕ) (c : Composite) (s : Run) : Run :=
  let control := s.fmd.l2ControlData
  let s := { s with fmd := { s.fmd with l2ControlData := false } }
  (forBreak (evpnBody env pkt c.tunnelPbb control) (c.members .evpn i) s).free pkt

/-- Whether the tunnel of a fabric member goes out where the packet came in: on the parent of its
interface, or on an interface of the same parent. -/
def onIngressInterface (pkt : Packet) (nh : Nexthop) : Bool :=
  (env.vif pkt.vpIf).isVlan && (List.finRange vrMaxPhyInf).any fun j =>
    match nh.nhDevArr j with
    | none => false
    | some dev =>
      ((env.vif dev).isVlan && (env.vif pkt.vpIf).vifParent = (env.vif dev).vifParent) ||
        (env.vif pkt.vpIf).vifParent = some dev

/-- The end of the loop of `nh_composite_fabric`: control data, the label of the member, output. -/
def fabricControl (family : NhFamily) (m : Member) (vxlan : Option ℤ) (clone : Packet) (s : Run) :
    Bool × Run :=
  if family ≠ .bridge then (true, nhOutput env clone m vxlan (s.address env m))
  else if env.fails s.clock .controlPush then (false, s.tick.free clone)
  else
    let s := { s.tick with fmd := { s.fmd with l2ControlData := false } }
    (true, nhOutput env clone m vxlan (s.address env m))

/-- `nh_vxlan_tunnel_helper` and what follows it.  The header has 24 bits for the id. -/
def fabricVxlan (family : NhFamily) (label : ℤ) (m : Member) (clone : Packet) (s : Run) :
    Bool × Run :=
  if family ≠ .bridge then fabricControl env family m none clone s
  else
    let s := { s with fmd := setDvrf env m.nh { s.fmd with fmdLabel := label } }
    if env.fails s.clock .vxlanPush then (false, s.tick.free clone)
    else fabricControl env family m (some (s.fmd.fmdLabel % 2 ^ 24)) clone s.tick

/-- The headers of a packet that comes from a virtual machine or a switch. -/
def fabricHeaders (c : Composite) (label : ℤ) (m : Member) (clone : Packet) (s : Run) :
    Bool × Run :=
  if label < 0 then (false, s.free clone)
  else if !c.tunnelPbb then fabricVxlan env c.nhFamily label m clone s
  else if env.fails s.clock .pbbPush then (true, s.tick.free clone)
  else fabricVxlan env c.nhFamily label m clone s.tick

/-- The packets that get a VXLAN header. -/
def fromVmOrTor (pkt : Packet) : Bool := (env.vif pkt.vpIf).isVirtual || pkt.fmdSrc = .tor

/-- The loop of `nh_composite_fabric`; `label` and `vrf` are its local copies. -/
def fabricBody (pkt : Packet) (c : Composite) (label : ℤ) (vrf : BitVec 16) (m : Member) (s : Run) :
    Bool × Run :=
  let s := { s with fmd := { s.fmd with fmdDvrf := vrf } }
  if !m.nh.valid then (true, s)
  else if m.nh.nhType ≠ .tunnel then (true, s)
  else if m.nh.tunnel ≠ .gre ∧ m.nh.tunnel ≠ .udpMpls then (false, s)
  else if sameSource pkt m.nh then (true, s)
  else if onIngressInterface env pkt m.nh then (true, s)
  else withClone env pkt s fun clone s =>
    if fromVmOrTor env pkt then fabricHeaders env c label m clone s
    else fabricControl env c.nhFamily m none clone s

def nhCompositeFabric (pkt : Packet) (i : ℕ) (c : Composite) (s : Run) : Run :=
  (forBreak (fabricBody env pkt c s.fmd.fmdLabel s.fmd.fmdDvrf) (c.members .fabric i) s).free pkt

/-! ### The tree -/

/-- `tun_src`: the kind of the composite the source of the packet was found in, if it was looked
for, and whether its source counts as valid without being found. -/
structure TunSrc where
  kind : Option Kind
  relaxed : Bool
  deriving DecidableEq, Repr

/-- Whether the tunnel goes to where the packet came from; a tunnel of another type has no
destination. -/
def Nexthop.isSource (nh : Nexthop) (outerSrcIp : ℕ) : Bool :=
  let tunDip := if nh.tunnel = .other then 0 else nh.tunDip
  nh.valid && nh.nhType = .tunnel && tunDip ≠ 0 && outerSrcIp = tunDip

/-- Whether the source of the packet is a member of a fabric, EVPN or TOR composite. -/
def Composite.hasSource (c : Composite) (outerSrcIp : ℕ) : Bool :=
  c.valid && (c.kind = some .fabric || c.kind = some .evpn || c.kind = some .tor) &&
    c.components.any fun x => x.cnh.any fun nh => nh.isSource outerSrcIp

/-- `nh_composite_mcast_validate_src`; `none` for a source that is not valid. -/
def nhCompositeMcastValidateSrc (pkt : Packet) (nh : Tree) : Option TunSrc :=
  if (env.vif pkt.vpIf).vifType ≠ .physical then some ⟨none, false⟩
  else if pkt.fmdOuterSrcIp = 0 then none
  else
    match (nh.components.filterMap id).find? fun c => c.hasSource pkt.fmdOuterSrcIp with
    | some c => some ⟨c.kind, c.validateMcastSrc⟩
    | none => if !nh.validateMcastSrc then some ⟨none, true⟩ else none

def TunSrc.pktSrc (tun : TunSrc) : PktSrc :=
  if tun.relaxed then .edge
  else
    match tun.kind with
    | some .evpn => .ingress
    | some .fabric => .edge
    | some .tor => .tor
    | _ => .vm

/-- What MAC learning reads of `struct vr_bridge_entry`: its label, if `VR_BE_LABEL_VALID_FLAG` is
set, `VR_BE_L2_CONTROL_DATA_FLAG` and whether it has a nexthop. -/
structure BridgeEntry where
  beLabel : Option ℤ
  l2ControlData : Bool
  beNh : Bool
  deriving DecidableEq, Repr

/-- What `vr_bridge_learn` finds out about the inner source address of a packet: its bridge entry,
that of the broadcast address, and whether the agent is to know, because the address could be added
to the table or has moved. -/
structure Learn where
  smac : Option BridgeEntry
  bcast : Option BridgeEntry
  trap : Bool
  deriving DecidableEq, Repr

/-- A PBB header.  It may be cut short or be followed by nothing sensible; in a tree with
`NH_FLAG_MAC_LEARN` the address behind it is learnt, unless it is a multicast address. -/
inductive Pbb
  | invalid
  | header (learn : Option Learn)
  deriving DecidableEq, Repr

/-- What `nh_handle_mcast_control_pkt` and `nh_handle_unknown_unicast` make of a packet.  It is taken
by ARP and neighbour discovery, the agent or the one interface that its MAC address belongs to; or
it is replicated, not always to virtual machines.  A copy of a neighbour advertisement goes to the
agent. -/
inductive Verdict
  | handled
  | flood (toVms : Bool) (trapCopy : Bool)
  deriving DecidableEq, Repr

/-- What is found out about a bridged packet before it is replicated. -/
structure Head where
  pbb : Option Pbb
  verdict : Verdict
  deriving DecidableEq, Repr

/-- The local variables of `nh_composite_mcast` that its loop reads; `label` is the label of the
packet in an `unsigned short`. -/
structure Entry where
  src : PktSrc
  floodToVms : Bool
  pbbPullLen : ℕ
  pullHeader : Bool
  l2ControlData : Bool
  label : ℤ
  vrf : BitVec 16
  deriving DecidableEq, Repr

def vrVxlanHdrLen : ℕ := 36

/-- `pbb_size` of `__vr_pbb_decode` -/
def pbbSize : ℕ := 18

/-- `pkt_pull`, for a length that is not zero. -/
def pktPull (len : ℕ) (s : Run) : Bool × Run :=
  if len = 0 then (true, s) else (!env.fails s.clock .pull, s.tick)

/-- A clone is shortened and handed to a composite. -/
def pullAndOutput (len : ℕ) (clone : Packet) (s : Run) (go : Run → Run) : Bool × Run :=
  match pktPull env len s with
  | (false, s) => (false, s.free clone)
  | (true, s) => (true, go s)

/-- The loop of `nh_composite_mcast`. -/
def mcastBody (pkt : Packet) (family : NhFamily) (e : Entry) (x : Option Composite × ℕ) (s : Run) :
    Bool × Run :=
  let s := { s with fmd := ⟨e.label, e.vrf, false⟩ }
  match x with
  | (none, _) => (true, s)
  | (some c, i) =>
    let s' := fun (s : Run) => { s with fmd := { s.fmd with fmdDvrf := c.nhVrf } }
    if !c.valid then (true, s)
    else
      match c.kind with
      | none => (true, s)
      | some .encap =>
        if !e.floodToVms then (true, s)
        else withClone env pkt s fun clone s =>
          let vxlan := family = .bridge ∧ e.src = .edge ∧ e.pullHeader
          pullAndOutput env (e.pbbPullLen + if vxlan then vrVxlanHdrLen else 0) clone s
            (nhCompositeEncap env clone i c)
      | some .fabric =>
        if e.src = .ingress then (true, s)
        else withClone env pkt s fun clone s => (true, nhCompositeFabric env clone i c (s' s))
      | some .evpn =>
        if e.src ≠ .vm ∧ e.src ≠ .tor then (true, s)
        else withClone env pkt s fun clone s =>
          let s := { s' s with fmd := { (s' s).fmd with l2ControlData := e.l2ControlData } }
          (true, nhCompositeEvpn env clone i c s)
      | some .tor =>
        withClone env pkt s fun clone s =>
          pullAndOutput env (if e.src = .edge then vrVxlanHdrLen + e.pbbPullLen else 0) clone s
            fun s => nhCompositeTor env clone i c (s' s)

/-- The loop of `nh_composite_mcast` and its end. -/
def mcastLoop (pkt : Packet) (nh : Tree) (e : Entry) (s : Run) : Run :=
  (forBreak (mcastBody env pkt nh.nhFamily e) nh.components.zipIdx s).free pkt

/-- The copy of a neighbour advertisement for the agent. -/
def trapAdvertisement (trapCopy : Bool) (pkt : Packet) (s : Run) : Run :=
  if !trapCopy then s
  else
    match nhMcastClone env pkt s with
    | (none, s) => s
    | (some clone, s) => s.emit (.trapped clone.id)

/-- `bridge_lookup`: an entry that is found writes to the metadata. -/
def bridgeLookup (be : Option BridgeEntry) (fmd : Fmd) : Fmd :=
  match be with
  | none => fmd
  | some be =>
    { fmd with
      fmdLabel := be.beLabel.getD fmd.fmdLabel
      l2ControlData := be.l2ControlData || fmd.l2ControlData }

/-- The metadata after the lookups of `vr_bridge_learn`. -/
def Learn.lookups (learn : Learn) (fmd : Fmd) : Fmd :=
  let fmd := bridgeLookup learn.smac fmd
  if learn.smac.any (·.beNh) then fmd else bridgeLookup learn.bcast fmd

/-- `vr_bridge_learn`.  The agent gets a copy of the packet or, if there is none, the packet itself;
then the result is `true` (`MAC_TRAPPED`). -/
def vrBridgeLearn (learn : Learn) (pkt : Packet) (s : Run) : Bool × Run :=
  let s := { s with fmd := learn.lookups s.fmd }
  if !(learn.smac.any (·.beNh) || learn.bcast.any (·.beNh)) || !learn.trap then (false, s)
  else
    match nhMcastClone env pkt s with
    | (none, s) => (true, s.emit (.trapped pkt.id))
    | (some clone, s) => (false, s.emit (.trapped clone.id))

/-- The PBB header of a packet is decoded; the result is `pbb_pull_len`, or `none` if that was the
end of the packet. -/
def decodePbb (pbb : Option Pbb) (pkt : Packet) (s : Run) : Option ℕ × Run :=
  match pbb with
  | none => (some 0, s)
  | some .invalid => (none, s.free pkt)
  | some (.header none) => (some pbbSize, s)
  | some (.header (some learn)) =>
    match vrBridgeLearn env learn pkt s with
    | (true, s) => (none, s)
    | (false, s) => (some pbbSize, s)

/-- What `nh_composite_mcast` does with a bridged packet before it is replicated; the result is
`pbb_pull_len` and `flood_to_vms`. -/
def beforeFlood (head : Head) (pkt : Packet) (s : Run) : Option (ℕ × Bool) × Run :=
  match decodePbb env head.pbb pkt s with
  | (none, s) => (none, s)
  | (some pbbPullLen, s) =>
    match head.verdict with
    | .handled => (none, s.emit (.taken pkt.id))
    | .flood toVms trapCopy => (some (pbbPullLen, toVms), trapAdvertisement env trapCopy pkt s)

/-- The packet after `fmd_src` was set. -/
def Packet.withSrc (pkt : Packet) (src : PktSrc) : Packet :=
  if src = .tor then { pkt with fmdSrc := .tor } else pkt

/-- The local variables of `nh_composite_mcast` for a packet that is replicated.  The VRF was read
when the packet came, the other metadata are read now. -/
def entryOf (nh : Tree) (tun : TunSrc) (flood : ℕ × Bool) (pktVrf : BitVec 16) (fmd : Fmd) :
    Entry where
  src := tun.pktSrc
  floodToVms := flood.2
  pbbPullLen := flood.1
  pullHeader := !tun.relaxed
  l2ControlData := nh.nhFamily = .bridge && fmd.l2ControlData
  label := fmd.fmdLabel % 2 ^ 16
  vrf := pktVrf

def nhCompositeMcast (pkt : Packet) (nh : Tree) (head : PktSrc → Head) (s : Run) : Run :=
  match nhCompositeMcastValidateSrc env pkt nh with
  | none => s.free pkt
  | some tun =>
    let pkt := pkt.withSrc tun.pktSrc
    let pktVrf := s.fmd.fmdDvrf
    let before := if nh.nhFamily = .bridge then beforeFlood env (head tun.pktSrc) pkt s
      else (some (0, true), s)
    match before with
    | (none, s) => s
    | (some flood, s) => mcastLoop env pkt nh (entryOf nh tun flood pktVrf s.fmd) s

/-- A packet comes to the tree: it is the only one there is. -/
def arrival (fmd : Fmd) : Run := ⟨fmd, 0, 1, []⟩

end Vrouter.Mcast
