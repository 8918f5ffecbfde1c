import Mathlib.Logic.Function.Basic
import Mathlib.Data.List.FinRange
import Mathlib.Algebra.BigOperators.Group.Finset.Basic
import Vrouter.Lib.Bits
import Vrouter.Lib.Outcome

/-! # Nexthops

A translation of the part of `vr_nexthop.c` that creates, changes and deletes nexthops.  A nexthop
is an object in memory that counts the references to it (`nh_users`): one for its slot in the table,
one for each component slot of a composite nexthop and for each indirect nexthop that points to it,
and those that other tables hold.  When the last reference is dropped, the nexthop drops its own
references and is freed, at once or by a deferred callback.

What a nexthop holds beside its common fields is a C union.  `NhU` has one constructor for each
member of the union and `blank` for the zeros of a new object; arrays that a nexthop allocates are
part of it.  The union is rewritten in place, so a read may find another member than it asks for.
That ends the computation with `misread`, as a read of freed memory ends it with `freed` and a
read beyond an array with `bounds`; `depth` ends a recursion that goes deeper than it was allowed.

The address of a nexthop is a number.  References of interfaces are counted in `vifRefs`.  What the
rest of the system answers during one request is in `Env`.  The fields of a tunnel that are not
always written (ports, transport label, MAC address), rewrite data and statistics are left out. -/

namespace Vrouter.Nh

open Vrouter.Lib Function

/-- The address of an interface. -/
abbrev VifPtr := ℕ

/-! ### Nexthops -/

/-- `enum nexthop_type` -/
inductive NhType
  | dead
  | rcv
  | encap
  | tunnel
  | resolve
  | discard
  | composite
  | vrfTranslate
  | l2Rcv
  deriving DecidableEq, Repr

/-- The type of a number below `NH_MAX`. -/
def nhTypeOf (n : ℕ) : Option NhType :=
  [.dead, .rcv, .encap, .tunnel, .resolve, .discard, .composite, .vrfTranslate, .l2Rcv][n]?

/-- `AF_INET`, `AF_BRIDGE`, `AF_INET6`, or another family. -/
inductive NhFamily
  | inet
  | bridge
  | inet6
  | other
  deriving DecidableEq, Repr

/-- `NH_FLAG_*`: those that the control path reads. -/
structure NhFlags where
  valid : Bool := false
  tunnelGre : Bool := false
  tunnelUdp : Bool := false
  mcast : Bool := false
  tunnelUdpMpls : Bool := false
  tunnelVxlan : Bool := false
  compositeFabric : Bool := false
  compositeEcmp : Bool := false
  compositeLuEcmp : Bool := false
  compositeEvpn : Bool := false
  compositeEncap : Bool := false
  compositeTor : Bool := false
  tunnelPbb : Bool := false
  indirect : Bool := false
  l3Vxlan : Bool := false
  tunnelUnderlayEcmp : Bool := false
  deriving DecidableEq, Repr

/-- The functions that `nh_reach_nh` points to. -/
inductive ReachNh
  | discard
  | l2Rcv
  | l3Rcv
  | resolve
  | vrfTranslate
  | encapL2
  | encapL3
  | encapL3Mcast
  | greTunnel
  | udpTunnel
  | mplsUdpTunnel
  | vxlanTunnel
  | pbbTunnel
  | compositeMcast
  | compositeEcmp
  | compositeFabric
  | compositeEvpn
  | compositeEncap
  | compositeTor
  deriving DecidableEq, Repr

/-- The functions that `nh_validate_src` points to. -/
inductive ValidateSrc
  | encap
  | greTunnel
  | mplsUdpTunnel
  | vxlanTunnel
  | pbbTunnel
  | compositeMcast
  | compositeEcmp
  deriving DecidableEq, Repr

/-- `struct vr_component_nh` -/
structure ComponentNh where
  cnhLabel : ℤ
  cnhEcmpIndex : ℤ
  cnh : Option ℕ
  deriving DecidableEq, Repr

/-- `nh_u.nh_composite`, with the arrays it points to; `none` is `NULL`. -/
structure Composite where
  cnt : ℕ := 0
  ecmpCnt : ℕ := 0
  ecmpConfigHash : ℕ := 0
  component : Option (List ComponentNh) := none
  ecmpActive : Option (List ComponentNh) := none
  deriving DecidableEq, Repr

/-- `nh_u`: the member last written.  An address of `nh_udp_tun6` is a pointer, `none` is `NULL`. -/
inductive NhU
  | blank
  | encap (encapLen encapFamily : ℕ)
  | greTun (tunSip tunDip tunEncapLen : ℕ)
  | udpTun (tunSip tunDip tunEncapLen : ℕ)
  | vxlanTun (tunSip tunDip tunEncapLen : ℕ)
  | pbbTun (tunPbbLabel : ℤ) (tunPbbMac : List Byte)
  | udpTun6 (tunSip6 tunDip6 : Option (List Byte))
  | composite (c : Composite)
  deriving DecidableEq, Repr

abbrev vrMaxPhyInf : ℕ := 3

instance maxPhyInf_neZero : NeZero vrMaxPhyInf := ⟨by decide⟩

/-- One interface for each physical one. -/
abbrev DevArr := Fin vrMaxPhyInf → Option VifPtr

/-- `struct vr_nexthop` -/
structure Nexthop where
  nhType : NhType := .dead
  nhFamily : NhFamily := .other
  nhDataSize : ℕ := 0
  nhFlags : NhFlags := {}
  nhId : ℕ := 0
  nhUsers : ℕ := 0
  nhU : NhU := .blank
  nhDirectNh : Option ℕ := none
  nhValidateSrc : Option ValidateSrc := none
  nhReachNh : ReachNh := .discard
  nhCryptDev : Option VifPtr := none
  nhDevArr : DevArr := fun _ => none
  nhEncapValid : Fin vrMaxPhyInf → Bool := fun _ => false

/-- `vr_nexthop_req`.  The lists `nhr_encap_oif_id` and `nhr_encap_valid` are what stands at their
addresses. -/
structure NhReq where
  nhrType : ℕ
  nhrFamily : NhFamily := .inet
  nhrFlags : NhFlags := {}
  nhrId : ℕ
  nhrNhList : List ℕ := []
  nhrLabelList : List ℤ := []
  nhrEncapSize : ℕ := 0
  nhrEncapLen : ℕ := 0
  nhrEncapFamily : ℕ := 0
  nhrEncapOifId : ℕ → ℕ := fun _ => 0
  nhrEncapValid : ℕ → Bool := fun _ => false
  nhrEncapCryptOifId : ℕ := 0
  nhrTunSip : ℕ := 0
  nhrTunDip : ℕ := 0
  nhrTunSip6 : Option (List Byte) := none
  nhrTunDip6 : Option (List Byte) := none
  nhrRwDstMac : List Byte := []
  nhrPbbMac : List Byte := []
  nhrEcmpConfigHash : ℕ := 0

/-! ### The state -/

/-- `vr_nexthops` and the memory behind it.  `deferred` are the nexthops that wait for
`vrouter_free_nexthop_cb`, `held` the references that other tables hold, and `allocs` what the next
allocations answer (they succeed beyond its end). -/
structure State where
  maxNexthops : ℕ
  table : ℕ → Option ℕ
  heap : ℕ → Option Nexthop
  next : ℕ
  deferred : List ℕ
  held : List ℕ
  vifRefs : VifPtr → ℤ
  allocs : List Bool
  notReady : Bool

/-- What the system answers during one request: the interface of an index, the outcomes of the
allocations, and the verdict of the offload hook. -/
structure Env where
  vif : ℕ → Option VifPtr := fun _ => none
  allocs : List Bool := []
  offloadOk : Bool := true

/-- How a computation ends without a result. -/
inductive Fault
  | freed
  | misread
  | bounds
  | depth
  deriving DecidableEq, Repr

abbrev Run (α : Type) := Except Fault α

/-- What a request answers. -/
inductive Ret
  | ok
  | einval
  | enomem
  | enodev
  | offload
  deriving DecidableEq, Repr

/-- The nexthop at an address. -/
def State.load (s : State) (p : ℕ) : Run Nexthop :=
  match s.heap p with
  | some o => .ok o
  | none => .error .freed

def State.store (s : State) (p : ℕ) (o : Nexthop) : State :=
  { s with heap := update s.heap p (some o) }

/-- `vr_malloc`, `vr_zalloc`, `vr_get_defer_data`: whether they succeed. -/
def State.alloc (s : State) : Bool × State :=
  (s.allocs.headD true, { s with allocs := s.allocs.tail })

/-- `vrouter_get_interface` on the counts of the interfaces. -/
def takeRef (refs : VifPtr → ℤ) : Option VifPtr → VifPtr → ℤ
  | none => refs
  | some v => update refs v (refs v + 1)

/-- `vrouter_put_interface`, for a pointer that may be `NULL`. -/
def dropRef (refs : VifPtr → ℤ) : Option VifPtr → VifPtr → ℤ
  | none => refs
  | some v => update refs v (refs v - 1)

def takeRefs (refs : VifPtr → ℤ) (vif : DevArr) : VifPtr → ℤ :=
  (List.finRange vrMaxPhyInf).foldl (fun refs i => takeRef refs (vif i)) refs

def dropRefs (refs : VifPtr → ℤ) (vif : DevArr) : VifPtr → ℤ :=
  (List.finRange vrMaxPhyInf).foldl (fun refs i => dropRef refs (vif i)) refs

/-! ### Reading the union -/

def NhU.asComposite : NhU → Run Composite
  | .blank => .ok {}
  | .composite c => .ok c
  | _ => .error .misread

def NhU.asUdpTun6 : NhU → Run (Option (List Byte) × Option (List Byte))
  | .blank => .ok (none, none)
  | .udpTun6 sip6 dip6 => .ok (sip6, dip6)
  | _ => .error .misread

/-- `nh_component_nh[i]` -/
def Composite.slot (c : Composite) (i : ℕ) : Run ComponentNh :=
  match (c.component.getD [])[i]? with
  | some cnh => .ok cnh
  | none => .error .bounds

/-- The reference in a slot is replaced by `NULL`. -/
def Composite.clearSlot (c : Composite) (i : ℕ) : Composite :=
  { c with component := c.component.map fun l => l.modify i fun x => { x with cnh := none } }

/-! ### References and their end -/

/-- The union as `vrouter_free_nexthop` reads it, to free what it points to. -/
def freeUnion (o : Nexthop) : Run Unit :=
  if o.nhType = .composite then do
    let _ ← o.nhU.asComposite
    pure ()
  else if o.nhType = .tunnel ∧ o.nhFlags.tunnelUdp ∧ o.nhFamily = .inet6 then do
    let _ ← o.nhU.asUdpTun6
    pure ()
  else pure ()

def vrouterFreeNexthop (s : State) (p : ℕ) : Run State := do
  let o ← s.load p
  let _ ← freeUnion o
  pure { s with heap := update s.heap p none, vifRefs := dropRefs s.vifRefs o.nhDevArr }

/-- The end of `vrouter_put_nexthop`: the nexthop is freed later, or at once when the module is not
ready or there is no memory for the callback. -/
def freeOrDefer (s : State) (p : ℕ) : Run State :=
  if s.notReady then vrouterFreeNexthop s p
  else
    let (ok, s) := s.alloc
    if ok then pure { s with deferred := p :: s.deferred } else vrouterFreeNexthop s p

/-- If indirect, the reference to the direct nexthop is dropped. -/
def putDirect (put : State → ℕ → Run State) (s : State) (p : ℕ) : Run State := do
  let o ← s.load p
  match o.nhFlags.indirect, o.nhDirectNh with
  | true, some cnh => put (s.store p { o with nhDirectNh := none }) cnh
  | _, _ => pure s

/-- One round of the loop over the components of a nexthop that is given up. -/
def putSlot (put : State → ℕ → Run State) (p : ℕ) (s : State) (i : ℕ) : Run State := do
  let o ← s.load p
  let c ← o.nhU.asComposite
  let x ← c.slot i
  match x.cnh with
  | some cnh => put (s.store p { o with nhU := .composite (c.clearSlot i) }) cnh
  | none => pure s

/-- If composite, the references to the components are dropped. -/
def putComponents (put : State → ℕ → Run State) (s : State) (p : ℕ) : Run State := do
  let o ← s.load p
  if o.nhType = .composite then
    let c ← o.nhU.asComposite
    (List.range c.cnt).foldlM (putSlot put p)
      (s.store p { o with nhU := .composite { c with cnt := 0 } })
  else pure s

/-- What `vrouter_put_nexthop` does with a nexthop that nothing refers to. -/
def giveUp (put : State → ℕ → Run State) (s : State) (p : ℕ) : Run State := do
  let s ← putDirect put s p
  let s ← putComponents put s p
  freeOrDefer s p

/-- `vrouter_put_nexthop`; a count of zero stays zero. -/
def vrouterPutNexthop : ℕ → State → ℕ → Run State
  | 0, _, _ => .error .depth
  | depth + 1, s, p => do
    let o ← s.load p
    let s := s.store p { o with nhUsers := o.nhUsers - 1 }
    if o.nhUsers - 1 = 0 then giveUp (vrouterPutNexthop depth) s p else pure s

/-- The references in the component array of a nexthop. -/
def Nexthop.slots (o : Nexthop) : List ℕ :=
  match o.nhU with
  | .composite c => (c.component.getD []).filterMap (·.cnh)
  | _ => []

/-- The references that a nexthop can drop. -/
def Nexthop.weight (o : Nexthop) : ℕ := o.nhDirectNh.toList.length + o.slots.length

/-- All references that nexthops can drop. -/
def State.total (s : State) : ℕ :=
  ∑ p ∈ Finset.range s.next, ((s.heap p).map Nexthop.weight).getD 0

/-- `vrouter_put_nexthop`, with a depth that no chain of dropped references exceeds. -/
def State.put (s : State) (p : ℕ) : Run State := vrouterPutNexthop (s.total + 1) s p

def vrouterGetNexthop (s : State) (index : ℕ) : Run (Option ℕ × State) :=
  if s.maxNexthops ≤ index then pure (none, s)
  else
    match s.table index with
    | none => pure (none, s)
    | some p => do
      let o ← s.load p
      pure (some p, s.store p { o with nhUsers := (o.nhUsers + 1) % 2 ^ 32 })

/-- `nh_del`, which `nh_destructor` points to. -/
def nhDel (s : State) (p : ℕ) : Run State := do
  let o ← s.load p
  if s.maxNexthops ≤ o.nhId then pure s
  else State.put { s with table := update s.table o.nhId none } p

/-! ### Composite nexthops -/

/-- `nh_composite_mcast_validate`: whether the members are of the kinds that the flags ask for. -/
def nhCompositeMcastValidate (members : List Nexthop) (req : NhReq) : Bool :=
  let f := req.nhrFlags
  let l3Seen := req.nhrFamily = .inet
  let l2Seen := req.nhrFamily = .bridge
  let fabric := members.all fun nh =>
    nh.nhType = .tunnel && !nh.nhFlags.tunnelUdp && (!f.compositeTor || nh.nhFlags.tunnelVxlan)
  let encap := members.all fun nh =>
    nh.nhType = .encap &&
      match nh.nhFamily with
      | .inet => !l2Seen && nh.nhFlags.mcast
      | .bridge => !l3Seen && !nh.nhFlags.mcast
      | _ => false
  let mcast := members.all fun nh =>
    nh.nhType = .composite && (nh.nhFlags.compositeFabric || nh.nhFlags.compositeEvpn ||
      nh.nhFlags.compositeTor || nh.nhFlags.compositeEncap)
  (!(f.compositeFabric || f.compositeEvpn || f.compositeTor) || (l3Seen || l2Seen) && fabric) &&
    (!f.compositeEncap || encap) &&
    (!f.mcast || (l3Seen || l2Seen) && mcast)

/-- The loop that takes the references of a new component array. -/
def takeComponents (ecmp : Bool) : ℕ → List (ℕ × ℤ) → State → Run (List ComponentNh × State)
  | _, [], s => pure ([], s)
  | i, (index, label) :: rest, s => do
    let (cnh, s) ← vrouterGetNexthop s index
    let (cs, s) ← takeComponents ecmp (i + 1) rest s
    pure (⟨label, if ecmp then i else -1, cnh⟩ :: cs, s)

/-- What `nh_composite_add` has at hand when it comes to the old components: the return value, the
new array and the array of those that exist. -/
structure Gathered where
  ret : Ret
  component : List ComponentNh
  ecmp : Option (List ComponentNh)

/-- The part of a component array that exists. -/
def activeOf (component : List ComponentNh) : List ComponentNh :=
  component.filter fun x => x.cnh.isSome

def gatherEcmp (s : State) (req : NhReq) (component : List ComponentNh) : Gathered × State :=
  if req.nhrFlags.compositeEcmp ∧ activeOf component ≠ [] then
    let (ok, s) := s.alloc
    if ok then (⟨.ok, component, some (activeOf component)⟩, s)
    else (⟨.enomem, component, none⟩, s)
  else (⟨.ok, component, none⟩, s)

def gatherComponents (s : State) (req : NhReq) : Run (Gathered × State) :=
  if req.nhrNhList.length ≠ req.nhrLabelList.length then pure (⟨.einval, [], none⟩, s)
  else if req.nhrNhList = [] then pure (⟨.ok, [], none⟩, s)
  else
    let (ok, s) := s.alloc
    if ok then do
      let (cs, s) ← takeComponents req.nhrFlags.compositeEcmp 0
        (req.nhrNhList.zip req.nhrLabelList) s
      if nhCompositeMcastValidate (cs.filterMap fun x => x.cnh.bind s.heap) req then
        pure (gatherEcmp s req cs)
      else pure (⟨.einval, cs, none⟩, s)
    else pure (⟨.enomem, [], none⟩, s)

/-- One round of the loop over the old components. -/
def dropSlot (p : ℕ) (s : State) (i : ℕ) : Run State := do
  let o ← s.load p
  let c ← o.nhU.asComposite
  if i < c.cnt then
    let x ← c.slot i
    match x.cnh with
    | some cnh => s.put cnh
    | none => pure s
  else pure s

/-- The component arrays after they were freed. -/
def Composite.emptied (c : Composite) : Composite :=
  { c with
    cnt := 0
    component := none
    ecmpCnt := if c.ecmpActive.isSome then 0 else c.ecmpCnt
    ecmpActive := none }

/-- The old components are deleted. -/
def dropComponents (s : State) (p : ℕ) : Run State := do
  let o ← s.load p
  let c ← o.nhU.asComposite
  if c.cnt ≠ 0 ∧ c.component.isSome then
    let s ← (List.range c.cnt).foldlM (dropSlot p) s
    let o ← s.load p
    let c ← o.nhU.asComposite
    pure (s.store p { o with nhU := .composite c.emptied })
  else pure s

/-- The new component arrays are put in. -/
def setComponents (s : State) (p : ℕ) (g : Gathered) : Run State := do
  let o ← s.load p
  let c ← o.nhU.asComposite
  if g.component = [] then pure s
  else pure (s.store p { o with nhU := .composite { c with
    component := some g.component
    ecmpActive := if g.ecmp.isSome then g.ecmp else c.ecmpActive
    cnt := g.component.length % 2 ^ 16 } })

/-- The flow key bit of one bit of the configured hash. -/
def flowKeyOf : ℕ → ℕ
  | 0x01 => 0x01
  | 0x02 => 0x02
  | 0x04 => 0x04
  | 0x08 => 0x08
  | 0x10 => 0x10
  | _ => 0

def nhEcmpStoreEcmpConfigHash (req : NhReq) : ℕ :=
  if req.nhrEcmpConfigHash = 0 then (0x1F <<< 8) &&& 0xFF00
  else
    let hash := req.nhrEcmpConfigHash &&& 0x1F
    let flowHash := (List.range 5).foldl (fun f i => f ||| flowKeyOf (hash &&& (1 <<< i))) 0
    hash ||| ((flowHash <<< 8) &&& 0xFF00)

/-- The size of the array of components that exist. -/
def Gathered.active (g : Gathered) (req : NhReq) : ℕ :=
  if req.nhrFlags.compositeEcmp then (activeOf g.component).length else 0

/-- The end of `nh_composite_add`, which also a failed request comes to. -/
def compositeExit (s : State) (p : ℕ) (req : NhReq) (g : Gathered) : Run State := do
  let o ← s.load p
  let f := req.nhrFlags
  if f.mcast then
    pure (s.store p { o with nhReachNh := .compositeMcast, nhValidateSrc := some .compositeMcast })
  else if f.compositeEcmp then
    let o := { o with nhReachNh := .compositeEcmp, nhValidateSrc := some .compositeEcmp }
    if g.ret = .ok then
      let c ← o.nhU.asComposite
      pure (s.store p { o with nhU := .composite { c with
        ecmpConfigHash := nhEcmpStoreEcmpConfigHash req
        ecmpCnt := g.active req % 2 ^ 16 } })
    else pure (s.store p o)
  else if f.compositeFabric then pure (s.store p { o with nhReachNh := .compositeFabric })
  else if f.compositeEvpn then pure (s.store p { o with nhReachNh := .compositeEvpn })
  else if f.compositeEncap then pure (s.store p { o with nhReachNh := .compositeEncap })
  else if f.compositeTor then pure (s.store p { o with nhReachNh := .compositeTor })
  else pure s

/-- The new components take the place of the old ones. -/
def replaceComponents (s : State) (p : ℕ) (g : Gathered) : Run State := do
  let o ← s.load p
  let s ← dropComponents (s.store p { o with nhValidateSrc := none }) p
  setComponents s p g

def nhCompositeAdd (s : State) (p : ℕ) (req : NhReq) : Run (Ret × State) := do
  let (g, s) ← gatherComponents s req
  if g.ret = .ok then
    let s ← replaceComponents s p g
    let s ← compositeExit s p req g
    pure (.ok, s)
  else
    let s ← compositeExit s p req g
    let s ← (g.component.filterMap (·.cnh)).foldlM State.put s
    pure (g.ret, s)

/-! ### Tunnels -/

def nhTunnelSetReachNh (o : Nexthop) : Nexthop :=
  let dev :=
    if o.nhFlags.tunnelUnderlayEcmp then (List.finRange vrMaxPhyInf).any o.nhEncapValid
    else (o.nhDevArr 0).isSome
  if o.nhFlags.tunnelGre then if dev then { o with nhReachNh := .greTunnel } else o
  else if o.nhFlags.tunnelUdp then { o with nhReachNh := .udpTunnel }
  else if o.nhFlags.tunnelUdpMpls then if dev then { o with nhReachNh := .mplsUdpTunnel } else o
  else if o.nhFlags.tunnelVxlan then if dev then { o with nhReachNh := .vxlanTunnel } else o
  else if o.nhFlags.tunnelPbb then { o with nhReachNh := .pbbTunnel }
  else o

/-- Where a branch of `nh_tunnel_add` goes on: behind the branches, at `exit_add`, at `exit_error`,
or out of the function. -/
inductive TunnelExit
  | done
  | exitAdd (ret : Ret)
  | exitError (ret : Ret)
  deriving DecidableEq, Repr

/-- The interfaces of a tunnel. -/
def tunnelVifs (env : Env) (req : NhReq) (o : Nexthop) : DevArr :=
  if o.nhFlags.tunnelUnderlayEcmp then
    fun i => if req.nhrEncapValid i then env.vif (req.nhrEncapOifId i) else none
  else fun i => if i = 0 then env.vif (req.nhrEncapOifId 0) else none

/-- The branch of a tunnel that goes over an interface: GRE, MPLS over UDP, VXLAN. -/
def deviceTunnel (u : ℕ → NhU) (validate : ValidateSrc) (req : NhReq) (vif : DevArr)
    (o : Nexthop) : TunnelExit × Nexthop :=
  if (List.finRange vrMaxPhyInf).any fun i => (vif i).isSome then
    if o.nhFlags.tunnelUnderlayEcmp then
      (.done, { o with
        nhU := u (req.nhrEncapLen % 2 ^ 16)
        nhValidateSrc := some validate
        nhDevArr := fun i => if o.nhEncapValid i then vif i else none })
    else
      (.done, { o with
        nhU := u (req.nhrEncapSize % 2 ^ 16)
        nhValidateSrc := some validate
        nhDevArr := update o.nhDevArr 0 (vif 0) })
  else (.exitAdd .enodev, o)

/-- The MAC address is six bytes and not zero. -/
def macGiven (mac : List Byte) : Bool := mac.length = 6 && mac.any (· ≠ 0)

def vxlanTunnel (req : NhReq) (vif : DevArr) (o : Nexthop) : TunnelExit × Nexthop :=
  match deviceTunnel (.vxlanTun req.nhrTunSip req.nhrTunDip) .vxlanTunnel req vif o with
  | (.done, o) =>
    if o.nhFlags.l3Vxlan && !macGiven req.nhrRwDstMac then (.exitAdd .einval, o) else (.done, o)
  | r => r

def pbbTunnel (req : NhReq) (o : Nexthop) : TunnelExit × Nexthop :=
  if o.nhFlags.indirect && macGiven req.nhrPbbMac then
    (.done, { o with
      nhU := .pbbTun (req.nhrLabelList.headD (-1)) req.nhrPbbMac
      nhValidateSrc := some .pbbTunnel })
  else (.exitAdd .einval, o)

/-- Memory for an address, unless it is there. -/
def addressMemory (s : State) (addr : Option (List Byte)) : Bool × State :=
  if addr.isSome then (true, s) else s.alloc

/-- The two addresses of an IPv6 tunnel are copied, to memory that is allocated when it is
missing. -/
def udpTunnel6 (s : State) (req : NhReq) (o : Nexthop) : Run ((TunnelExit × Nexthop) × State) := do
  let (sip6, dip6) ← o.nhU.asUdpTun6
  let (ok, s) := addressMemory s sip6
  if ok then
    let (ok, s) := addressMemory s dip6
    if ok then pure ((.done, { o with nhU := .udpTun6 req.nhrTunSip6 req.nhrTunDip6 }), s)
    else pure ((.exitError .enomem, { o with nhU := .udpTun6 req.nhrTunSip6 dip6 }), s)
  else pure ((.exitError .enomem, { o with nhU := .udpTun6 none dip6 }), s)

def udpTunnel (s : State) (req : NhReq) (o : Nexthop) : Run ((TunnelExit × Nexthop) × State) :=
  match req.nhrFamily with
  | .inet => pure ((.done, { o with
      nhU := .udpTun req.nhrTunSip req.nhrTunDip (req.nhrEncapSize % 2 ^ 16) }), s)
  | .inet6 => udpTunnel6 s req o
  | _ => pure ((.exitError .einval, o), s)

/-- The branches of `nh_tunnel_add`.  Those that do not keep the interfaces drop them. -/
def tunnelBranch (s : State) (req : NhReq) (vif : DevArr) (o : Nexthop) :
    Run ((TunnelExit × Nexthop) × State) :=
  if o.nhFlags.tunnelGre then
    pure (deviceTunnel (.greTun req.nhrTunSip req.nhrTunDip) .greTunnel req vif o, s)
  else if o.nhFlags.tunnelUdp then do
    let (r, s) ← udpTunnel s req o
    if r.1 = .done then pure (r, { s with vifRefs := dropRefs s.vifRefs vif }) else pure (r, s)
  else if o.nhFlags.tunnelUdpMpls then
    pure (deviceTunnel (.udpTun req.nhrTunSip req.nhrTunDip) .mplsUdpTunnel req vif o, s)
  else if o.nhFlags.tunnelVxlan then pure (vxlanTunnel req vif o, s)
  else if o.nhFlags.tunnelPbb then
    if (pbbTunnel req o).1 = .done then
      pure (pbbTunnel req o, { s with vifRefs := dropRefs s.vifRefs vif })
    else pure (pbbTunnel req o, s)
  else
    pure ((.exitError .einval, o),
      { s with vifRefs := dropRef (dropRefs s.vifRefs vif) o.nhCryptDev })

/-- The end of `nh_tunnel_add`. -/
def tunnelFinish (s : State) (p : ℕ) (old : DevArr) : TunnelExit × Nexthop → Ret × State
  | (.done, o) =>
    (.ok, State.store { s with vifRefs := dropRefs s.vifRefs old } p (nhTunnelSetReachNh o))
  | (.exitAdd ret, o) => (ret, s.store p (nhTunnelSetReachNh o))
  | (.exitError ret, o) => (ret, s.store p o)

/-- The addresses that the family asks for are there. -/
def tunnelAddressed (req : NhReq) : Bool :=
  match req.nhrFamily with
  | .inet6 => req.nhrTunSip6.isSome && req.nhrTunDip6.isSome
  | .inet => req.nhrTunSip ≠ 0 && req.nhrTunDip ≠ 0
  | _ => true

def nhTunnelAdd (s : State) (p : ℕ) (env : Env) (req : NhReq) : Run (Ret × State) := do
  let o ← s.load p
  if tunnelAddressed req then
    let vif := tunnelVifs env req o
    let crypt := env.vif req.nhrEncapCryptOifId
    let refs := dropRef (takeRef (takeRefs s.vifRefs vif) crypt) o.nhCryptDev
    let (r, s) ← tunnelBranch { s with vifRefs := refs } req vif { o with
      nhEncapValid :=
        if o.nhFlags.tunnelUnderlayEcmp then fun i => req.nhrEncapValid i else o.nhEncapValid
      nhCryptDev := crypt }
    pure (tunnelFinish s p o.nhDevArr r)
  else pure (.einval, s.store p (nhTunnelSetReachNh o))

/-! ### The other types -/

/-- The old direct nexthop makes room for the new one. -/
def replaceDirect (s : State) (p : ℕ) (direct : Option ℕ) : Run (Ret × State) := do
  let o ← s.load p
  let s := s.store p { o with nhDirectNh := direct }
  match o.nhDirectNh with
  | some old => do
    let s ← s.put old
    pure (.ok, s)
  | none => pure (.ok, s)

def nhIndirectAdd (s : State) (p : ℕ) (req : NhReq) : Run (Ret × State) := do
  let o ← s.load p
  if o.nhType ≠ .tunnel ∨ ¬ o.nhFlags.tunnelPbb then pure (.einval, s)
  else
    match req.nhrNhList with
    | [] => replaceDirect s p none
    | [index] => do
      let (direct, s) ← vrouterGetNexthop s index
      if direct.isSome then replaceDirect s p direct else pure (.einval, s)
    | _ => pure (.einval, s)

/-- What `nh_encap_add` asks of a request before it looks at the interface. -/
def encapAccepted (req : NhReq) : Bool :=
  match req.nhrFamily with
  | .inet => req.nhrFlags.mcast || 6 ≤ req.nhrEncapSize
  | .bridge => !req.nhrFlags.mcast
  | _ => false

/-- The end of `nh_encap_add`. -/
def encapExit (req : NhReq) (o : Nexthop) : Nexthop :=
  if (o.nhDevArr 0).isSome then
    { o with
      nhValidateSrc := some .encap
      nhReachNh :=
        if req.nhrFamily = .bridge then .encapL2
        else if o.nhFlags.mcast then .encapL3Mcast
        else .encapL3 }
  else o

def nhEncapAdd (s : State) (p : ℕ) (env : Env) (req : NhReq) : Run (Ret × State) := do
  let o ← s.load p
  if encapAccepted req then
    match env.vif (req.nhrEncapOifId 0) with
    | some v =>
      let refs := dropRef (takeRef s.vifRefs (some v)) (o.nhDevArr 0)
      pure (.ok, State.store { s with vifRefs := refs } p (encapExit req { o with
        nhU := .encap (req.nhrEncapSize % 2 ^ 16) (req.nhrEncapFamily % 2 ^ 16)
        nhDevArr := update o.nhDevArr 0 (some v) }))
    | none => pure (.einval, s.store p (encapExit req o))
  else pure (.einval, s.store p (encapExit req o))

def nhRcvAdd (s : State) (p : ℕ) (env : Env) (req : NhReq) : Run (Ret × State) := do
  let o ← s.load p
  match env.vif (req.nhrEncapOifId 0) with
  | some v =>
    let refs := dropRef (takeRef s.vifRefs (some v)) (o.nhDevArr 0)
    pure (.ok, State.store { s with vifRefs := refs } p
      { o with nhDevArr := update o.nhDevArr 0 (some v), nhReachNh := .l3Rcv })
  | none =>
    pure (.enodev, s.store p
      { o with nhReachNh := if (o.nhDevArr 0).isSome then .l3Rcv else o.nhReachNh })

/-- `nh_l2_rcv_add`, `nh_resolve_add`, `nh_vrf_translate_add`: only the function is set. -/
def plainAdd (reach : ReachNh) (s : State) (p : ℕ) : Run (Ret × State) := do
  let o ← s.load p
  pure (.ok, s.store p { o with nhReachNh := reach })

def nhDiscardAdd (s : State) (p : ℕ) (req : NhReq) : Run (Ret × State) := do
  let o ← s.load p
  pure (.ok, s.store p
    { o with nhFamily := req.nhrFamily, nhType := .discard, nhReachNh := .discard })

/-! ### Requests -/

/-- The switch over the type. -/
def typeAdd (s : State) (p : ℕ) (env : Env) (req : NhReq) : NhType → Run (Ret × State)
  | .encap => nhEncapAdd s p env req
  | .tunnel => nhTunnelAdd s p env req
  | .rcv => nhRcvAdd s p env req
  | .l2Rcv => plainAdd .l2Rcv s p
  | .resolve => plainAdd .resolve s p
  | .discard => nhDiscardAdd s p req
  | .composite => nhCompositeAdd s p req
  | .vrfTranslate => plainAdd .vrfTranslate s p
  | .dead => pure (.einval, s)

def indirectAdd (s : State) (p : ℕ) (req : NhReq) : Run (Ret × State) :=
  if req.nhrFlags.indirect then nhIndirectAdd s p req else pure (.ok, s)

/-- What a request with `NH_FLAG_VALID` builds. -/
def buildNexthop (s : State) (p : ℕ) (env : Env) (req : NhReq) (t : NhType) :
    Run (Ret × State) := do
  let (ret, s) ← indirectAdd s p req
  if ret = .ok then typeAdd s p env req t else pure (ret, s)

def vrNexthopValidChange (req : NhReq) (t : NhType) (o : Nexthop) : Bool :=
  !req.nhrFlags.valid || (t = o.nhType &&
    (req.nhrEncapSize = 0 || req.nhrEncapSize = o.nhDataSize) &&
    req.nhrFlags.indirect = o.nhFlags.indirect)

/-- `vr_nexthop_size` without the size of the structure itself. -/
def vrNexthopSize (req : NhReq) (t : NhType) : ℕ :=
  match t with
  | .encap | .tunnel => req.nhrEncapSize % 2 ^ 16
  | _ => 0

/-- The fields that every request writes.  A nexthop that becomes valid is so only when it is
complete. -/
def requested (req : NhReq) (t : NhType) (becomesValid : Bool) (o : Nexthop) : Nexthop :=
  { o with
    nhReachNh := .discard
    nhType := t
    nhFamily := req.nhrFamily
    nhId := req.nhrId
    nhDirectNh := none
    nhFlags :=
      if becomesValid then { req.nhrFlags with valid := false } else req.nhrFlags }

def vrouterAddNexthop (s : State) (p : ℕ) : Run (Ret × State) := do
  let o ← s.load p
  if s.maxNexthops ≤ o.nhId then pure (.einval, s)
  else
    match s.table o.nhId with
    | some _ => pure (.ok, s)
    | none => pure (.ok, State.store { s with table := update s.table o.nhId (some p) } p
        { o with nhUsers := (o.nhUsers + 1) % 2 ^ 32 })

def makeValid (s : State) (p : ℕ) (becomesValid : Bool) : Run State := do
  let o ← s.load p
  if becomesValid then pure (s.store p { o with nhFlags := { o.nhFlags with valid := true } })
  else pure s

/-- The end of `vr_nexthop_add` for a nexthop that was built. -/
def publish (s : State) (p : ℕ) (env : Env) (becomesValid : Bool) : Run (Ret × State) := do
  let s ← makeValid s p becomesValid
  let (ret, s) ← vrouterAddNexthop s p
  if ret = .ok ∧ env.offloadOk then pure (.ok, s)
  else
    let s ← nhDel s p
    pure (if ret = .ok then .offload else ret, s)

def buildIfValid (s : State) (p : ℕ) (env : Env) (req : NhReq) (t : NhType) :
    Run (Ret × State) :=
  if req.nhrFlags.valid then buildNexthop s p env req t else pure (.ok, s)

/-- `vr_nexthop_add` from the point on where it has a nexthop. -/
def cookNexthop (s : State) (p : ℕ) (env : Env) (req : NhReq) (t : NhType)
    (change becomesValid : Bool) : Run (Ret × State) := do
  let o ← s.load p
  let (ret, s) ← buildIfValid (s.store p (requested req t becomesValid o)) p env req t
  if ret = .ok then publish s p env becomesValid
  else if change then pure (ret, s)
  else
    let s ← nhDel s p
    pure (ret, s)

/-- A request for an index that is not in use. -/
def addNexthop (s : State) (env : Env) (req : NhReq) (t : NhType) : Run (Ret × State) :=
  let (ok, s) := s.alloc
  if ok then
    cookNexthop (State.store { s with next := s.next + 1 } s.next
      { nhDataSize := vrNexthopSize req t }) s.next env req t false false
  else pure (.enomem, s)

/-- A request for a nexthop that is there. -/
def changeNexthop (s : State) (p : ℕ) (env : Env) (req : NhReq) (t : NhType) :
    Run (Ret × State) := do
  let o ← s.load p
  if vrNexthopValidChange req t o then
    cookNexthop s p env req t true (req.nhrFlags.valid && !o.nhFlags.valid)
  else pure (.einval, s)

def vrNexthopAdd (s : State) (env : Env) (req : NhReq) : Run (Ret × State) :=
  match nhTypeOf req.nhrType with
  | none => pure (.einval, s)
  | some t =>
    if s.maxNexthops ≤ req.nhrId then pure (.einval, s)
    else
      match s.table req.nhrId with
      | none => addNexthop { s with allocs := env.allocs } env req t
      | some p => changeNexthop { s with allocs := env.allocs } p env req t

def vrNexthopDelete (s : State) (env : Env) (id : ℕ) : Run (Ret × State) := do
  let (nh, s) ← vrouterGetNexthop { s with allocs := env.allocs } id
  match nh with
  | none => pure (.einval, s)
  | some p => do
    let s ← s.put p
    let s ← nhDel s p
    pure (.ok, s)

/-! ### Runs -/

/-- What happens to the nexthops: requests of the agent, references that other tables take and
drop, and the deferred callback. -/
inductive Event
  | add (env : Env) (req : NhReq)
  | delete (env : Env) (id : ℕ)
  | hold (id : ℕ)
  | drop (env : Env) (p : ℕ)
  | callback (p : ℕ)

/-- One event; only a reference that is held can be dropped, and only a callback that waits
comes. -/
def step (s : State) : Event → Run State
  | .add env req => do
    let (_, s) ← vrNexthopAdd s env req
    pure s
  | .delete env id => do
    let (_, s) ← vrNexthopDelete s env id
    pure s
  | .hold id => do
    let (nh, s) ← vrouterGetNexthop s id
    pure { s with held := nh.toList ++ s.held }
  | .drop env p =>
    if p ∈ s.held then State.put { s with held := s.held.erase p, allocs := env.allocs } p
    else pure s
  | .callback p =>
    if p ∈ s.deferred then
      vrouterFreeNexthop { s with deferred := s.deferred.erase p } p
    else pure s

/-- `nh_table_init`: the discard nexthop is there. -/
def State.init (maxNexthops : ℕ) (notReady : Bool) : State where
  maxNexthops := maxNexthops
  table := update (fun _ => none) 0 (some 0)
  heap := update (fun _ => none) 0 (some
    { nhType := .discard, nhFamily := .inet, nhFlags := { valid := true }, nhUsers := 1 })
  next := 1
  deferred := []
  held := []
  vifRefs := fun _ => 0
  allocs := []
  notReady := notReady

end Vrouter.Nh
