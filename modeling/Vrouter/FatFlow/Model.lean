import Vrouter.Mtrie.Model
import Vrouter.Itable.Model
import Vrouter.Packet.Headers
import Mathlib.Data.BitVec

/-! # Fat flows of an interface

A translation of the fat-flow part of `vr_interface.c`.  An interface may be told to leave ports or
addresses out of the keys of its flows.  A *port rule* names a protocol and a port; a *prefix rule*
also names a prefix of the source address, of the destination address or of both, and the length to
which those addresses are cut.  Port rules are kept in bitmaps of two bits for each port; prefix
rules in tries, whose data lead to an index table of ports for each protocol.

An address is the string of its bytes in memory.  The trie of a prefix rule holds the address of a
`vr_fat_flow_prefix_rule_data_t`: `.vdata 0` stands for `dummy_rule` and `.vdata (k + 1)` for the
`k`-th structure that was allocated.  Data of one port is not shared, so the index table holds it
by value.  Every allocation succeeds; the deferred freeing of old rules is left out.  A shift by
more than the width of its operand takes its count modulo the width, as the processor does.  `none`
is the result where the code dereferences a pointer that is not valid. -/

namespace Vrouter.FatFlow

open Vrouter.Lib Vrouter.Mtrie Vrouter.Itable Vrouter.Packet

/-! ### Protocols, masks and addresses -/

/-- `VIF_FAT_FLOW_*_INDEX` -/
inductive ProtoIndex
  | noproto
  | tcp
  | udp
  | sctp
  deriving DecidableEq, Repr

def vifFatFlowGetProtoIndex (proto : ℕ) : ProtoIndex :=
  if proto = vrIpProtoTcp then .tcp
  else if proto = vrIpProtoUdp then .udp
  else if proto = vrIpProtoSctp then .sctp
  else .noproto

/-- `VR_FAT_FLOW_*_MASK`: the parts of a key that are left out. -/
structure FatFlowMask where
  srcPort : Bool
  dstPort : Bool
  srcIp : Bool
  dstIp : Bool
  deriving DecidableEq, Repr

/-- `VR_FAT_FLOW_NO_MASK` -/
def noMask : FatFlowMask := ⟨false, false, false, false⟩

/-- `FAT_FLOW_IPV4_PLEN_TO_MASK`, in memory. -/
def ipv4PlenToMask (plen : ℕ) : List Byte :=
  let mask := (0xFFFFFFFF <<< ((32 - (plen : ℤ)) % 32).toNat) % 2 ^ 32
  [24, 16, 8, 0].map fun s => Fin.ofNat 256 (mask >>> s)

/-- One half of an IPv6 mask, in memory. -/
def half (mask : ℕ) : List Byte :=
  [56, 48, 40, 32, 24, 16, 8, 0].map fun s => Fin.ofNat 256 (mask >>> s)

/-- `fat_flow_ipv6_plen_to_mask`: the high and the low half of the mask. -/
def fatFlowIpv6PlenToMask (plen : ℕ) : List Byte :=
  if plen > 64 then
    half 0xFFFFFFFFFFFFFFFF ++
      half ((0xFFFFFFFFFFFFFFFF <<< ((128 - (plen : ℤ)) % 64).toNat) % 2 ^ 64)
  else
    half ((0xFFFFFFFFFFFFFFFF <<< ((64 - (plen : ℤ)) % 64).toNat) % 2 ^ 64) ++ half 0

/-- The mask of a length, by family. -/
def plenToMask : Family → ℕ → List Byte
  | .inet6 => fatFlowIpv6PlenToMask
  | _ => ipv4PlenToMask

/-- An address and a mask. -/
def andBytes (a m : List Byte) : List Byte := List.zipWith (· &&& ·) a m

/-! ### Rules -/

/-- `vr_fat_flow_prefix_aggr_t`; `other` is any value beyond the enumeration. -/
inductive PrefixAggr
  | aggregateNone
  | dstIpv6
  | srcIpv6
  | srcDstIpv6
  | dstIpv4
  | srcIpv4
  | srcDstIpv4
  | other
  deriving DecidableEq, Repr

def prefixAggrOf : ℕ → PrefixAggr
  | 0 => .aggregateNone
  | 1 => .dstIpv6
  | 2 => .srcIpv6
  | 3 => .srcDstIpv6
  | 4 => .dstIpv4
  | 5 => .srcIpv4
  | 6 => .srcDstIpv4
  | _ => .other

def vifFatFlowPortSipIgnore : ℕ := 1
def vifFatFlowPortDipIgnore : ℕ := 2
def vifFatFlowPortSet : ℕ := 3

/-- `vr_fat_flow_cfg_t`, with the two parts of `port_aggr_info`. -/
structure FatFlowCfg where
  protocol : ℕ
  port : ℕ
  portData : ℕ
  prefixAggr : PrefixAggr
  srcPrefixH : List Byte
  srcPrefixL : List Byte
  srcPrefixMask : ℕ
  srcAggregatePlen : ℕ
  dstPrefixH : List Byte
  dstPrefixL : List Byte
  dstPrefixMask : ℕ
  dstAggregatePlen : ℕ
  deriving DecidableEq, Repr

/-- `__vif_is_fat_flow_src_prefix_rule` -/
def FatFlowCfg.isSrcPrefixRule (cfg : FatFlowCfg) : Bool :=
  cfg.prefixAggr = .srcIpv4 || cfg.prefixAggr = .srcIpv6

/-- `__vif_is_fat_flow_dst_prefix_rule` -/
def FatFlowCfg.isDstPrefixRule (cfg : FatFlowCfg) : Bool :=
  cfg.prefixAggr = .dstIpv4 || cfg.prefixAggr = .dstIpv6

/-- `__vif_is_fat_flow_src_dst_prefix_rule` -/
def FatFlowCfg.isSrcDstPrefixRule (cfg : FatFlowCfg) : Bool :=
  cfg.prefixAggr = .srcDstIpv4 || cfg.prefixAggr = .srcDstIpv6

/-- `__vif_is_fat_flow_v4_prefix_rule` -/
def FatFlowCfg.isV4PrefixRule (cfg : FatFlowCfg) : Bool :=
  cfg.prefixAggr = .srcIpv4 || cfg.prefixAggr = .dstIpv4 || cfg.prefixAggr = .srcDstIpv4

/-- The family that a prefix rule is for. -/
def FatFlowCfg.family (cfg : FatFlowCfg) : Family := if cfg.isV4PrefixRule then .inet else .inet6

/-- The bytes of the source prefix: four of the low half, or both halves. -/
def FatFlowCfg.srcPrefix (cfg : FatFlowCfg) : List Byte :=
  if cfg.isV4PrefixRule then cfg.srcPrefixL.take 4 else cfg.srcPrefixH ++ cfg.srcPrefixL

/-- The bytes of the destination prefix. -/
def FatFlowCfg.dstPrefix (cfg : FatFlowCfg) : List Byte :=
  if cfg.isV4PrefixRule then cfg.dstPrefixL.take 4 else cfg.dstPrefixH ++ cfg.dstPrefixL

/-- `vr_fat_flow_prefix_rule_port_data_t`, with the bits of `rule_type`. -/
structure PortData where
  singlePrefix : Bool
  dualPrefix : Bool
  hasIgnoreDst : Bool
  hasIgnoreSrc : Bool
  aggrPlen : ℕ
  secondPrefix : Option Entry

/-- `vr_fat_flow_prefix_rule_data_t`: the table of ports of each protocol. -/
structure RuleData where
  proto : ProtoIndex → Option (VrItbl PortData)

/-- The tries of a family: rules that name a source prefix, and those that do not. -/
inductive Side
  | src
  | dst
  deriving DecidableEq, Repr

/-- The rules of an interface.  `noPrefixRules` are rows of bytes; `prefixRules .inet .src` is
`vif_fat_flow_v4_src_prefix_rules`, and so on. -/
structure FatFlowRules where
  noPrefixRules : ProtoIndex → Option (ℕ → Option (ℕ → BitVec 8))
  prefixRules : Family → Side → Option Entry
  ruleData : List RuleData

def noRules : FatFlowRules := ⟨fun _ => none, fun _ _ => none, []⟩

/-- The fat-flow fields of `struct vr_interface`. -/
structure VifFatFlow where
  ipv4ExcludeList : List (List Byte × ℕ)
  ipv6ExcludeList : List (List Byte × ℕ)
  fatFlowCfg : List FatFlowCfg
  fatFlowNumRules : ProtoIndex → ℕ
  rules : FatFlowRules

/-! ### Building the rules -/

def vifFatFlowPortsPerBitmap : ℕ := 1024 / 2

def vifFatFlowAddNoPrefixRule (rules : ProtoIndex → Option (ℕ → Option (ℕ → BitVec 8)))
    (proto port portData : ℕ) : ProtoIndex → Option (ℕ → Option (ℕ → BitVec 8)) :=
  let protoIndex := vifFatFlowGetProtoIndex proto
  let row := port / vifFatFlowPortsPerBitmap
  let word := ((port % vifFatFlowPortsPerBitmap) * 2) / 8
  let bit := ((port % vifFatFlowPortsPerBitmap) * 2) % 8
  let rows := (rules protoIndex).getD fun _ => none
  let bytes := (rows row).getD fun _ => 0
  let portVal :=
    if portData = vifFatFlowPortSipIgnore ∨ portData = vifFatFlowPortDipIgnore then portData
    else vifFatFlowPortSet
  let byte := (bytes word &&& ~~~(3#8 <<< bit)) ||| (BitVec.ofNat 8 portVal <<< bit)
  Function.update rules protoIndex
    (some (Function.update rows row (some (Function.update bytes word byte))))

/-- A request to a trie of rules. -/
def ruleReq (fam : Family) (pfx : List Byte) (plen : ℕ) (nh : VoidPtr) : RouteReq :=
  ⟨0, fam, pfx, plen, 0, 0, 0, [], 0, 0, nh⟩

/-- The address of `dummy_rule`. -/
def dummyRule : VoidPtr := .vdata 0

/-- The address of `dummy_plen`, which is not a length. -/
def dummyPlen : VoidPtr := .vdata 256

/-- An aggregate length as a pointer. -/
def plenPtr (plen : ℕ) : VoidPtr := if plen = 0 then .null else .vdata plen

def zeroPortData : PortData := ⟨false, false, false, false, 0, none⟩

/-- What `__vif_fat_flow_alloc_prefix_rule_data` and `__vif_fat_flow_update_prefix_rule_data` write
to the data of a port. -/
def setPortData (env : Env) (d : PortData) (cfg : FatFlowCfg) : PortData where
  singlePrefix := d.singlePrefix || !cfg.isSrcDstPrefixRule
  dualPrefix := d.dualPrefix || cfg.isSrcDstPrefixRule
  hasIgnoreSrc := d.hasIgnoreSrc ||
    (!cfg.isSrcDstPrefixRule && cfg.portData = vifFatFlowPortSipIgnore)
  hasIgnoreDst := d.hasIgnoreDst ||
    (!cfg.isSrcDstPrefixRule && cfg.portData = vifFatFlowPortDipIgnore)
  aggrPlen := if cfg.isDstPrefixRule then cfg.dstAggregatePlen else cfg.srcAggregatePlen
  secondPrefix :=
    if cfg.isSrcDstPrefixRule then
      some (vdataMtrieAdd env (d.secondPrefix.getD (vdataMtrieInit 0 dummyPlen))
        (ruleReq cfg.family cfg.dstPrefix cfg.dstPrefixMask (plenPtr cfg.dstAggregatePlen)))
    else d.secondPrefix

def vifFatFlowUpdatePrefixRuleData (env : Env) (rdata : RuleData) (cfg : FatFlowCfg) :
    Option RuleData :=
  let protoIndex := vifFatFlowGetProtoIndex cfg.protocol
  match (rdata.proto protoIndex).orElse fun _ => vrItableCreate .kernel 16 [8, 8] with
  | none => none
  | some ptable =>
    let d := (vrItableGet ptable cfg.port).getD zeroPortData
    some ⟨Function.update rdata.proto protoIndex
      (some (vrItableSet ptable cfg.port (some (setPortData env d cfg)) []).2)⟩

/-- `__vif_fat_flow_alloc_prefix_rule_data`: a structure of zeroes takes the rule as the update of
an existing one does. -/
def vifFatFlowAllocPrefixRuleData (env : Env) (cfg : FatFlowCfg) : Option RuleData :=
  vifFatFlowUpdatePrefixRuleData env ⟨fun _ => none⟩ cfg

/-- The prefix under which a rule is filed. -/
def FatFlowCfg.firstPrefix (cfg : FatFlowCfg) : List Byte × ℕ :=
  if cfg.isSrcPrefixRule || cfg.isSrcDstPrefixRule then (cfg.srcPrefix, cfg.srcPrefixMask)
  else (cfg.dstPrefix, cfg.dstPrefixMask)

/-- `__vif_fat_flow_add_prefix_rule`.  The field `rtr_nh` of the lookup is not initialised: it holds
what is on the stack. -/
def vifFatFlowAddPrefixRule (env : Env) (rules : Entry) (cfg : FatFlowCfg) (ruleData : List RuleData)
    (stack : VoidPtr) : Option (Entry × List RuleData) :=
  let req := ruleReq cfg.family cfg.firstPrefix.1 cfg.firstPrefix.2 stack
  match vdataMtrieLookup (some rules) req with
  | none => none
  | some (req', rdata) =>
    if rdata = .null ∨ cfg.firstPrefix.2 ≠ req'.rtrPrefixLen then
      (vifFatFlowAllocPrefixRuleData env cfg).map fun r =>
        (vdataMtrieAdd env rules { req with rtrNh := .vdata (ruleData.length + 1) },
          ruleData ++ [r])
    else
      match rdata with
      | .vdata (k + 1) =>
        match ruleData[k]? with
        | none => none
        | some r =>
          (vifFatFlowUpdatePrefixRuleData env r cfg).map fun r' => (rules, ruleData.set k r')
      | _ => none

/-- The trie that a kind of rules goes to. -/
def PrefixAggr.trie : PrefixAggr → Option (Family × Side)
  | .srcIpv4 | .srcDstIpv4 => some (.inet, .src)
  | .srcIpv6 | .srcDstIpv6 => some (.inet6, .src)
  | .dstIpv4 => some (.inet, .dst)
  | .dstIpv6 => some (.inet6, .dst)
  | .aggregateNone | .other => none

/-- The body of the loop of `vif_fat_flow_rules_build`. -/
def vifFatFlowRulesAdd (env : Env) (rules : FatFlowRules) (cfg : FatFlowCfg) (stack : VoidPtr) :
    Option FatFlowRules :=
  match cfg.prefixAggr.trie with
  | none =>
    if cfg.prefixAggr = .aggregateNone then
      let port :=
        if vifFatFlowGetProtoIndex cfg.protocol = .noproto then cfg.protocol else cfg.port
      some { rules with
        noPrefixRules :=
          vifFatFlowAddNoPrefixRule rules.noPrefixRules cfg.protocol port cfg.portData }
    else some rules
  | some (fam, side) =>
    let trie := (rules.prefixRules fam side).getD (vdataMtrieInit 0 dummyRule)
    (vifFatFlowAddPrefixRule env trie cfg rules.ruleData stack).map fun p =>
      { rules with
        prefixRules :=
          Function.update rules.prefixRules fam
            (Function.update (rules.prefixRules fam) side (some p.1))
        ruleData := p.2 }

/-- `vif_fat_flow_rules_build`; `stack` is what the stack holds when a rule is added. -/
def vifFatFlowRulesBuild (env : Env) :
    List (FatFlowCfg × VoidPtr) → FatFlowRules → Option FatFlowRules
  | [], rules => some rules
  | (cfg, stack) :: cfgs, rules =>
    (vifFatFlowRulesAdd env rules cfg stack).bind (vifFatFlowRulesBuild env cfgs)

/-! ### Requests -/

/-- One rule of a request: `vifr_fat_flow_protocol_port` and the lists beside it. -/
structure FatFlowItem where
  protocolPort : ℕ
  srcPrefixH : List Byte
  srcPrefixL : List Byte
  srcPrefixMask : ℕ
  srcAggregatePlen : ℕ
  dstPrefixH : List Byte
  dstPrefixL : List Byte
  dstPrefixMask : ℕ
  dstAggregatePlen : ℕ
  deriving DecidableEq, Repr

/-- The fat-flow fields of `vr_interface_req`. -/
structure FatFlowReq where
  items : List FatFlowItem
  excludeIpList : List (List Byte × ℕ)
  excludeIp6LList : List (List Byte)
  excludeIp6UList : List (List Byte)
  excludeIp6PlenList : List ℕ

/-- One rule as `vif_fat_flow_cfg_build` stores it. -/
def FatFlowItem.cfg (r : FatFlowItem) : FatFlowCfg where
  protocol := r.protocolPort >>> 16 % 2 ^ 8
  port := r.protocolPort % 2 ^ 16
  portData := r.protocolPort >>> 24 % 2 ^ 4
  prefixAggr := prefixAggrOf (r.protocolPort >>> 28 % 2 ^ 4)
  srcPrefixH := r.srcPrefixH
  srcPrefixL := r.srcPrefixL
  srcPrefixMask := r.srcPrefixMask % 2 ^ 8
  srcAggregatePlen := r.srcAggregatePlen % 2 ^ 8
  dstPrefixH := r.dstPrefixH
  dstPrefixL := r.dstPrefixL
  dstPrefixMask := r.dstPrefixMask % 2 ^ 8
  dstAggregatePlen := r.dstAggregatePlen % 2 ^ 8

/-- `new_fat_flow_num_rules` -/
def fatFlowNumRules (cfg : List FatFlowCfg) (p : ProtoIndex) : ℕ :=
  (cfg.filter fun c => vifFatFlowGetProtoIndex c.protocol = p).length % 2 ^ 16

def fatFlowExcludeListMaxSize : ℕ := 3

/-- The exclude lists of a request; `none` when it is rejected. -/
def excludeLists (req : FatFlowReq) : Option (List (List Byte × ℕ) × List (List Byte × ℕ)) :=
  if req.excludeIpList.length > fatFlowExcludeListMaxSize then none
  else
    let v4 := req.excludeIpList.map fun e => (andBytes e.1 (ipv4PlenToMask e.2), e.2 % 2 ^ 8)
    if req.excludeIp6LList.length = 0 then some (v4, [])
    else if req.excludeIp6LList.length ≠ req.excludeIp6UList.length ∨
        req.excludeIp6LList.length ≠ req.excludeIp6PlenList.length ∨
        req.excludeIp6LList.length > fatFlowExcludeListMaxSize then none
    else
      let v6 := ((req.excludeIp6UList.zip req.excludeIp6LList).zip req.excludeIp6PlenList).map
        fun e => (andBytes (e.1.1 ++ e.1.2) (fatFlowIpv6PlenToMask e.2), e.2 % 2 ^ 8)
      some (v4, v6)

/-- `vif_fat_flow_add`.  When the request is rejected for its second exclude list, the first one is
already in place; with it rejected, nothing else is looked at. -/
def vifFatFlowAdd (env : Env) (vif : VifFatFlow) (req : FatFlowReq) (stack : ℕ → VoidPtr) :
    Option (ℤ × VifFatFlow) :=
  match excludeLists req with
  | none =>
    let v4 := req.excludeIpList.map fun e => (andBytes e.1 (ipv4PlenToMask e.2), e.2 % 2 ^ 8)
    some (-einval, if req.excludeIpList.length > fatFlowExcludeListMaxSize then vif
      else { vif with ipv4ExcludeList := v4 })
  | some (v4, v6) =>
    let vif := { vif with ipv4ExcludeList := v4, ipv6ExcludeList := v6 }
    let cfg := req.items.map FatFlowItem.cfg
    -- vif_fat_flow_cfg_is_changed
    if vif.fatFlowCfg = cfg then some (0, vif)
    else
      (vifFatFlowRulesBuild env (cfg.zipIdx.map fun c => (c.1, stack c.2)) noRules).map fun rules =>
        (0, { vif with
          fatFlowCfg := cfg
          fatFlowNumRules := fatFlowNumRules cfg
          rules := rules })

/-! ### Looking up -/

def vifFatFlowPortGet (rules : FatFlowRules) (protoIndex : ProtoIndex) (port : ℕ) : ℕ :=
  match rules.noPrefixRules protoIndex with
  | none => 0
  | some rows =>
    match rows (port / vifFatFlowPortsPerBitmap) with
    | none => 0
    | some bytes =>
      let byte := ((port % vifFatFlowPortsPerBitmap) * 2) / 8
      let bit := ((port % vifFatFlowPortsPerBitmap) * 2) % 8
      ((bytes byte >>> bit) &&& 3#8).toNat

def vifFatFlowExcludeListLookup (vif : VifFatFlow) (fam : Family) (src dst : List Byte) : Bool :=
  match fam with
  | .inet6 => vif.ipv6ExcludeList.any fun e =>
    decide (andBytes src (fatFlowIpv6PlenToMask e.2) = e.1) ||
      decide (andBytes dst (fatFlowIpv6PlenToMask e.2) = e.1)
  | _ => vif.ipv4ExcludeList.any fun e =>
    decide (andBytes src (ipv4PlenToMask e.2) = e.1) ||
      decide (andBytes dst (ipv4PlenToMask e.2) = e.1)

/-- A lookup of a whole address: the length found and the pointer. -/
def addrLookup (mtrie : Option Entry) (fam : Family) (addr : List Byte) (nh : VoidPtr) :
    Option (ℕ × VoidPtr) :=
  (vdataMtrieLookup mtrie (ruleReq fam addr (8 * rtIpAddrSize fam) nh)).map fun p =>
    (p.1.rtrPrefixLen, p.2)

/-- `__vif_fat_flow_ip_prefix_lookup`: the aggregate length found. -/
def vifFatFlowIpPrefixLookup (mtrie : Option Entry) (fam : Family) (ip : List Byte) :
    Option (Option ℕ) :=
  match mtrie with
  | none => some none
  | some _ =>
    (addrLookup mtrie fam ip .null).map fun p =>
      match p.2 with
      | .vdata plen => if p.1 = 0 then none else some (plen % 2 ^ 8)
      | _ => none

/-- The two types of rules that `vif_fat_flow_prefix_proto_port_match` is asked for. -/
inductive RuleKind
  | single
  | dual
  deriving DecidableEq, Repr

def PortData.has (d : PortData) : RuleKind → Bool
  | .single => d.singlePrefix
  | .dual => d.dualPrefix

/-- `aggr_mask`, `aggr_mask1` and `fat_flow_mask` of a match. -/
structure PrefixMatch where
  aggrMask : ℕ
  aggrMask1 : ℕ
  mask : FatFlowMask
  deriving DecidableEq, Repr

/-- What one of the three port infos gives: `srcPort` and `dstPort` are the bits it sets in the
mask. -/
def portInfoMatch (kind : RuleKind) (fam : Family) (dip : List Byte) (srcPort dstPort : Bool)
    (info : Option PortData) : Option (Option PrefixMatch) :=
  match info.filter fun d => d.has kind with
  | none => some none
  | some d =>
    match kind with
    | .single =>
      some (some ⟨d.aggrPlen, 0, ⟨srcPort, dstPort, d.hasIgnoreSrc, d.hasIgnoreDst⟩⟩)
    | .dual =>
      (vifFatFlowIpPrefixLookup d.secondPrefix fam dip).map fun plen =>
        plen.map fun plen => ⟨d.aggrPlen, plen, ⟨srcPort, dstPort, false, false⟩⟩

/-- The first of two attempts that matches. -/
def orMatch (a b : Option (Option PrefixMatch)) : Option (Option PrefixMatch) :=
  match a with
  | some none => b
  | r => r

def vifFatFlowPrefixProtoPortMatch (kind : RuleKind) (rdata : RuleData) (fam : Family)
    (dip : List Byte) (proto sport dport : ℕ) : Option (Option PrefixMatch) :=
  match rdata.proto (vifFatFlowGetProtoIndex proto) with
  | none => some none
  | some ptable =>
    let srcPortInfo := portInfoMatch kind fam dip false true (vrItableGet ptable sport)
    let dstPortInfo := portInfoMatch kind fam dip true false (vrItableGet ptable dport)
    let zeroPortInfo := portInfoMatch kind fam dip true true (vrItableGet ptable 0)
    if sport < dport then orMatch srcPortInfo (orMatch dstPortInfo zeroPortInfo)
    else orMatch dstPortInfo (orMatch srcPortInfo zeroPortInfo)

/-- The rule data found for an address; the default of the trie does not count. -/
def rdataOf (rules : FatFlowRules) (p : ℕ × VoidPtr) : Option (Option RuleData) :=
  if p.2 = .null ∨ p.1 = 0 then some none
  else
    match p.2 with
    | .vdata (k + 1) => (rules.ruleData[k]?).map some
    | _ => none

/-- The match of single-prefix rules, if there is rule data. -/
def singleMatch (fam : Family) (rdata : Option RuleData) (proto sport dport : ℕ) :
    Option (Option PrefixMatch) :=
  match rdata with
  | none => some none
  | some r => vifFatFlowPrefixProtoPortMatch .single r fam [] proto sport dport

/-- `vif_fat_flow_prefix_rule_match` on the addresses of the two ends, the one at the interface
first: the mask and the addresses cut to their aggregate lengths. -/
def prefixRuleMatch (rules : FatFlowRules) (fam : Family) (proto sport dport : ℕ)
    (sip dip : List Byte) : Option (FatFlowMask × List Byte × List Byte) :=
  (addrLookup (rules.prefixRules fam .src) fam sip .null).bind fun found =>
  (rdataOf rules found).bind fun rdataSrc =>
  (singleMatch fam rdataSrc proto sport dport).bind fun
    | some m => some (m.mask, andBytes sip (plenToMask fam m.aggrMask), dip)
    | none =>
      -- the request goes on with the pointer that the first lookup left in it
      (addrLookup (rules.prefixRules fam .dst) fam dip found.2).bind fun found =>
      (rdataOf rules found).bind fun rdataDst =>
      (singleMatch fam rdataDst proto sport dport).bind fun
        | some m => some (m.mask, sip, andBytes dip (plenToMask fam m.aggrMask))
        | none =>
          match rdataSrc with
          | none => some (noMask, sip, dip)
          | some r =>
            (vifFatFlowPrefixProtoPortMatch .dual r fam dip proto sport dport).map fun
              | some m => (m.mask, andBytes sip (plenToMask fam m.aggrMask),
                  andBytes dip (plenToMask fam m.aggrMask1))
              | none => (noMask, sip, dip)

/-- `vif_fat_flow_prefix_rule_match`: the ends are swapped for packets to the interface. -/
def vifFatFlowPrefixRuleMatch (incomingVif : Bool) (rules : FatFlowRules) (fam : Family)
    (proto sport dport : ℕ) (saddr daddr : List Byte) :
    Option (FatFlowMask × List Byte × List Byte) :=
  if incomingVif then prefixRuleMatch rules fam proto sport dport saddr daddr
  else
    (prefixRuleMatch rules fam proto sport dport daddr saddr).map fun r => (r.1, r.2.2, r.2.1)

/-- The mask of the port rules, with the ports in host order. -/
def portRuleMask (rules : FatFlowRules) (protoIndex : ProtoIndex) (hSport hDport : ℕ) :
    FatFlowMask :=
  let sport := vifFatFlowPortGet rules protoIndex hSport
  let dport := vifFatFlowPortGet rules protoIndex hDport
  let any := sport ≠ 0 ∨ dport ≠ 0
  let tie := sport ≠ 0 ∧ dport ≠ 0 ∧ protoIndex ≠ .noproto
  -- the smaller port takes precedence, and the destination port when they are equal
  let sportMask :=
    if ¬ any then vifFatFlowPortGet rules protoIndex 0
    else if tie ∧ hDport ≤ hSport then 0 else sport
  let dportMask := if tie ∧ ¬ hDport ≤ hSport then 0 else dport
  let zero := decide (¬ any) && decide (sportMask ≠ 0)
  ⟨zero || decide (dportMask = vifFatFlowPortSet ∨ dportMask = vifFatFlowPortSipIgnore ∨
      dportMask = vifFatFlowPortDipIgnore),
    zero || decide (sportMask = vifFatFlowPortSet ∨ sportMask = vifFatFlowPortSipIgnore ∨
      sportMask = vifFatFlowPortDipIgnore),
    decide (sportMask = vifFatFlowPortSipIgnore ∨ dportMask = vifFatFlowPortSipIgnore),
    decide (sportMask = vifFatFlowPortDipIgnore ∨ dportMask = vifFatFlowPortDipIgnore)⟩

/-- `vif_fat_flow_lookup`, with the ports in host order. -/
def vifFatFlowLookup (incomingVif : Bool) (vif : VifFatFlow) (fam : Family) (proto sport dport : ℕ)
    (saddr daddr : List Byte) : Option (FatFlowMask × List Byte × List Byte) :=
  if vifFatFlowExcludeListLookup vif fam saddr daddr then some (noMask, saddr, daddr)
  else
    let protoIndex := vifFatFlowGetProtoIndex proto
    if vif.fatFlowNumRules protoIndex = 0 then some (noMask, saddr, daddr)
    else
      let proto := if protoIndex = .noproto ∧ proto = vrIpProtoIcmp6 then vrIpProtoIcmp else proto
      let hSport := if protoIndex = .noproto then proto else sport
      let hDport := if protoIndex = .noproto then proto else dport
      let mask := portRuleMask vif.rules protoIndex hSport hDport
      if mask ≠ noMask then some (mask, saddr, daddr)
      else vifFatFlowPrefixRuleMatch incomingVif vif.rules fam proto hSport hDport saddr daddr

end Vrouter.FatFlow
