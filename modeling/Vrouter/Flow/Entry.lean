import Mathlib.Data.Int.Init
import Vrouter.Htable.Model
import Vrouter.Packet.Headers

/-! # Flow entries

The data of `vr_flow.h`: the key and the flags of a flow, its hold queue, the entry itself, and the
counters of the flow table.  A flag word is a record of its bits.  The pointers of the source are
indices here: a flow entry is named by its index in the flow table, and a packet by its number.

The functions of this module look at one entry, or at the counters alone. -/

namespace Vrouter.Flow

/-! ### Keys -/

/-- `AF_INET`, `AF_INET6`, or a family that the flow code does not know. -/
inductive AddrFamily
  | inet
  | inet6
  | other
  deriving DecidableEq, Repr

export Vrouter.Packet (VpType vrIpProtoIcmp vrIpProtoTcp vrIpProtoUdp)

/-- The key of a flow: `struct vr_flow` without its length field. -/
structure FlowKey where
  flowFamily : AddrFamily
  flowProto : ℕ
  flowSport : ℕ
  flowDport : ℕ
  flowNhId : ℕ
  flowSip : ℕ
  flowDip : ℕ
  deriving DecidableEq, Repr

/-- `VR_FLOW_IPV4_HASH_SIZE` or `VR_FLOW_IPV6_HASH_SIZE`, which `vr_fill_flow_common` puts into
`flow_key_len`. -/
def FlowKey.len (k : FlowKey) : ℕ :=
  match k.flowFamily with
  | .inet => 20
  | _ => 44

/-! ### Flags and actions -/

/-- `fe_flags` -/
structure FlowFlags where
  active : Bool := false
  snat : Bool := false
  spat : Bool := false
  dnat : Bool := false
  dpat : Bool := false
  trapEcmp : Bool := false
  deleteMarked : Bool := false
  bgpService : Bool := false
  modified : Bool := false
  newFlow : Bool := false
  evictCandidate : Bool := false
  evicted : Bool := false
  rflowValid : Bool := false
  mirror : Bool := false
  vrft : Bool := false
  linkLocal : Bool := false
  deriving DecidableEq, Repr

/-- `VR_FLOW_FLAG_DP_BITS(fe) | VR_FLOW_FLAG_MASK(flag)`: the flags of the data path stay, the
others come from the request. -/
def FlowFlags.dpBitsOrMask (f req : FlowFlags) : FlowFlags :=
  { req with
    evictCandidate := f.evictCandidate
    evicted := f.evicted
    newFlow := f.newFlow
    modified := f.modified }

/-- The test of `vr_flow_start_modify`. -/
def FlowFlags.unlocked (f : FlowFlags) : Bool := !(f.modified || f.evicted || f.newFlow)

/-- `fe_tcp_flags` -/
structure TcpFlags where
  fin : Bool := false
  halfClose : Bool := false
  finR : Bool := false
  syn : Bool := false
  synR : Bool := false
  established : Bool := false
  establishedR : Bool := false
  rst : Bool := false
  dead : Bool := false
  deriving DecidableEq, Repr

/-- `fe_action`; a request may carry a code that is none of the four actions. -/
inductive FlowAction
  | drop
  | hold
  | forward
  | nat
  | invalid (code : ℕ)
  deriving DecidableEq, Repr

/-- A counter of thirty-two bits, and one of the carries out of it. -/
structure Counter (w : ℕ) where
  low : BitVec 32 := 0
  oflow : BitVec w := 0
  deriving DecidableEq, Repr

namespace Counter

variable {w : ℕ}

/-- The low part is written, and carries are added to the high one. -/
def put (c : Counter w) (low : BitVec 32) (carries : ℕ) : Counter w :=
  ⟨low, c.oflow + BitVec.ofNat w carries⟩

/-- The carry is found by a comparison with what was added. -/
def add (c : Counter w) (x : BitVec 32) : Counter w :=
  c.put (c.low + x) (if c.low + x < x then 1 else 0)

/-- One is added, and the carry found by a comparison with zero. -/
def next (c : Counter w) : Counter w := c.put (c.low + 1) (if c.low + 1 = 0 then 1 else 0)

end Counter

/-- `fe_stats`: `flow_bytes` with `flow_bytes_oflow`, and `flow_packets` with
`flow_packets_oflow`. -/
structure FlowStats where
  flowBytes : Counter 16 := {}
  flowPackets : Counter 8 := {}
  deriving DecidableEq, Repr

/-! ### The hold queue -/

/-- A held packet, with the interface it came from. -/
structure Pnode where
  plPacket : ℕ
  plVifIdx : ℕ
  deriving DecidableEq, Repr

def vrMaxFlowQueueEntries : ℕ := 3

/-- `struct vr_flow_queue` -/
structure FlowQueue where
  vfqIndex : ℕ := 0
  vfqEntries : ℕ := 0
  vfqPnodes : Fin 3 → Option Pnode := fun _ => none

/-- The queue once its packets have been taken out. -/
def FlowQueue.flushed (q : FlowQueue) : FlowQueue := { q with vfqPnodes := fun _ => none }

/-! ### Entries -/

def vrMaxMirrorIndices : ℕ := 255

def nhDiscardId : ℕ := 0

/-- `struct vr_flow_entry` -/
structure FlowEntry where
  feTtl : ℕ := 0
  feQosId : ℤ := 0
  feKey : FlowKey := ⟨.other, 0, 0, 0, 0, 0, 0⟩
  feKeyLen : ℕ := 0
  feGenId : ℕ := 0
  feTcpFlags : TcpFlags := {}
  feHoldList : Option FlowQueue := none
  feTcpSeq : ℕ := 0
  feTcpAck : ℕ := 0
  feRflow : ℤ := 0
  feFlags : FlowFlags := {}
  feHbsLeft : Bool := false
  feHbsRight : Bool := false
  feAction : FlowAction := .drop
  feVrf : ℕ := 0
  feDvrf : ℕ := 0
  feMirrorId : ℕ := 0
  feSecMirrorId : ℕ := 0
  feSrcNhIndex : ℕ := 0
  feStats : FlowStats := {}
  feEcmpNhIndex : ℤ := 0
  feDropReason : ℕ := 0
  feType : VpType := .null
  feUdpSrcPort : ℕ := 0
  feSrcInfo : ℕ := 0
  feUnderlayEcmpIndex : ℤ := 0

/-- `vr_flow_reset_mirror` -/
def FlowEntry.resetMirror (e : FlowEntry) : FlowEntry :=
  { e with
    feFlags := { e.feFlags with mirror := false }
    feMirrorId := vrMaxMirrorIndices
    feSecMirrorId := vrMaxMirrorIndices }

/-- `vr_init_flow_entry` -/
def FlowEntry.initFlowEntry (e : FlowEntry) : FlowEntry :=
  { e with
    feRflow := -1
    feMirrorId := vrMaxMirrorIndices
    feSecMirrorId := vrMaxMirrorIndices
    feEcmpNhIndex := -1 }

/-- `__vr_flow_reset_entry` -/
def FlowEntry.reset (e : FlowEntry) : FlowEntry :=
  let e := { e with feHoldList := none, feKeyLen := 0 }
  let e := e.resetMirror
  { e with
    feEcmpNhIndex := -1
    feSrcNhIndex := nhDiscardId
    feRflow := -1
    feAction := .drop
    feUdpSrcPort := 0
    feTcpFlags := {}
    feFlags := {
      active := e.feFlags.active
      evicted := e.feFlags.evicted
      newFlow := e.feFlags.newFlow
      deleteMarked := e.feFlags.deleteMarked }
    feHbsLeft := false
    feHbsRight := false
    feTtl := 0
    feUnderlayEcmpIndex := -1
    feSrcInfo := 0 }

/-- `vr_flow_get_key` -/
def flowGetKey (e : FlowEntry) : Option (FlowKey × ℕ) :=
  if e.feFlags.deleteMarked || !e.feFlags.active then none else some (e.feKey, e.feKeyLen)

/-- The flags of an entry that `vr_flow_table_get_free_entry` hands out; an entry that is active
and not evicted keeps its flags. -/
def FlowEntry.takeFlags (e : FlowEntry) : FlowEntry :=
  if !e.feFlags.active then
    { e with feFlags := { active := true, newFlow := true } }.initFlowEntry
  else if e.feFlags.evicted then
    { e with feFlags := { e.feFlags with evicted := false, newFlow := true } }
  else e

/-- What `vr_flow_table_get_free_entry` makes of the entry it found. -/
def FlowEntry.take (e : FlowEntry) : FlowEntry :=
  let e := e.takeFlags
  { e with feUnderlayEcmpIndex := -1, feGenId := (e.feGenId + 1) % 2 ^ 8 }

/-! ### The counters of the table -/

/-- The timer that refills the burst tokens. -/
inductive BurstTimer
  | absent
  | running
  | stopped
  deriving DecidableEq, Repr

/-- `struct vr_flow_table_info` -/
structure FlowTableInfo where
  vftiBurstTokens : ℕ := 0
  vftiBurstUsed : ℕ := 0
  vftiDeleted : ℕ := 0
  vftiChanged : ℕ := 0
  vftiActionCount : ℕ := 0
  vftiAdded : ℕ := 0
  vftiOflows : ℕ := 0
  vftiBurstStepConfigured : ℕ := 0
  vftiBurstIntervalConfigured : ℕ := 0
  vftiBurstTokensConfigured : ℕ := 0
  vftiTimer : BurstTimer := .absent
  vftiHoldCount : ℕ → ℕ := fun _ => 0

def incr64 (n : ℕ) : ℕ := (n + 1) % 2 ^ 64

/-- `vr_flow_table_hold_count` -/
def flowTableHoldCount (numCpus : ℕ) (infop : FlowTableInfo) : ℕ :=
  let hcount := ((List.range numCpus).map infop.vftiHoldCount).sum % 2 ^ 64
  if infop.vftiActionCount ≤ hcount then (hcount - infop.vftiActionCount) % 2 ^ 32 else 0

/-- `vr_flow_start_burst_processing`; `timerOk` tells whether the timer can be created. -/
def flowStartBurstProcessing (timerOk : Bool) (infop : FlowTableInfo) : FlowTableInfo :=
  if infop.vftiBurstTokensConfigured = 0 ∨ infop.vftiBurstIntervalConfigured = 0 ∨
      infop.vftiBurstStepConfigured = 0 then infop
  else
    match infop.vftiTimer with
    | .absent => if timerOk then { infop with vftiTimer := .running } else infop
    | .running => infop
    | .stopped => { infop with vftiTimer := .running }

/-- The tokens, an `int`, are added to the 64 bits of `vfti_burst_tokens`. -/
def FlowTableInfo.addTokens (infop : FlowTableInfo) (tokens : ℤ) : FlowTableInfo :=
  { infop with vftiBurstTokens := (((infop.vftiBurstTokens : ℤ) + tokens) % 2 ^ 64).toNat }

/-- `vr_flow_burst_timeout`.  A configured step of more than 31 bits is a negative `int`. -/
def flowBurstTimeout (infop : FlowTableInfo) : FlowTableInfo :=
  let tokens := Int.bmod ((infop.vftiBurstTokens : ℤ) - infop.vftiBurstUsed) (2 ^ 32)
  if 0 < tokens then
    let tokens := Int.bmod ((infop.vftiBurstTokensConfigured : ℤ) - tokens) (2 ^ 32)
    if tokens ≤ 0 then { infop with vftiTimer := .stopped }
    else
      infop.addTokens (min tokens infop.vftiBurstStepConfigured)
  else infop.addTokens (Int.bmod infop.vftiBurstStepConfigured (2 ^ 32))

/-- The counting part of `vr_flow_entry_set_hold` on a CPU of the table: a counter that would
overflow is rebalanced against the number of flows acted on. -/
def countHold (cpu : ℕ) (infop : FlowTableInfo) : FlowTableInfo :=
  let hold := infop.vftiHoldCount cpu
  let act := infop.vftiActionCount
  if (hold + 1) % 2 ^ 32 < hold then
    let infop := { infop with vftiOflows := (infop.vftiOflows + 1) % 2 ^ 32 }
    if hold < act then
      { infop with
        vftiActionCount := act - hold
        vftiHoldCount := Function.update infop.vftiHoldCount cpu 1 }
    else
      { infop with
        vftiActionCount := 0
        vftiHoldCount := Function.update infop.vftiHoldCount cpu ((hold - act + 1) % 2 ^ 32) }
  else
    { infop with vftiHoldCount := Function.update infop.vftiHoldCount cpu ((hold + 1) % 2 ^ 32) }

end Vrouter.Flow
