import Vrouter.Flow.Model

/-! # Packets

The functions of `vr_flow.c` that a packet runs through: the TCP state machine, the hold queue, the
limit on flows on hold, and the lookup that finds the flow of a packet or creates it. -/

namespace Vrouter.Flow

open Vrouter.Htable

/-! ### Packets -/

/-- The fields of a TCP header that `vr_flow_tcp_digest` reads; `length` is the length of the
segment with its header, and `offset` the length of the header in words. -/
structure TcpHdr where
  flagAck : Bool
  flagRst : Bool
  flagSyn : Bool
  flagFin : Bool
  tcpSeq : ℕ
  tcpAck : ℕ
  length : ℕ
  offset : ℕ
  deriving DecidableEq, Repr

/-- A packet, with the key that was formed for it.  `tcp` is present when the packet has a TCP
header and does not belong to a fat flow. -/
structure Packet where
  key : FlowKey
  vpType : VpType
  vifIdx : ℕ
  srcInfo : Option ℕ
  relaxed : Bool
  dvrf : ℕ
  pktLen : ℕ
  tcp : Option TcpHdr
  deriving DecidableEq, Repr

variable (env : Env)

/-! ### The TCP state machine -/

/-- Rewrites the TCP flags of an entry. -/
def FlowSys.orTcpFlags (s : FlowSys) (i : ℕ) (f : TcpFlags → TcpFlags) : FlowSys :=
  s.setEntry i fun e => { e with feTcpFlags := f e.feTcpFlags }

/-- Rewrites the TCP flags of the reverse flow, if there is one. -/
def FlowSys.orTcpFlagsOf (s : FlowSys) (r : Option ℕ) (f : TcpFlags → TcpFlags) : FlowSys :=
  match r with
  | some r => s.orTcpFlags r f
  | none => s

/-- `vr_flow_init_close` -/
def flowInitClose (s : FlowSys) (i : ℕ) : FlowSys :=
  let s := s.orTcpFlags i fun f => { f with dead := true }
  s.orTcpFlagsOf (flowGetEntry env s (s.entry i).feRflow) fun f => { f with dead := true }

/-- The reverse flow, when the flow has one. -/
def validRflow (s : FlowSys) (i : ℕ) : Option ℕ :=
  if (s.entry i).feFlags.rflowValid then flowGetEntry env s (s.entry i).feRflow else none

/-- Whether a reset is ignored: the sequence numbers do not fit those of the reverse flow. -/
def rstIgnored (s : FlowSys) (i : ℕ) (tcph : TcpHdr) : Bool :=
  if env.vrUncondCloseFlowOnTcpRst then false
  else
    match validRflow env s i with
    | none => false
    | some r =>
      if tcph.flagAck && (s.entry r).feTcpFlags.syn then
        decide (tcph.tcpAck ≠ ((s.entry r).feTcpSeq + 1) % 2 ^ 32)
      else decide (tcph.tcpSeq ≠ (s.entry r).feTcpAck)

/-- The reverse flow is established. -/
def tcpEstablish (s : FlowSys) (i r : ℕ) : FlowSys :=
  let s := s.orTcpFlags r fun f => { f with established := true }
  s.orTcpFlags i fun f => { f with establishedR := true }

/-- The branch of `vr_flow_tcp_digest` for a reset. -/
def tcpDigestRst (s : FlowSys) (i : ℕ) (tcph : TcpHdr) : FlowSys :=
  if rstIgnored env s i tcph then s
  else
    let s := s.orTcpFlags i fun f => { f with rst := true }
    let s := s.orTcpFlagsOf (validRflow env s i) fun f => { f with rst := true }
    flowInitClose env s i

/-- The branch for a SYN. -/
def tcpDigestSyn (s : FlowSys) (i : ℕ) (tcph : TcpHdr) : FlowSys :=
  let s := s.setEntry i fun e => { e with feTcpSeq := tcph.tcpSeq }
  let s := s.orTcpFlags i fun f => { f with syn := true }
  match validRflow env s i with
  | none => s
  | some r =>
    let s := s.orTcpFlags r fun f => { f with synR := true }
    if (s.entry i).feTcpFlags.synR && tcph.flagAck &&
        decide (tcph.tcpAck = ((s.entry r).feTcpSeq + 1) % 2 ^ 32) then
      tcpEstablish s i r
    else s

/-- The sequence number of a FIN counts the data of its segment. -/
def TcpHdr.finSeq (tcph : TcpHdr) : ℕ :=
  (tcph.tcpSeq + (tcph.length + 2 ^ 32 - tcph.offset * 4)) % 2 ^ 32

/-- The branch for a FIN. -/
def tcpDigestFin (s : FlowSys) (i : ℕ) (tcph : TcpHdr) : FlowSys :=
  let s := s.setEntry i fun e => { e with feTcpSeq := tcph.finSeq }
  let s := s.orTcpFlags i fun f => { f with fin := true }
  s.orTcpFlagsOf (validRflow env s i) fun f => { f with finR := true }

/-- The end of `vr_flow_tcp_digest`: an acknowledgement that the reverse flow waits for. -/
def tcpDigestAck (s : FlowSys) (i : ℕ) (tcph : TcpHdr) : FlowSys :=
  let f := (s.entry i).feTcpFlags
  if (f.finR || (!f.establishedR && f.synR)) && tcph.flagAck then
    match validRflow env s i with
    | none => s
    | some r =>
      if tcph.tcpAck = ((s.entry r).feTcpSeq + 1) % 2 ^ 32 ∧ f.finR then
        let s := s.orTcpFlags r fun f => { f with halfClose := true }
        if (s.entry i).feTcpFlags.halfClose then flowInitClose env s i else s
      else if tcph.tcpAck ≠ (s.entry r).feTcpSeq ∧ !f.establishedR then tcpEstablish s i r
      else s
  else s

/-- `vr_flow_tcp_digest` -/
def flowTcpDigest (s : FlowSys) (i : ℕ) (tcp : Option TcpHdr) : FlowSys :=
  match tcp with
  | none => s
  | some tcph =>
    let s := if tcph.flagAck then s.setEntry i fun e => { e with feTcpAck := tcph.tcpAck } else s
    if tcph.flagRst then tcpDigestRst env s i tcph
    else
      let s :=
        if tcph.flagSyn then tcpDigestSyn env s i tcph
        else if tcph.flagFin then tcpDigestFin env s i tcph
        else s
      tcpDigestAck env s i tcph

/-! ### Holding packets -/

/-- `vr_trap_flow`, as far as it changes the entry: the agent has been told of a new flow. -/
def trapFlow (s : FlowSys) (i : ℕ) : FlowSys :=
  s.setEntry i fun e => { e with feFlags := { e.feFlags with newFlow := false } }

/-- The next slot of a queue is used, if there is one left. -/
def FlowQueue.put (q : FlowQueue) (pnode : Option Pnode) : FlowQueue :=
  { q with
    vfqEntries := (q.vfqEntries + 1) % 2 ^ 32
    vfqPnodes := if h : q.vfqEntries < vrMaxFlowQueueEntries then
        Function.update q.vfqPnodes ⟨q.vfqEntries, h⟩ pnode
      else q.vfqPnodes }

/-- Whether `vr_enqueue_flow` keeps the packet.  The first packet of a queue is also sent to the
agent, itself when it cannot be cloned. -/
def queueKeeps (o : Oracle) (q : FlowQueue) : Bool :=
  decide (q.vfqEntries < vrMaxFlowQueueEntries) && (decide (q.vfqEntries ≠ 0) || o.cloneOk)

/-- `vr_enqueue_flow` -/
def enqueueFlow (o : Oracle) (s : FlowSys) (i : ℕ) (pnode : Pnode) : FlowSys :=
  match (s.entry i).feHoldList with
  | none => s
  | some vfq =>
    let kept := queueKeeps o vfq
    let s := s.setEntry i fun e =>
      { e with feHoldList := some (vfq.put (if kept then some pnode else none)) }
    let s := if kept then { s with accepted := s.accepted ++ [pnode.plPacket] } else s
    if vfq.vfqEntries = 0 then trapFlow s i else s

/-- The accounting of `vr_do_flow_action`. -/
def FlowEntry.countPacket (pktLen : ℕ) (e : FlowEntry) : FlowEntry :=
  let stats := if e.feFlags.newFlow then {} else e.feStats
  { e with feStats := ⟨stats.flowBytes.add (.ofNat 32 pktLen), stats.flowPackets.next⟩ }

/-- `vr_do_flow_action` -/
def doFlowAction (o : Oracle) (s : FlowSys) (i : ℕ) (pkt : Packet) : Option FlowSys :=
  let s := s.setEntry i (FlowEntry.countPacket pkt.pktLen)
  if (s.entry i).feAction = .hold then some (enqueueFlow o s i ⟨s.offered, pkt.vifIdx⟩)
  else flowAction env o 0 s i i

/-! ### New flows -/

/-- `vr_flow_entry_set_hold` -/
def flowEntrySetHold (o : Oracle) (s : FlowSys) (i : ℕ) (burst : Bool) : FlowSys :=
  if env.vrNumCpus ≤ o.cpu then s
  else
    let s := s.setEntry i fun e => { e with feAction := .hold }
    let infop := countHold o.cpu s.infop
    let used := { infop with vftiBurstUsed := incr64 infop.vftiBurstUsed }
    { s with infop := if burst then flowStartBurstProcessing o.timerOk used else infop }

/-- `vr_flow_allow_new_flow`: `none` refuses the flow, and the flag tells that it uses a burst
token. -/
def flowAllowNewFlow (o : Oracle) (s : FlowSys) (type : VpType) : Option Bool :=
  if type = .ip ∧ !o.inetAllow then none
  else
    let exceeded := decide (env.vrFlowHoldLimit ≠ 0) &&
      decide (env.vrFlowHoldLimit < flowTableHoldCount env.vrNumCpus s.infop)
    if exceeded && decide (s.infop.vftiBurstTokens % 2 ^ 32 ≤ s.infop.vftiBurstUsed) then none
    else if o.vifDropsNewFlows then none
    else some exceeded

/-- `vr_flow_new_hold_flow`, once the flow was not found. -/
def flowNewHoldFlow (o : Oracle) (s : FlowSys) (pkt : Packet) : Option ℕ × FlowSys :=
  match flowAllowNewFlow env o s pkt.vpType with
  | none => (none, s)
  | some burst =>
    match flowGetFreeEntry env o s pkt.key pkt.vpType true with
    | (none, s) => (none, s)
    | (some i, s) =>
      let s := s.setEntry i fun e => { e with feVrf := pkt.dvrf }
      (some i, flowEntrySetHold env o s i burst)

/-- The rest of `vr_flow_lookup`, for the flow of the packet. -/
def flowLookupFound (o : Oracle) (s : FlowSys) (i : ℕ) (pkt : Packet) : Option FlowSys :=
  if (s.entry i).feFlags.evictCandidate then some s
  else
    let s := s.setEntry i fun e => { e with feSrcInfo := pkt.srcInfo.getD e.feSrcInfo }
    doFlowAction env o (flowTcpDigest env s i pkt.tcp) i pkt

/-- `vr_flow_lookup` -/
def flowLookup (o : Oracle) (s : FlowSys) (pkt : Packet) : Option FlowSys :=
  match findFlow env s pkt.key with
  | none => none
  | some (some i) => flowLookupFound env o s i pkt
  | some none =>
    if pkt.relaxed then some s
    else
      match flowNewHoldFlow env o s pkt with
      | (none, s) => some s
      | (some i, s) => flowLookupFound env o s i pkt

/-- The part of `vr_flow_forward` for a packet that comes back from a host based service with the
index of its flow; `fromVmi` selects the reverse flow. -/
def flowForwardHbs (o : Oracle) (s : FlowSys) (index : ℕ) (fromVmi : Bool) : Option FlowSys :=
  match flowGetEntry env s index with
  | none => some s
  | some i =>
    if fromVmi then
      match flowGetEntry env s (s.entry i).feRflow with
      | none => some s
      | some r => flowActionDefault env (o.sched 0) s r r
    else flowActionDefault env (o.sched 0) s i i

end Vrouter.Flow
