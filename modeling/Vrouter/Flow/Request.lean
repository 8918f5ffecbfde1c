import Vrouter.Flow.Packet

/-! # Requests of the agent, and the steps of the flow table

The functions of `vr_flow.c` that serve a flow request: setting a flow, adding one, deleting one,
and forcing an eviction.  At the end, `flowStep` collects everything that can happen to a flow
table: packets, requests, pending work items and callbacks in any order, the pending items of the
hash table underneath, and the timer of the burst tokens. -/

namespace Vrouter.Flow

open Vrouter.Htable

/-! ### Requests -/

inductive Errno
  | einval
  | ebusy
  | ebadf
  | efault
  | enoent
  | eexist
  | enospc
  | enomem
  | hostError
  deriving DecidableEq, Repr

/-- `vr_flow_req`; the two bits of `fr_extflags` are `forceEvict` and `mockSrcUdp`. -/
structure FlowReq where
  frIndex : ℤ
  frRindex : ℤ := -1
  frKey : FlowKey
  frRkey : FlowKey := ⟨.other, 0, 0, 0, 0, 0, 0⟩
  frGenId : ℕ := 0
  frAction : FlowAction
  frFlags : FlowFlags
  frHbsLeft : Bool := false
  frHbsRight : Bool := false
  frFlowVrf : ℕ := 0
  frFlowDvrf : ℕ := 0
  frMirId : ℕ := 0
  frSecMirId : ℕ := 0
  frEcmpNhIndex : ℤ := -1
  frSrcNhIndex : ℕ := 0
  frQosId : ℤ := -1
  frTtl : ℕ := 0
  frUnderlayEcmpIndex : ℤ := -1
  frDropReason : ℕ := 0
  forceEvict : Bool := false
  mockSrcUdp : Bool := false
  deriving DecidableEq, Repr

variable (env : Env)

/-- The fields of the key that a request must repeat. -/
def sameKeyFields (a b : FlowKey) : Bool :=
  decide (a.flowSport = b.flowSport) && decide (a.flowDport = b.flowDport) &&
    decide (a.flowNhId = b.flowNhId) && decide (a.flowProto = b.flowProto) &&
    decide (a.flowSip = b.flowSip) && decide (a.flowDip = b.flowDip)

/-- The part of `vr_flow_set_req_is_invalid` that depends on the entry the request names. -/
def reqEntryError (s : FlowSys) (req : FlowReq) : Option ℕ → Option Errno
  | some i =>
    let fe := s.entry i
    if fe.feFlags.deleteMarked then some .einval
    else if fe.feType = .null then none
    else if req.frGenId % 2 ^ 8 ≠ fe.feGenId then some .ebadf
    else if !sameKeyFields req.frKey fe.feKey then some .efault
    else none
  | none => if req.frFlags.active && decide (0 ≤ req.frIndex) then some .enoent else none

/-- `vr_flow_set_req_is_invalid`; a valid request comes back with the index of its reverse flow. -/
def flowSetReqIsInvalid (s : FlowSys) (req : FlowReq) (fe : Option ℕ) :
    Option (Except Errno ℤ) :=
  match reqEntryError s req fe with
  | some err => some (.error err)
  | none =>
    if req.frFlags.vrft && decide (env.vrMaxVrfs ≤ req.frFlowDvrf % 2 ^ 16) then
      some (.error .einval)
    else if req.frFlags.mirror && decide (env.vrMaxMirrorIndices ≤ req.frMirId) &&
        decide (env.vrMaxMirrorIndices ≤ req.frSecMirId) then some (.error .einval)
    else if !req.frFlags.rflowValid then some (.ok req.frRindex)
    else if req.frRindex ≠ -1 then
      match flowGetEntry env s req.frRindex with
      | none => some (.error .einval)
      | some _ => some (.ok req.frRindex)
    else
      match findFlow env s req.frRkey with
      | none => none
      | some none => some (.error .einval)
      | some (some r) => some (.ok r)

/-! ### Link local ports -/

/-- The bit of a port in the bitmap of the link local ports. -/
def linkLocalBit (proto port : ℕ) : Option ℕ :=
  let bits := env.vrLinkLocalPortsSize * 8
  if env.vrLinkLocalPortsSize = 0 ∨ 65535 < port then none
  else if proto = vrIpProtoTcp then some port
  else if proto = vrIpProtoUdp then some (port + bits / 3)
  else if proto = vrIpProtoIcmp then some (port + bits * 2 / 3)
  else none

/-- `vr_set_link_local_port`, `vr_clear_link_local_port` -/
def FlowSys.writeLinkLocalPort (s : FlowSys) (proto port : ℕ) (v : Bool) : FlowSys :=
  match linkLocalBit env proto port with
  | none => s
  | some b => { s with vrLinkLocalPorts := Function.update s.vrLinkLocalPorts b v }

/-- The port of a link local flow; for ICMP it is the identifier, in place of the source port. -/
def FlowKey.linkLocalPort (k : FlowKey) : ℕ :=
  if k.flowProto = vrIpProtoIcmp then k.flowSport else k.flowDport

/-- `vr_flow_update_link_local_port` -/
def flowUpdateLinkLocalPort (s : FlowSys) (req : FlowReq) (i : ℕ) : FlowSys :=
  let fe := s.entry i
  if fe.feType ≠ .ip then s
  else
    let port := fe.feKey.linkLocalPort
    let s :=
      if !req.frFlags.linkLocal && fe.feFlags.linkLocal then
        s.writeLinkLocalPort env fe.feKey.flowProto port false
      else s
    if (req.frFlags.linkLocal && !fe.feFlags.linkLocal) ||
        (req.frFlags.bgpService && !fe.feFlags.bgpService) then
      s.writeLinkLocalPort env fe.feKey.flowProto port true
    else s

/-! ### Deleting and evicting -/

/-- The result of `vr_flow_schedule_transition` as a return code. -/
def scheduleRet (out : SchedOutcome) (r : Bool × FlowSys) : Option Errno × FlowSys :=
  (if r.1 then none else if out.mdOk then some .hostError else some .enomem, r.2)

/-- What `vr_flow_delete` makes of the flow before it schedules the transition. -/
def flowDeleteMark (s : FlowSys) (i : ℕ) : FlowSys :=
  let s := s.setEntry i fun e => { e with feFlags := { e.feFlags with deleteMarked := true } }
  let fe := s.entry i
  let s :=
    if fe.feFlags.linkLocal then
      s.writeLinkLocalPort env fe.feKey.flowProto fe.feKey.linkLocalPort false
    else s
  s.setEntry i fun e => { e with feAction := .drop }.resetMirror

/-- `vr_flow_delete` -/
def flowDelete (o : Oracle) (s : FlowSys) (req : FlowReq) (i : ℕ) :
    Option (Option Errno × FlowSys) :=
  (flowScheduleTransition env (o.sched 0) (flowDeleteMark env s i) i req.frIndex.toNat req.frFlags
    none).map (scheduleRet (o.sched 0))

/-- The test of `vr_flow_force_evict`: a TCP flow that is dead and active. -/
def forceEvictable (e : FlowEntry) : Bool :=
  decide (e.feKey.flowProto = vrIpProtoTcp) && e.feTcpFlags.dead && e.feFlags.active

/-- What `vr_flow_force_evict` makes of the flow before it schedules the transition; it goes on
when it does not get the lock. -/
def flowForceMark (s : FlowSys) (i : ℕ) : FlowSys :=
  let s := if (s.entry i).feFlags.unlocked then flowStartModify s i else s
  let s := s.setEntry i fun e =>
    { e with feFlags := { e.feFlags with rflowValid := false }, feRflow := -1 }
  if (s.entry i).feFlags.evictCandidate then s else (flowMarkCandidate s i).2

/-- `vr_flow_force_evict` -/
def flowForceEvict (o : Oracle) (s : FlowSys) (req : FlowReq) :
    Option (Option Errno × FlowSys) :=
  match flowGetEntry env s req.frIndex with
  | none => some (some .einval, s)
  | some i =>
    if !forceEvictable (s.entry i) then some (some .einval, s)
    else
      let s := flowForceMark s i
      (flowScheduleTransition env (o.sched 0) s i req.frIndex.toNat (s.entry i).feFlags none).map
        fun r => (none, r.2)

/-! ### Setting -/

/-- One of the two mirror indices in `vr_flow_set_mirror`. -/
def mirrorIndex (old new : ℕ) : ℕ :=
  if old = new then old
  else if new < env.vrMaxMirrorIndices ∧ env.mirrorExists new then new
  else max old env.vrMaxMirrorIndices

/-- `vr_flow_set_mirror` -/
def FlowEntry.setMirror (e : FlowEntry) (req : FlowReq) : FlowEntry :=
  if !req.frFlags.mirror then if e.feFlags.mirror then e.resetMirror else e
  else
    { e with
      feMirrorId := mirrorIndex env e.feMirrorId req.frMirId
      feSecMirrorId := mirrorIndex env e.feSecMirrorId req.frSecMirId }

/-- What `vr_flow_set` writes to the entry before the action. -/
def FlowEntry.applyReq (e : FlowEntry) (req : FlowReq) (rindex : ℤ) : FlowEntry :=
  let e := e.setMirror env req
  { e with
    feRflow :=
      if req.frFlags.rflowValid then rindex else if 0 ≤ e.feRflow then -1 else e.feRflow
    feVrf := req.frFlowVrf
    feDvrf := if req.frFlags.vrft then req.frFlowDvrf else e.feDvrf
    feEcmpNhIndex := if e.feEcmpNhIndex = -1 then req.frEcmpNhIndex else e.feEcmpNhIndex
    feSrcNhIndex := req.frSrcNhIndex
    feQosId := req.frQosId }

/-- What `vr_flow_set` writes to the entry after the action, up to the flags. -/
def FlowEntry.applyReqFlags (e : FlowEntry) (req : FlowReq) : FlowEntry :=
  { e with
    feTtl := req.frTtl
    feUnderlayEcmpIndex := req.frUnderlayEcmpIndex
    feDropReason := if e.feAction = .drop then req.frDropReason % 2 ^ 8 else e.feDropReason
    feFlags := e.feFlags.dpBitsOrMask req.frFlags
    feHbsLeft := req.frHbsLeft
    feHbsRight := req.frHbsRight }

/-- `vr_flow_tcp_rflow_set` -/
def TcpFlags.rflowSet (f rf : TcpFlags) : TcpFlags :=
  { f with
    synR := f.synR || rf.syn
    rst := f.rst || rf.rst
    dead := f.dead || rf.dead
    finR := f.finR || rf.fin
    established := f.established || rf.established
    establishedR := f.establishedR || rf.established }

/-- What `vr_flow_set` does to a flow that it has just added. -/
def flowSetNewFlow (s : FlowSys) (i : ℕ) : FlowSys :=
  let s := s.setEntry i fun e =>
    if e.feFlags.newFlow && decide (e.feStats.flowPackets ≠ {}) then
      { e with feStats := {} }
    else e
  match validRflow env s i with
  | none => s
  | some r => s.orTcpFlags i fun f => f.rflowSet (s.entry r).feTcpFlags

/-- `vr_flow_udp_src_port`, with the port that simulations ask for, and the end of a new flow. -/
def FlowEntry.finishReq (e : FlowEntry) (req : FlowReq) : FlowEntry :=
  { e with
    feUdpSrcPort :=
      if req.mockSrcUdp then 0x12b5
      else if e.feUdpSrcPort ≠ 0 then e.feUdpSrcPort
      else env.udpSrcHash e % 2 ^ 32 * (65535 - 49152) / 2 ^ 32 + 49152
    feFlags := { e.feFlags with newFlow := false } }

/-- The part of `vr_flow_set` that both a change and an addition run through, up to the transition
that it schedules. -/
def flowSetEntry (o : Oracle) (s : FlowSys) (req : FlowReq) (i : ℕ) (rindex : ℤ) (newFlow : Bool) :
    FlowSys :=
  let s := flowUpdateLinkLocalPort env s req i
  let s := s.setEntry i fun e => e.applyReq env req rindex
  let s :=
    if req.frAction = .hold ∧ (s.entry i).feAction ≠ .hold then flowEntrySetHold env o s i false
    else s.setEntry i fun e => { e with feAction := req.frAction }
  let s := s.setEntry i fun e => e.applyReqFlags req
  let s := if newFlow then flowSetNewFlow env s i else s
  s.setEntry i fun e => e.finishReq env req

def flowSetApply (o : Oracle) (s : FlowSys) (req : FlowReq) (i : ℕ) (rindex : ℤ) (newFlow : Bool) :
    Option (Option Errno × FlowSys) :=
  (flowScheduleTransition env (o.sched 0) (flowSetEntry env o s req i rindex newFlow) i
    req.frIndex.toNat req.frFlags none).map (scheduleRet (o.sched 0))

/-- The counters of a request that found its flow. -/
def countReq (s : FlowSys) (req : FlowReq) (i : ℕ) : FlowSys :=
  let fe := s.entry i
  if fe.feAction = .hold ∧ (req.frAction ≠ fe.feAction ∨ !req.frFlags.active) then
    { s with infop := { s.infop with vftiActionCount := incr64 s.infop.vftiActionCount } }
  else { s with infop := { s.infop with vftiChanged := incr64 s.infop.vftiChanged } }

/-- A flow that goes on hold needs a queue. -/
def needQueue (req : FlowReq) (fe : FlowEntry) : Bool :=
  decide (req.frAction = .hold) && decide (fe.feAction ≠ .hold) && fe.feHoldList.isNone

/-- `vr_flow_set` for a request that found its flow and locked it. -/
def flowSetFound (o : Oracle) (s : FlowSys) (req : FlowReq) (i : ℕ) :
    Option (Option Errno × FlowSys) :=
  match flowSetReqIsInvalid env s req (some i) with
  | none => none
  | some (.error err) => some (some err, flowStopModify s i)
  | some (.ok rindex) =>
    let s := countReq s req i
    if !req.frFlags.active then
      let s := { s with infop := { s.infop with vftiDeleted := incr64 s.infop.vftiDeleted } }
      flowDelete env o s req i
    else
      let needed := needQueue req (s.entry i)
      if needed && !o.queueOk then some (some .enomem, flowStopModify s i)
      else
        let s := if needed then s.setEntry i fun e => { e with feHoldList := some {} } else s
        (flowSetApply env o s req i rindex false).map fun r => (r.1, flowStopModify r.2 i)

/-- `vr_add_flow_req`: the entry of the new flow, or the error that `vr_flow_set` returns. -/
def addFlowReq (o : Oracle) (s : FlowSys) (req : FlowReq) : Option (Except Errno ℕ × FlowSys) :=
  if req.frKey.flowFamily = .other then some (.error .enospc, s)
  else
    let type : VpType := if req.frKey.flowFamily = .inet6 then .ip6 else .ip
    match findFlow env s req.frKey with
    | none => none
    | some (some _) => some (.error .eexist, s)
    | some none =>
      -- an entry that was taken and given up again is reported as one that exists
      let err := if (flowTableGetFreeEntry env s req.frKey).isSome then .eexist else .enospc
      match flowGetFreeEntry env o s req.frKey type (decide (req.frAction = .hold)) with
      | (none, s) => some (.error err, s)
      | (some i, s) => some (.ok i, s)

/-- `vr_flow_set` for a request that found no flow. -/
def flowSetAbsent (o : Oracle) (s : FlowSys) (req : FlowReq) :
    Option (Option Errno × FlowSys) :=
  match flowSetReqIsInvalid env s req none with
  | none => none
  | some (.error err) => some (some err, s)
  | some (.ok rindex) =>
    if !req.frFlags.active then some (some .enoent, s)
    else
      match addFlowReq env o s req with
      | none => none
      | some (.error err, s) => some (some err, s)
      | some (.ok i, s) =>
        let s := { s with infop := { s.infop with vftiAdded := incr64 s.infop.vftiAdded } }
        flowSetApply env o s { req with frIndex := i } i rindex true

/-- `vr_flow_set` -/
def flowSet (o : Oracle) (s : FlowSys) (req : FlowReq) : Option (Option Errno × FlowSys) :=
  if req.forceEvict then flowForceEvict env o s req
  else
    match flowGetEntry env s req.frIndex with
    | none => flowSetAbsent env o s req
    | some i =>
      if !(s.entry i).feFlags.unlocked then some (some .ebusy, s)
      else flowSetFound env o (flowStartModify s i) req i

/-! ### Steps -/

inductive FlowEvent
  | packet (pkt : Packet) (o : Oracle)
  | hbsPacket (index : ℕ) (fromVmi : Bool) (o : Oracle)
  | request (req : FlowReq) (o : Oracle)
  | work (n : ℕ) (o : Oracle)
  | callback (n : ℕ) (o : Oracle)
  | tableWork (k : ℕ) (notReady : Bool) (allocOk : ℕ → Bool)
  | tableDeferred (i : ℕ)
  | burstTimeout
  | setBurstParams (tokens interval step : Option ℕ) (o : Oracle)

/-- `vr_flow_set_burst_params` -/
def flowSetBurstParams (o : Oracle) (tokens interval step : Option ℕ) (infop : FlowTableInfo) :
    FlowTableInfo :=
  flowStartBurstProcessing o.timerOk { infop with
    vftiBurstTokensConfigured := tokens.getD infop.vftiBurstTokensConfigured
    vftiBurstIntervalConfigured := interval.getD infop.vftiBurstIntervalConfigured
    vftiBurstStepConfigured := step.getD infop.vftiBurstStepConfigured }

/-- One step.  The pending work items, and likewise the callbacks, run in any order; an item is
freed at the end of its run. -/
def flowStep (s : FlowSys) : FlowEvent → Option FlowSys
  | .packet pkt o => (flowLookup env o s pkt).map fun s => { s with offered := s.offered + 1 }
  | .hbsPacket index fromVmi o => flowForwardHbs env o s index fromVmi
  | .request req o => (flowSet env o s req).map Prod.snd
  | .work n o =>
    match s.works[n]? with
    | none => none
    | some md => (flowWork env o s md).map fun s => { s with works := s.works.eraseIdx n }
  | .callback n o =>
    match s.cbs[n]? with
    | none => none
    | some cb => (flowDeferCb env o s cb).map fun s => { s with cbs := s.cbs.eraseIdx n }
  | .tableWork k notReady allocOk =>
    if k ∈ s.table.works then
      (scheduledDelete env.g notReady allocOk
        { s.table with works := s.table.works.erase k } k).map fun t => { s with table := t }
    else none
  | .tableDeferred i =>
    if i ∈ s.table.defers then
      some { s with
        table := deferDelete env.g { s.table with defers := s.table.defers.erase i } i }
    else none
  | .burstTimeout =>
    if s.infop.vftiTimer = .running then some { s with infop := flowBurstTimeout s.infop }
    else none
  | .setBurstParams tokens interval step o =>
    some { s with infop := flowSetBurstParams o tokens interval step s.infop }

/-- A new flow table. -/
def FlowSys.init : FlowSys where
  table := create env.g {}

end Vrouter.Flow
