import Vrouter.Flow.Entry

/-! # The flow table

A translation of the data path and of the deferred work of `vr_flow.c`.  The state is the hash
table of flow entries with its own pending items, the counters, the link local ports, the pending
work items of `vr_flow_work` and the pending callbacks of `vr_flow_defer_cb`.  Four fields keep
count of what happened: how many flows were created and when the flow of an entry was, and which
packets were put into a hold queue and which were taken out of one.

What a function depends on outside of the flow table comes from an `Oracle`: the outcomes of the
allocations and of `vr_schedule_work`, the nexthop and interface tables, the CPU.  A function whose
result is `none` has no next state: it dereferences a null pointer, or searches a list that does
not end. -/

namespace Vrouter.Flow

open Vrouter.Htable

/-! ### The environment -/

/-- What is fixed while the router runs. -/
structure Env where
  g : Geometry
  hash : FlowKey × ℕ → ℕ
  vrNumCpus : ℕ
  vrFlowHoldLimit : ℕ
  vrMaxVrfs : ℕ
  vrMaxMirrorIndices : ℕ
  vrLinkLocalPortsSize : ℕ
  vrUncondCloseFlowOnTcpRst : Bool
  mirrorExists : ℕ → Bool
  udpSrcHash : FlowEntry → ℕ

/-- The allocations of one `__vr_flow_schedule_transition`, in order, and its `vr_schedule_work`. -/
structure SchedOutcome where
  mdOk : Bool := true
  deferOk : Bool := true
  dataOk : Bool := true
  workOk : Bool := true
  deriving DecidableEq, Repr

/-- The source check of `vr_flow_action`. -/
inductive SrcCheck
  | noNexthop
  | invalid
  | mismatch (index : ℤ)
  | valid
  deriving DecidableEq, Repr

/-- The outcomes of what one step depends on outside of the flow table.  `sched n` is the `n`-th
transition that the step schedules, and `src n`, `hbsHeld n` belong to the `n`-th packet it runs
through `vr_flow_action`. -/
structure Oracle where
  notReady : Bool := false
  hSched : ℕ → Bool := fun _ => true
  sched : ℕ → SchedOutcome := fun _ => {}
  queueOk : Bool := true
  cloneOk : Bool := true
  src : ℕ → SrcCheck := fun _ => .valid
  hbsHeld : ℕ → Bool := fun _ => false
  vifOk : ℕ → Bool := fun _ => true
  cpu : ℕ := 0
  inetAllow : Bool := true
  vifDropsNewFlows : Bool := false
  timerOk : Bool := true

/-! ### The state -/

/-- `struct vr_flow_defer_data` -/
structure FlowDeferData where
  vfddFlowQueue : Option FlowQueue := none
  vfddDelete : Bool := false
  vfddEvictFlow : Bool := false

/-- `struct vr_flow_md`, a pending work item.  `flmdDeferData` is `flmd_defer_data`, and in it
`vdd_data`.  `stamp` and `rev` keep when the item was scheduled and which reverse flow was marked
together with the flow. -/
structure FlowMd where
  flmdIndex : ℕ
  flmdFlags : FlowFlags
  flmdDeferData : Option (Option FlowDeferData)
  stamp : ℕ
  rev : Option ℕ

/-- A pending callback, with `vfdd_fe` and the rest of its data. -/
structure FlowDefer where
  vfddFe : ℕ
  data : FlowDeferData
  stamp : ℕ
  rev : Option ℕ

structure FlowSys where
  table : Htable.Sys FlowEntry
  infop : FlowTableInfo := {}
  vrLinkLocalPorts : ℕ → Bool := fun _ => false
  works : List FlowMd := []
  cbs : List FlowDefer := []
  clock : ℕ := 0
  born : ℕ → ℕ := fun _ => 0
  offered : ℕ := 0
  accepted : List ℕ := []
  done : List ℕ := []

def FlowSys.entry (s : FlowSys) (i : ℕ) : FlowEntry := (s.table.tbl.hentry i).payload

def FlowSys.valid (s : FlowSys) (i : ℕ) : Bool := (s.table.tbl.hentry i).hentryFlags.valid

/-- Rewrites one flow entry. -/
def FlowSys.setEntry (s : FlowSys) (i : ℕ) (f : FlowEntry → FlowEntry) : FlowSys :=
  { s with table := s.table.setPayload i (f (s.entry i)) }

variable (env : Env)

/-- `vr_flow_get_entry` -/
def flowGetEntry (s : FlowSys) (index : ℤ) : Option ℕ :=
  if index < 0 then none
  else (getHentryByIndex env.g s.table.tbl index.toNat).map fun _ => index.toNat

/-- `vr_find_flow` -/
def findFlow (s : FlowSys) (key : FlowKey) : Option (Option ℕ) :=
  findHentry env.g flowGetKey env.hash s.table.tbl (key, key.len)

/-! ### Locking, releasing -/

/-- The effect of a successful `vr_flow_start_modify`. -/
def flowStartModify (s : FlowSys) (i : ℕ) : FlowSys :=
  s.setEntry i fun e => { e with feFlags := { e.feFlags with modified := true } }

/-- `vr_flow_stop_modify` -/
def flowStopModify (s : FlowSys) (i : ℕ) : FlowSys :=
  s.setEntry i fun e => { e with feFlags := { e.feFlags with modified := false } }

def flowRelease (o : Oracle) (s : FlowSys) (i : ℕ) : FlowSys :=
  { s with table := releaseHentry env.g o.notReady (o.hSched i) s.table i }

/-- `vr_flow_reset_entry` -/
def flowResetEntry (o : Oracle) (s : FlowSys) (i : ℕ) : FlowSys :=
  flowRelease env o
    (s.setEntry i fun e => { e.reset with feStats := {}, feType := .null, feFlags := {} }) i

/-- `vr_flow_reset_active_entry` -/
def flowResetActiveEntry (o : Oracle) (s : FlowSys) (i : ℕ) : FlowSys :=
  flowRelease env o (s.setEntry i FlowEntry.reset) i

/-- `vr_flow_evict_flow` -/
def flowEvictFlow (o : Oracle) (s : FlowSys) (i : ℕ) : FlowSys :=
  let flags := (s.entry i).feFlags
  if flags.active && flags.evictCandidate then
    let s := s.setEntry i fun e =>
      { e with feFlags := { flags with evictCandidate := false, evicted := true } }
    flowResetActiveEntry env o (flowStopModify s i) i
  else s

/-- `vr_flow_reset_evict` -/
def flowResetEvict (s : FlowSys) (i : ℕ) : FlowSys :=
  flowStopModify
    (s.setEntry i fun e => { e with feFlags := { e.feFlags with evictCandidate := false } }) i

/-! ### Taking a free entry -/

/-- `vr_flow_table_get_free_entry` -/
def flowTableGetFreeEntry (s : FlowSys) (key : FlowKey) : Option (ℕ × FlowSys) :=
  match findFreeHentry env.g s.table.tbl (env.hash (key, key.len)) with
  | none => none
  | some (i, t) =>
    let s := { s with table := { s.table with tbl := t } }
    some (i, s.setEntry i FlowEntry.take)

/-- `vr_flow_get_free_entry` -/
def flowGetFreeEntry (o : Oracle) (s : FlowSys) (key : FlowKey) (type : VpType) (needHold : Bool) :
    Option ℕ × FlowSys :=
  match flowTableGetFreeEntry env s key with
  | none => (none, s)
  | some (i, s) =>
    if needHold && !o.queueOk then (none, flowResetEntry env o s i)
    else
      let s := s.setEntry i fun e => { e with
        feHoldList := if needHold then some { vfqIndex := i } else e.feHoldList
        feType := type
        feKey := key
        feKeyLen := key.len }
      (some i, { s with clock := s.clock + 1, born := Function.update s.born i (s.clock + 1) })

/-! ### Scheduling -/

/-- Whether `__vr_flow_schedule_transition` has the callback evict: the flow is a candidate, and so
is its reverse flow if there is one. -/
def evictFlowSet (s : FlowSys) (i : ℕ) : Bool :=
  let fe := s.entry i
  fe.feFlags.evictCandidate &&
    (decide (fe.feRflow < 0) ||
      match flowGetEntry env s fe.feRflow with
      | some r => (s.entry r).feFlags.evictCandidate
      | none => true)

/-- `__vr_flow_schedule_transition` for the entry `i`, under the index that its caller has for it.
The flag tells success; without memory for `vdd_data` the writes to it go to a null pointer. -/
def flowScheduleTransition (out : SchedOutcome) (s : FlowSys) (i index : ℕ) (flags : FlowFlags)
    (rev : Option ℕ) : Option (Bool × FlowSys) :=
  if !out.mdOk then some (false, s)
  else
    let del := !flags.active
    let evict := evictFlowSet env s i
    let needed := (s.entry i).feHoldList.isSome || flags.evictCandidate
    if needed && out.deferOk && !out.dataOk && (del || evict) then none
    else
      let defer : Option (Option FlowDeferData) :=
        if needed && out.deferOk then
          some (if out.dataOk then some { vfddDelete := del, vfddEvictFlow := evict } else none)
        else none
      if out.workOk then
        some (true, { s with works := s.works ++ [⟨index, flags, defer, s.clock, rev⟩] })
      else some (false, s)

/-! ### Marking for eviction -/

/-- `__vr_flow_mark_evict` -/
def flowMarkCandidate (s : FlowSys) (i : ℕ) : Bool × FlowSys :=
  if (s.entry i).feFlags.active then
    (!(s.entry i).feFlags.evictCandidate,
      s.setEntry i fun e => { e with feFlags := { e.feFlags with evictCandidate := true } })
  else (false, s)

/-- The end of `vr_flow_mark_evict`, when the forward flow `i` is to be evicted; `rfe` is the
reverse flow that was marked with it. -/
def flowEvictForward (out : SchedOutcome) (s : FlowSys) (i index : ℕ) (rfe : Option ℕ) :
    Option FlowSys :=
  let marked := flowMarkCandidate s i
  if marked.1 then
    match flowScheduleTransition env out marked.2 i index (marked.2.entry i).feFlags rfe with
    | none => none
    | some (true, s) => some s
    | some (false, s) =>
      let s := match rfe with
        | some r => flowResetEvict s r
        | none => s
      some (flowResetEvict s i)
  else
    let s := match rfe with
      | some r => flowStopModify marked.2 r
      | none => marked.2
    some (flowStopModify s i)

/-- `vr_flow_mark_evict` -/
def flowMarkEvict (out : SchedOutcome) (s : FlowSys) (i index : ℕ) : Option FlowSys :=
  if !(s.entry i).feFlags.unlocked then some s
  else
    let s := flowStartModify s i
    match flowGetEntry env s (s.entry i).feRflow with
    | none => flowEvictForward env out s i index none
    | some r =>
      if (s.entry r).feTcpFlags.dead && (s.entry r).feFlags.unlocked then
        let s := flowStartModify s r
        let rfe := s.entry r
        -- hold flows are not evicted yet
        if (rfe.feRflow = index ∨ rfe.feRflow < 0) ∧ rfe.feAction ≠ .hold then
          let marked := flowMarkCandidate s r
          if marked.1 then flowEvictForward env out marked.2 i index (some r)
          else some (flowStopModify (flowStopModify marked.2 r) i)
        else some (flowStopModify (flowStopModify s r) i)
      else some (flowStopModify s i)

/-! ### Acting on a packet -/

/-- `vr_flow_action_default`, as far as it changes the table. -/
def flowActionDefault (out : SchedOutcome) (s : FlowSys) (i index : ℕ) : Option FlowSys :=
  if (s.entry i).feTcpFlags.dead then flowMarkEvict env out s i index else some s

/-- An `int` is stored in an `int8_t`. -/
def toInt8 (z : ℤ) : ℤ := z.bmod (2 ^ 8)

/-- `vr_rflow_update_ecmp_index` for the reverse flow of `i`; the flag tells success. -/
def rflowUpdateEcmpIndex (s : FlowSys) (i : ℕ) (newEcmpIndex : ℤ) : Bool × FlowSys :=
  if newEcmpIndex = -1 then (false, s)
  else
    match flowGetEntry env s (s.entry i).feRflow with
    | none => (false, s)
    | some r =>
      if (s.entry r).feFlags.deleteMarked then (false, s)
      else (true, s.setEntry r fun e => { e with feEcmpNhIndex := toInt8 newEcmpIndex })

/-- The source check at the start of `vr_flow_action`; the flag tells that the packet passes. -/
def flowCheckSource (src : SrcCheck) (s : FlowSys) (i : ℕ) : Bool × FlowSys :=
  match src with
  | .noNexthop => (false, s)
  | .invalid => (false, s)
  | .mismatch index => rflowUpdateEcmpIndex env s i index
  | .valid => (true, s)

/-- `vr_flow_action` for the `n`-th packet of a step. -/
def flowAction (o : Oracle) (n : ℕ) (s : FlowSys) (i index : ℕ) : Option FlowSys :=
  let checked := flowCheckSource env (o.src n) s i
  let fe := checked.2.entry i
  let held := (fe.feHbsLeft || fe.feHbsRight) && o.hbsHeld n && decide (fe.feAction ≠ .drop)
  let acted :=
    if checked.1 && !held then flowActionDefault env (o.sched (2 * n)) checked.2 i index
    else some checked.2
  acted.bind fun s =>
    if (s.entry i).feTcpFlags.dead then flowMarkEvict env (o.sched (2 * n + 1)) s i index
    else some s

/-! ### Flushing the hold queue -/

/-- `vr_flow_flush_pnode` -/
def flowFlushPnode (o : Oracle) (i index : ℕ) (q : FlowQueue) (s : FlowSys) (j : Fin 3) :
    Option FlowSys :=
  match q.vfqPnodes j with
  | none => some s
  | some pnode =>
    let s := { s with done := s.done ++ [pnode.plPacket] }
    if o.vifOk j then flowAction env o j s i index else some s

/-- `__vr_flow_flush_hold_queue` -/
def flowFlushHoldQueue (o : Oracle) (s : FlowSys) (i index : ℕ) (q : FlowQueue) : Option FlowSys :=
  (List.finRange 3).foldlM (flowFlushPnode env o i index q) s

/-- `vr_flush_entry`: the flushed queue is kept for the callback when there is one. -/
def flushEntry (o : Oracle) (s : FlowSys) (i index : ℕ) : Option (Option FlowQueue × FlowSys) :=
  match (s.entry i).feHoldList with
  | none => some (none, s)
  | some q =>
    if (s.entry i).feAction = .hold then some (none, s)
    else
      (flowFlushHoldQueue env o (s.setEntry i fun e => { e with feHoldList := none }) i index
        q).map fun s => (some q.flushed, s)

/-! ### Work items and callbacks -/

/-- The flow `i` and its reverse flow are no candidates any more.  A reverse index of 0 counts as
none here. -/
def flowResetEvictPair (s : FlowSys) (i : ℕ) : FlowSys :=
  let s :=
    if (s.entry i).feRflow ≠ 0 then
      match flowGetEntry env s (s.entry i).feRflow with
      | some r => flowResetEvict s r
      | none => s
    else s
  flowResetEvict s i

/-- `vr_flow_defer` for the item `md` and its entry `i`; `q` is the queue that was flushed. -/
def flowDefer (o : Oracle) (s : FlowSys) (md : FlowMd) (i : ℕ) (q : Option FlowQueue) : FlowSys :=
  match md.flmdDeferData.join with
  | none =>
    let s := if md.flmdFlags.evictCandidate then flowResetEvictPair env s i else s
    if !md.flmdFlags.active then flowResetEntry env o s i else s
  | some data =>
    { s with cbs := s.cbs ++ [⟨i, { data with vfddFlowQueue := q }, md.stamp, md.rev⟩] }

/-- `vr_flow_work` -/
def flowWork (o : Oracle) (s : FlowSys) (md : FlowMd) : Option FlowSys :=
  match flowGetEntry env s md.flmdIndex with
  | none => some s
  | some i => (flushEntry env o s i md.flmdIndex).map fun r => flowDefer env o r.2 md i r.1

/-- The end of `vr_flow_defer_cb`. -/
def flowDeferFinish (o : Oracle) (s : FlowSys) (cb : FlowDefer) : FlowSys :=
  if cb.data.vfddDelete then flowResetEntry env o s cb.vfddFe
  else if cb.data.vfddEvictFlow then
    let rfe := flowGetEntry env s (s.entry cb.vfddFe).feRflow
    let s := flowEvictFlow env o s cb.vfddFe
    match rfe with
    | some r => flowEvictFlow env o s r
    | none => s
  else s

/-- `vr_flow_defer_cb` -/
def flowDeferCb (o : Oracle) (s : FlowSys) (cb : FlowDefer) : Option FlowSys :=
  match cb.data.vfddFlowQueue with
  | none => some (flowDeferFinish env o s cb)
  | some q =>
    (flowFlushHoldQueue env o s cb.vfddFe q.vfqIndex q).map fun s => flowDeferFinish env o s cb

end Vrouter.Flow
