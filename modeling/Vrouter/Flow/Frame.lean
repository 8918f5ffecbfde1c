import Vrouter.Htable.Ops
import Vrouter.Flow.Request

/-! # What the small functions of the flow table change

The *core* of an entry is what the later arguments are about: its flags, action, reverse index,
hold queue and key.  A step is *quiet* when it changes no core, no pending item, no counter of the
flows on hold and nothing of what was recorded; the TCP state machine is quiet, and so is the work
of the hash table underneath.  `Placed` says that every flow lies in the bucket of its key. -/

namespace Vrouter.Flow

open Vrouter.Htable Vrouter.Lib Function

variable {env : Env} {s s' s'' : FlowSys} {i j r : ℕ} {o : Oracle}

/-! ### Entries after a write -/

section

variable (f : FlowEntry → FlowEntry)

@[simp] theorem entry_setEntry_same : (s.setEntry i f).entry i = f (s.entry i) := by
  simp only [FlowSys.setEntry, FlowSys.entry, setPayload_same]

theorem entry_setEntry_ne (h : j ≠ i) : (s.setEntry i f).entry j = s.entry j := by
  simp only [FlowSys.setEntry, FlowSys.entry, setPayload_ne h]

@[simp] theorem valid_setEntry (j : ℕ) : (s.setEntry i f).valid j = s.valid j := by
  have h := setPayload_fl (s := s.table) (i := i) (v := f (s.entry i)) j
  exact congrArg HentryFlags.valid h

@[simp] theorem setEntry_works : (s.setEntry i f).works = s.works := rfl
@[simp] theorem setEntry_clock : (s.setEntry i f).clock = s.clock := rfl
@[simp] theorem setEntry_infop : (s.setEntry i f).infop = s.infop := rfl

end

theorem setEntry_setEntry (f f' : FlowEntry → FlowEntry) :
    (s.setEntry i f).setEntry i f' = s.setEntry i (f' ∘ f) := by
  simp only [FlowSys.setEntry, FlowSys.entry, Sys.setPayload, Table.modify, update_self,
    update_idem, Function.comp]

theorem setEntry_eq_self (f : FlowEntry → FlowEntry) (h : f (s.entry i) = s.entry i) :
    s.setEntry i f = s := by
  have hp : ({ s.table.tbl.hentry i with payload := f (s.entry i) } : Hentry FlowEntry) =
      s.table.tbl.hentry i := by
    rw [h]
    rfl
  simp only [FlowSys.setEntry, Sys.setPayload, Table.modify]
  rw [hp, update_eq_self]

theorem setEntry_comm (f f' : FlowEntry → FlowEntry) (h : i ≠ r) :
    (s.setEntry i f).setEntry r f' = (s.setEntry r f').setEntry i f := by
  simp only [FlowSys.setEntry, FlowSys.entry, Sys.setPayload, Table.modify,
    update_of_ne h, update_of_ne h.symm]
  rw [update_comm h]

theorem flowGetEntry_eq_some {index : ℤ} :
    flowGetEntry env s index = some i ↔ index = i ∧ i < env.g.total ∧ s.valid i = true := by
  unfold flowGetEntry getHentryByIndex FlowSys.valid
  split_ifs with h1 h2
  · refine ⟨fun h => absurd h (by simp), ?_⟩
    rintro ⟨rfl, _⟩
    exact absurd h1 (by omega)
  · simp only [Option.map_some, Option.some.injEq]
    constructor
    · rintro rfl
      exact ⟨by omega, h2⟩
    · rintro ⟨rfl, _⟩
      exact Int.toNat_natCast i
  · simp only [Option.map_none, reduceCtorEq, false_iff]
    rintro ⟨rfl, hi⟩
    rw [Int.toNat_natCast] at h2
    exact h2 hi

/-! ### Placement -/

/-- The hash table is in order, and every flow lies in the bucket of its key. -/
def Placed (env : Env) (s : FlowSys) : Prop :=
  ∃ place, Inv env.g s.table place ∧ NoLimbo env.g place ∧ ∀ j, s.valid j = true →
    Home env.g place j (bucketOf env.g (env.hash ((s.entry j).feKey, (s.entry j).feKeyLen)))

theorem Placed.setEntry (h : Placed env s) (f : FlowEntry → FlowEntry)
    (hk : s.valid i = true → (f (s.entry i)).feKey = (s.entry i).feKey ∧
      (f (s.entry i)).feKeyLen = (s.entry i).feKeyLen) : Placed env (s.setEntry i f) := by
  obtain ⟨place, hinv, hl, hhome⟩ := h
  refine ⟨place, hinv.setPayload i _, hl, fun j hj => ?_⟩
  rw [valid_setEntry] at hj
  by_cases hji : j = i
  · subst hji
    rw [entry_setEntry_same, (hk hj).1, (hk hj).2]
    exact hhome j hj
  · rw [entry_setEntry_ne f hji]
    exact hhome j hj

theorem Placed.congr (h : Placed env s) (ht : s'.table = s.table) : Placed env s' := by
  unfold Placed FlowSys.valid FlowSys.entry at *
  rwa [ht]

/-- The entry `i` need not lie in the bucket of its key. -/
def PlacedBut (env : Env) (s : FlowSys) (i : ℕ) : Prop :=
  ∃ place, Inv env.g s.table place ∧ NoLimbo env.g place ∧ ∀ j, j ≠ i → s.valid j = true →
    Home env.g place j (bucketOf env.g (env.hash ((s.entry j).feKey, (s.entry j).feKeyLen)))

theorem Placed.but (h : Placed env s) (i : ℕ) : PlacedBut env s i := by
  obtain ⟨place, hinv, hl, hhome⟩ := h
  exact ⟨place, hinv, hl, fun j _ => hhome j⟩

theorem PlacedBut.setEntry (h : PlacedBut env s i) (f : FlowEntry → FlowEntry) :
    PlacedBut env (s.setEntry i f) i := by
  obtain ⟨place, hinv, hl, hhome⟩ := h
  refine ⟨place, hinv.setPayload i _, hl, fun j hji hj => ?_⟩
  rw [entry_setEntry_ne f hji]
  exact hhome j hji ((valid_setEntry f j).symm.trans hj)

/-- What a release does to the table. -/
structure FlowReleased (env : Env) (s : FlowSys) (i : ℕ) (s' : FlowSys) : Prop where
  placed : Placed env s'
  valid : ∀ j, s'.valid j = if j = i then false else s.valid j
  entry : ∀ j, s'.entry j = s.entry j

theorem PlacedBut.release (h : PlacedBut env s i) (hi : i < env.g.total) (o : Oracle) :
    FlowReleased env s i (flowRelease env o s i) := by
  obtain ⟨place, hinv, hl, hhome⟩ := h
  obtain ⟨hinv', hr, -⟩ := hinv.release hl hi o.notReady (o.hSched i)
  have hv : ∀ j, (flowRelease env o s i).valid j = if j = i then false else s.valid j := by
    intro j
    split_ifs with hji
    · subst hji; exact hr.invalid
    · exact hr.others j hji
  refine ⟨⟨place, hinv', hl, fun j hj => ?_⟩, hv, hr.payload⟩
  rw [hv j] at hj
  split_ifs at hj with hji
  rw [show (flowRelease env o s i).entry j = s.entry j from hr.payload j]
  exact hhome j hji hj

/-! ### Quiet steps -/

/-- What the later arguments are about. -/
structure Core where
  flags : FlowFlags
  action : FlowAction
  rflow : ℤ
  holdList : Option FlowQueue
  key : FlowKey
  keyLen : ℕ

def FlowEntry.core (e : FlowEntry) : Core :=
  ⟨e.feFlags, e.feAction, e.feRflow, e.feHoldList, e.feKey, e.feKeyLen⟩

structure Quiet (env : Env) (s s' : FlowSys) : Prop where
  core : ∀ j, (s'.entry j).core = (s.entry j).core
  valid : ∀ j, s'.valid j = s.valid j
  works : s'.works = s.works
  cbs : s'.cbs = s.cbs
  clock : s'.clock = s.clock
  born : s'.born = s.born
  accepted : s'.accepted = s.accepted
  done : s'.done = s.done
  offered : s'.offered = s.offered
  holdCount : s'.infop.vftiHoldCount = s.infop.vftiHoldCount
  actionCount : s'.infop.vftiActionCount = s.infop.vftiActionCount
  placed : Placed env s → Placed env s'

theorem Quiet.refl (env : Env) (s : FlowSys) : Quiet env s s :=
  ⟨fun _ => rfl, fun _ => rfl, rfl, rfl, rfl, rfl, rfl, rfl, rfl, rfl, rfl, id⟩

section

variable (h : Quiet env s s')
include h

theorem Quiet.trans (h' : Quiet env s' s'') : Quiet env s s'' where
  core := fun j => (h'.core j).trans (h.core j)
  valid := fun j => (h'.valid j).trans (h.valid j)
  works := h'.works.trans h.works
  cbs := h'.cbs.trans h.cbs
  clock := h'.clock.trans h.clock
  born := h'.born.trans h.born
  accepted := h'.accepted.trans h.accepted
  done := h'.done.trans h.done
  offered := h'.offered.trans h.offered
  holdCount := h'.holdCount.trans h.holdCount
  actionCount := h'.actionCount.trans h.actionCount
  placed := h'.placed ∘ h.placed

theorem Quiet.flags (j : ℕ) : (s'.entry j).feFlags = (s.entry j).feFlags :=
  congrArg Core.flags (h.core j)

theorem Quiet.action (j : ℕ) : (s'.entry j).feAction = (s.entry j).feAction :=
  congrArg Core.action (h.core j)

theorem Quiet.rflow (j : ℕ) : (s'.entry j).feRflow = (s.entry j).feRflow :=
  congrArg Core.rflow (h.core j)

theorem Quiet.holdList (j : ℕ) : (s'.entry j).feHoldList = (s.entry j).feHoldList :=
  congrArg Core.holdList (h.core j)

end

theorem quiet_setEntry (f : FlowEntry → FlowEntry) (hf : (f (s.entry i)).core = (s.entry i).core) :
    Quiet env s (s.setEntry i f) where
  core := by
    intro j
    by_cases hji : j = i
    · subst hji; rw [entry_setEntry_same]; exact hf
    · rw [entry_setEntry_ne f hji]
  valid := fun j => valid_setEntry f j
  works := rfl
  cbs := rfl
  clock := rfl
  born := rfl
  accepted := rfl
  done := rfl
  offered := rfl
  holdCount := rfl
  actionCount := rfl
  placed := fun h => h.setEntry f fun _ => ⟨congrArg Core.key hf, congrArg Core.keyLen hf⟩

/-! ### The TCP state machine is quiet -/

theorem quiet_orTcpFlags (f : TcpFlags → TcpFlags) : Quiet env s (s.orTcpFlags i f) :=
  quiet_setEntry _ rfl

theorem quiet_orTcpFlagsOf (q : Option ℕ) (f : TcpFlags → TcpFlags) :
    Quiet env s (s.orTcpFlagsOf q f) := by
  cases q with
  | none => exact .refl env s
  | some r => exact quiet_orTcpFlags f

theorem quiet_flowInitClose : Quiet env s (flowInitClose env s i) := by
  unfold flowInitClose
  exact (quiet_orTcpFlags _).trans (quiet_orTcpFlagsOf _ _)

theorem quiet_tcpEstablish : Quiet env s (tcpEstablish s i r) := by
  unfold tcpEstablish
  exact Quiet.trans (quiet_orTcpFlags _) (quiet_orTcpFlags _)

variable {tcph : TcpHdr}

theorem quiet_tcpDigestRst : Quiet env s (tcpDigestRst env s i tcph) := by
  unfold tcpDigestRst
  split_ifs
  · exact .refl env s
  · exact ((quiet_orTcpFlags _).trans (quiet_orTcpFlagsOf _ _)).trans quiet_flowInitClose

theorem quiet_setTcpSeq (seq : ℕ) :
    Quiet env s (s.setEntry i fun e => { e with feTcpSeq := seq }) :=
  quiet_setEntry _ rfl

theorem quiet_tcpDigestSyn : Quiet env s (tcpDigestSyn env s i tcph) := by
  unfold tcpDigestSyn
  dsimp only
  have h1 : Quiet env s ((s.setEntry i fun e => { e with feTcpSeq := tcph.tcpSeq }).orTcpFlags i
      fun f => { f with syn := true }) := (quiet_setTcpSeq _).trans (quiet_orTcpFlags _)
  split
  · exact h1
  · split_ifs
    · exact (h1.trans (quiet_orTcpFlags _)).trans quiet_tcpEstablish
    · exact h1.trans (quiet_orTcpFlags _)

theorem quiet_tcpDigestFin : Quiet env s (tcpDigestFin env s i tcph) := by
  unfold tcpDigestFin
  dsimp only
  exact ((quiet_setTcpSeq tcph.finSeq).trans (quiet_orTcpFlags _)).trans (quiet_orTcpFlagsOf _ _)

theorem quiet_tcpDigestAck : Quiet env s (tcpDigestAck env s i tcph) := by
  unfold tcpDigestAck
  dsimp only
  split_ifs with h
  · split
    · exact .refl env s
    · split_ifs
      · exact (quiet_orTcpFlags _).trans quiet_flowInitClose
      · exact quiet_orTcpFlags _
      · exact quiet_tcpEstablish
      · exact .refl env s
  · exact .refl env s

theorem quiet_flowTcpDigest (tcp : Option TcpHdr) : Quiet env s (flowTcpDigest env s i tcp) := by
  cases tcp with
  | none => exact .refl env s
  | some tcph =>
    unfold flowTcpDigest
    dsimp only
    have h1 : Quiet env s
        (if tcph.flagAck then s.setEntry i fun e => { e with feTcpAck := tcph.tcpAck } else s) := by
      split_ifs
      · exact quiet_setEntry _ rfl
      · exact .refl env s
    refine h1.trans ?_
    generalize (if tcph.flagAck = true then _ else s) = s₁
    split_ifs
    · exact quiet_tcpDigestRst
    · exact quiet_tcpDigestSyn.trans quiet_tcpDigestAck
    · exact quiet_tcpDigestFin.trans quiet_tcpDigestAck
    · exact quiet_tcpDigestAck

/-! ### Other quiet functions -/

theorem quiet_flowCheckSource (src : SrcCheck) : Quiet env s (flowCheckSource env src s i).2 := by
  cases src with
  | noNexthop => exact .refl env s
  | invalid => exact .refl env s
  | valid => exact .refl env s
  | mismatch index =>
    unfold flowCheckSource rflowUpdateEcmpIndex
    dsimp only
    split_ifs
    · exact .refl env s
    · split
      · exact .refl env s
      · split_ifs
        · exact .refl env s
        · exact quiet_setEntry (fun e => { e with feEcmpNhIndex := toInt8 index }) rfl

theorem quiet_writeLinkLocalPort (proto port : ℕ) (v : Bool) :
    Quiet env s (s.writeLinkLocalPort env proto port v) := by
  unfold FlowSys.writeLinkLocalPort
  split
  · exact .refl env s
  · exact ⟨fun _ => rfl, fun _ => rfl, rfl, rfl, rfl, rfl, rfl, rfl, rfl, rfl, rfl,
      fun h => h.congr rfl⟩

theorem quiet_flowUpdateLinkLocalPort (req : FlowReq) :
    Quiet env s (flowUpdateLinkLocalPort env s req i) := by
  unfold flowUpdateLinkLocalPort
  dsimp only
  split_ifs
  · exact .refl env s
  · exact (quiet_writeLinkLocalPort _ _ _).trans (quiet_writeLinkLocalPort _ _ _)
  · exact quiet_writeLinkLocalPort _ _ _
  · exact quiet_writeLinkLocalPort _ _ _
  · exact .refl env s

theorem quiet_flowSetNewFlow : Quiet env s (flowSetNewFlow env s i) := by
  unfold flowSetNewFlow
  dsimp only
  have h1 : ∀ f : FlowEntry → FlowEntry, (∀ e, (f e).core = e.core) →
      Quiet env s (s.setEntry i f) := fun f hf => quiet_setEntry f (hf _)
  have h2 := h1 (fun e =>
    if e.feFlags.newFlow && decide (e.feStats.flowPackets ≠ {}) then
      { e with feStats := {} }
    else e) (fun e => by split_ifs <;> rfl)
  split
  · exact h2
  · exact h2.trans (quiet_orTcpFlags _)

theorem quiet_infop {infop : FlowTableInfo}
    (hh : infop.vftiHoldCount = s.infop.vftiHoldCount)
    (ha : infop.vftiActionCount = s.infop.vftiActionCount) :
    Quiet env s { s with infop := infop } :=
  ⟨fun _ => rfl, fun _ => rfl, rfl, rfl, rfl, rfl, rfl, rfl, rfl, hh, ha, fun h => h.congr rfl⟩

theorem quiet_moved {lossless : Prop} {t' : Htable.Sys FlowEntry} {place place' : ℕ → Place}
    (hm : Moved env.g lossless s.table place t' place') (hl : NoLimbo env.g place)
    (hhome : ∀ j, s.valid j = true →
      Home env.g place j (bucketOf env.g (env.hash ((s.entry j).feKey, (s.entry j).feKeyLen)))) :
    Quiet env s { s with table := t' } where
  core := fun j => by
    have := (hm.same j).2
    simp only [FlowSys.entry, this]
  valid := fun j => (hm.same j).1
  works := rfl
  cbs := rfl
  clock := rfl
  born := rfl
  accepted := rfl
  done := rfl
  offered := rfl
  holdCount := rfl
  actionCount := rfl
  placed := fun _ => by
    refine ⟨place', hm.inv, fun j hj h => hl j hj (hm.limbo j h), fun j hj => ?_⟩
    have hv : s.valid j = true := (hm.same j).1.symm.trans hj
    have he : FlowSys.entry { s with table := t' } j = s.entry j := (hm.same j).2
    have := hhome j hv
    rw [he]
    unfold Home at *
    rwa [hm.valid j hv]

theorem quiet_tableWork {k : ℕ} {nr : Bool} {allocOk : ℕ → Bool} {t' : Htable.Sys FlowEntry}
    (h : Placed env s) (hk : k ∈ s.table.works)
    (hs : scheduledDelete env.g nr allocOk { s.table with works := s.table.works.erase k } k =
      some t') : Quiet env s { s with table := t' } := by
  obtain ⟨place, hinv, hl, hhome⟩ := h
  obtain ⟨t₁, place', hrun, hm⟩ := (hinv.eraseWork k).scheduledDelete nr allocOk (hinv.works k hk)
  cases hrun.symm.trans hs
  exact quiet_moved ⟨hm.inv, hm.same, hm.valid, hm.limbo, hm.lost⟩ hl hhome

theorem quiet_tableDeferred (h : Placed env s) (hi : i ∈ s.table.defers) :
    Quiet env s { s with
      table := deferDelete env.g { s.table with defers := s.table.defers.erase i } i } := by
  obtain ⟨place, hinv, hl, hhome⟩ := h
  exact quiet_moved (hinv.deferDelete hi True) hl hhome

end Vrouter.Flow
