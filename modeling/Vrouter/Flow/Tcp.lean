import Vrouter.Flow.Effects

/-! # The TCP state of a connection

`vr_flow_tcp_digest` keeps three things in each of the two entries of a connection: flags, the
sequence number of the last SYN or FIN of that direction, and the last acknowledgement that it sent.
`Conn` is this state of both directions, without the flow table, and `Conn.digest` what a segment does
to it.  `flowTcpDigest_sees` connects the two: on a linked pair of entries the function of the flow
table does what `Conn.digest` does, and the pair stays linked. -/

namespace Vrouter.Flow

/-! ### Connections -/

/-- What `vr_flow_tcp_digest` keeps in an entry. -/
structure Tcb where
  flags : TcpFlags := {}
  seq : ℕ := 0
  ack : ℕ := 0
  deriving DecidableEq, Repr

def FlowEntry.tcb (e : FlowEntry) : Tcb := ⟨e.feTcpFlags, e.feTcpSeq, e.feTcpAck⟩

/-- The two directions of a connection: that of a segment, and the other one. -/
structure Conn where
  own : Tcb
  peer : Tcb
  deriving DecidableEq, Repr

namespace Conn

variable (c : Conn) (tcph : TcpHdr)

/-- Rewrites the flags of the direction of the segment. -/
def orOwn (f : TcpFlags → TcpFlags) : Conn := ⟨⟨f c.own.flags, c.own.seq, c.own.ack⟩, c.peer⟩

/-- Rewrites the flags of the other direction. -/
def orPeer (f : TcpFlags → TcpFlags) : Conn := ⟨c.own, ⟨f c.peer.flags, c.peer.seq, c.peer.ack⟩⟩

def setSeq (seq : ℕ) : Conn := ⟨⟨c.own.flags, seq, c.own.ack⟩, c.peer⟩

def setAck (ack : ℕ) : Conn := ⟨⟨c.own.flags, c.own.seq, ack⟩, c.peer⟩

def noteAck : Conn := if tcph.flagAck then c.setAck tcph.tcpAck else c

/-- A reset is ignored. -/
def ignores (uncond : Bool) : Bool :=
  if uncond then false
  else if tcph.flagAck && c.peer.flags.syn then
    decide (tcph.tcpAck ≠ (c.peer.seq + 1) % 2 ^ 32)
  else decide (tcph.tcpSeq ≠ c.peer.ack)

def close : Conn :=
  (c.orOwn fun f => { f with dead := true }).orPeer fun f => { f with dead := true }

def reset : Conn :=
  ((c.orOwn fun f => { f with rst := true }).orPeer fun f => { f with rst := true }).close

/-- The other direction is established. -/
def establish : Conn :=
  (c.orPeer fun f => { f with established := true }).orOwn fun f => { f with establishedR := true }

/-- The state when a SYN has been noted. -/
def noteSyn : Conn :=
  ((c.setSeq tcph.tcpSeq).orOwn fun f => { f with syn := true }).orPeer
    fun f => { f with synR := true }

def syn : Conn :=
  if (c.noteSyn tcph).own.flags.synR && tcph.flagAck &&
      decide (tcph.tcpAck = ((c.noteSyn tcph).peer.seq + 1) % 2 ^ 32) then
    (c.noteSyn tcph).establish
  else c.noteSyn tcph

/-- The state when a FIN with this sequence number has been noted. -/
def finAt (seq : ℕ) : Conn :=
  ((c.setSeq seq).orOwn fun f => { f with fin := true }).orPeer fun f => { f with finR := true }

def fin : Conn := c.finAt tcph.finSeq

/-- The FIN of the other direction is acknowledged. -/
def halfClose : Conn := c.orPeer fun f => { f with halfClose := true }

/-- Both directions are closed when the FIN of this one was acknowledged before. -/
def finAcked : Conn := if c.halfClose.own.flags.halfClose then c.halfClose.close else c.halfClose

def acked : Conn :=
  if (c.own.flags.finR || (!c.own.flags.establishedR && c.own.flags.synR)) && tcph.flagAck then
    if tcph.tcpAck = (c.peer.seq + 1) % 2 ^ 32 ∧ c.own.flags.finR then
      c.finAcked
    else if tcph.tcpAck ≠ c.peer.seq ∧ !c.own.flags.establishedR then c.establish
    else c
  else c

/-- A segment that is no reset, before its acknowledgement is looked at. -/
def sent : Conn := if tcph.flagSyn then c.syn tcph else if tcph.flagFin then c.fin tcph else c

def rst (uncond : Bool) : Conn := if c.ignores tcph uncond then c else c.reset

def digest (uncond : Bool) : Conn :=
  if tcph.flagRst then (c.noteAck tcph).rst tcph uncond
  else ((c.noteAck tcph).sent tcph).acked tcph

end Conn

/-! ### Linked pairs -/

variable {env : Env} {s : FlowSys} {i r k : ℕ} {c : Conn} {tcph : TcpHdr}

/-- Each of the two entries is the reverse flow of the other. -/
structure Linked (env : Env) (s : FlowSys) (i r : ℕ) : Prop where
  ne : i ≠ r
  out : validRflow env s i = some r
  back : validRflow env s r = some i

theorem Linked.symm (h : Linked env s i r) : Linked env s r i := ⟨h.ne.symm, h.back, h.out⟩

theorem Linked.rflow (h : Linked env s i r) :
    flowGetEntry env s (s.entry i).feRflow = some r := by
  have hout := h.out
  unfold validRflow at hout
  split_ifs at hout
  exact hout

/-- A write to an entry that leaves its link alone. -/
def KeepsLink (f : FlowEntry → FlowEntry) : Prop :=
  ∀ e, (f e).feFlags = e.feFlags ∧ (f e).feRflow = e.feRflow

variable {f : FlowEntry → FlowEntry}

theorem validRflow_setEntry (hf : KeepsLink f) (j : ℕ) :
    validRflow env (s.setEntry k f) j = validRflow env s j := by
  unfold validRflow
  rw [flowGetEntry_setEntry]
  by_cases hj : j = k
  · subst hj
    rw [entry_setEntry_same, (hf _).1, (hf _).2]
  · rw [entry_setEntry_ne f hj]

theorem Linked.setEntry (h : Linked env s i r) (hf : KeepsLink f) :
    Linked env (s.setEntry k f) i r where
  ne := h.ne
  out := by rw [validRflow_setEntry hf, h.out]
  back := by rw [validRflow_setEntry hf, h.back]

/-- The entries `i` and `r` are linked and hold the state `c`. -/
structure Sees (env : Env) (i r : ℕ) (s : FlowSys) (c : Conn) : Prop where
  linked : Linked env s i r
  own : (s.entry i).tcb = c.own
  peer : (s.entry r).tcb = c.peer

variable (h : Sees env i r s c)
include h

theorem Sees.symm : Sees env r i s ⟨c.peer, c.own⟩ :=
  ⟨h.linked.symm, h.peer, h.own⟩

theorem Sees.setOwn (hf : KeepsLink f) :
    Sees env i r (s.setEntry i f) { c with own := (f (s.entry i)).tcb } where
  linked := h.linked.setEntry hf
  own := by rw [entry_setEntry_same]
  peer := by rw [entry_setEntry_ne f h.linked.ne.symm, h.peer]

theorem Sees.orOwn (f : TcpFlags → TcpFlags) : Sees env i r (s.orTcpFlags i f) (c.orOwn f) := by
  have hset := h.setOwn (f := fun e => { e with feTcpFlags := f e.feTcpFlags }) fun _ => ⟨rfl, rfl⟩
  unfold Conn.orOwn
  rw [← h.own]
  exact hset

theorem Sees.orPeer (f : TcpFlags → TcpFlags) : Sees env i r (s.orTcpFlags r f) (c.orPeer f) :=
  (h.symm.orOwn f).symm

theorem Sees.setSeq (seq : ℕ) :
    Sees env i r (s.setEntry i fun e => { e with feTcpSeq := seq }) (c.setSeq seq) := by
  have hset := h.setOwn (f := fun e => { e with feTcpSeq := seq }) fun _ => ⟨rfl, rfl⟩
  unfold Conn.setSeq
  rw [← h.own]
  exact hset

theorem Sees.setAck (ack : ℕ) :
    Sees env i r (s.setEntry i fun e => { e with feTcpAck := ack }) (c.setAck ack) := by
  have hset := h.setOwn (f := fun e => { e with feTcpAck := ack }) fun _ => ⟨rfl, rfl⟩
  unfold Conn.setAck
  rw [← h.own]
  exact hset

theorem Sees.flags : (s.entry i).feTcpFlags = c.own.flags := by
  rw [← h.own]
  rfl

theorem Sees.peerFlags : (s.entry r).feTcpFlags = c.peer.flags :=
  h.symm.flags

theorem Sees.peerSeq : (s.entry r).feTcpSeq = c.peer.seq := by
  rw [← h.peer]
  rfl

theorem Sees.peerAck : (s.entry r).feTcpAck = c.peer.ack := by
  rw [← h.peer]
  rfl

/-! ### The function of the flow table on a linked pair -/

theorem flowInitClose_sees : Sees env i r (flowInitClose env s i) c.close := by
  have hown := h.orOwn fun f => { f with dead := true }
  unfold flowInitClose
  dsimp only
  rw [hown.linked.rflow]
  exact hown.orPeer fun f => { f with dead := true }

theorem tcpEstablish_sees : Sees env i r (tcpEstablish s i r) c.establish :=
  (h.orPeer fun f => { f with established := true }).orOwn fun f => { f with establishedR := true }

theorem rstIgnored_eq : rstIgnored env s i tcph = c.ignores tcph env.vrUncondCloseFlowOnTcpRst := by
  unfold rstIgnored Conn.ignores
  rw [h.linked.out]
  dsimp only
  rw [h.peerFlags, h.peerSeq, h.peerAck]

theorem tcpDigestRst_sees :
    Sees env i r (tcpDigestRst env s i tcph) (c.rst tcph env.vrUncondCloseFlowOnTcpRst) := by
  unfold tcpDigestRst Conn.rst
  rw [rstIgnored_eq h]
  split_ifs
  · exact h
  · have hown := h.orOwn fun f => { f with rst := true }
    dsimp only
    rw [hown.linked.out]
    exact flowInitClose_sees (hown.orPeer fun f => { f with rst := true })

theorem tcpDigestSyn_sees : Sees env i r (tcpDigestSyn env s i tcph) (c.syn tcph) := by
  have hown := (h.setSeq tcph.tcpSeq).orOwn fun f => { f with syn := true }
  have hsyn : Sees env i r _ (c.noteSyn tcph) := hown.orPeer fun f => { f with synR := true }
  unfold tcpDigestSyn Conn.syn
  dsimp only
  rw [hown.linked.out]
  dsimp only
  rw [hsyn.flags, hsyn.peerSeq]
  split_ifs
  · exact tcpEstablish_sees hsyn
  · exact hsyn

theorem tcpDigestFin_sees : Sees env i r (tcpDigestFin env s i tcph) (c.fin tcph) := by
  have hown := (h.setSeq tcph.finSeq).orOwn fun f => { f with fin := true }
  unfold tcpDigestFin
  dsimp only
  rw [hown.linked.out]
  exact hown.orPeer fun f => { f with finR := true }

theorem tcpDigestAck_sees : Sees env i r (tcpDigestAck env s i tcph) (c.acked tcph) := by
  have hhalf : Sees env i r _ c.halfClose := h.orPeer fun f => { f with halfClose := true }
  unfold tcpDigestAck Conn.acked Conn.finAcked
  dsimp only
  rw [h.linked.out, h.flags]
  dsimp only
  rw [h.peerSeq, hhalf.flags]
  split_ifs
  · exact flowInitClose_sees hhalf
  · exact hhalf
  · exact tcpEstablish_sees h
  · exact h
  · exact h

/-- **On a linked pair `vr_flow_tcp_digest` is the step of a connection.** -/
theorem flowTcpDigest_sees (tcph : TcpHdr) :
    Sees env i r (flowTcpDigest env s i (some tcph))
      (c.digest tcph env.vrUncondCloseFlowOnTcpRst) := by
  unfold flowTcpDigest
  dsimp only
  have hack : Sees env i r
      (if tcph.flagAck then s.setEntry i fun e => { e with feTcpAck := tcph.tcpAck } else s)
      (c.noteAck tcph) := by
    unfold Conn.noteAck
    split_ifs
    · exact h.setAck tcph.tcpAck
    · exact h
  generalize (if tcph.flagAck = true then _ else s) = s₁ at hack ⊢
  unfold Conn.digest Conn.sent
  split_ifs
  · exact tcpDigestRst_sees hack
  · exact tcpDigestAck_sees (tcpDigestSyn_sees hack)
  · exact tcpDigestAck_sees (tcpDigestFin_sees hack)
  · exact tcpDigestAck_sees hack

end Vrouter.Flow
