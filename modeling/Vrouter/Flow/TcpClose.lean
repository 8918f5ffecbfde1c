import Vrouter.Flow.Tcp
import Vrouter.Flow.Steps

/-! # How connections end

Segments of both directions run through a linked pair of entries.  The entries are dead when a reset
was accepted, or when both directions have sent a FIN that the other acknowledged: `Told` says what
the flags of the entries tell about the segments so far, and one segment keeps it.

The sequence number of a FIN is kept where that of a SYN is.  A SYN that follows an unacknowledged FIN
overwrites it, and an acknowledgement of the SYN is then taken for one of the FIN.

A reset that is ignored changes nothing if it carries no acknowledgement.  An acknowledgement is noted
before the reset is looked at, and decides which resets of the other direction are accepted. -/

namespace Vrouter.Flow

/-! ### Segments of a connection -/

inductive Side
  | fwd
  | rev
  deriving DecidableEq, Repr

def Side.other : Side → Side
  | fwd => rev
  | rev => fwd

@[simp] theorem Side.other_other (d : Side) : d.other.other = d := by cases d <;> rfl

theorem Side.eq_or_other (d d' : Side) : d' = d ∨ d' = d.other := by
  cases d <;> cases d' <;> simp [Side.other]

/-- A segment and the direction it was sent in. -/
abbrev Seg := Side × TcpHdr

/-- The segment is taken for a SYN. -/
def TcpHdr.isSyn (tcph : TcpHdr) : Bool := tcph.flagSyn && !tcph.flagRst

/-- The segment is taken for a FIN. -/
def TcpHdr.isFin (tcph : TcpHdr) : Bool := tcph.flagFin && !tcph.flagSyn && !tcph.flagRst

variable {env : Env} {idx : Side → ℕ} {s : FlowSys} {d : Side} {hist segs : List Seg} {tcph : TcpHdr}

/-- The segments run through the entries `idx .fwd` and `idx .rev`. -/
def digestAll (env : Env) (idx : Side → ℕ) (segs : List Seg) (s : FlowSys) : FlowSys :=
  segs.foldl (fun s seg => flowTcpDigest env s (idx seg.1) (some seg.2)) s

theorem digestAll_concat (segs : List Seg) (d : Side) (tcph : TcpHdr) :
    digestAll env idx (segs ++ [(d, tcph)]) s =
      flowTcpDigest env (digestAll env idx segs s) (idx d) (some tcph) := by
  simp [digestAll]

/-- The TCP state of a direction. -/
def FlowSys.tcb (s : FlowSys) (idx : Side → ℕ) (d : Side) : Tcb := (s.entry (idx d)).tcb

/-- The connection as a segment of the direction `d` finds it. -/
def FlowSys.conn (s : FlowSys) (idx : Side → ℕ) (d : Side) : Conn :=
  ⟨s.tcb idx d, s.tcb idx d.other⟩

/-- The entries of the two directions are linked. -/
def LinkedPair (env : Env) (idx : Side → ℕ) (s : FlowSys) : Prop :=
  Linked env s (idx .fwd) (idx .rev)

theorem LinkedPair.sees (h : LinkedPair env idx s) (d : Side) :
    Sees env (idx d) (idx d.other) s (s.conn idx d) := by
  cases d with
  | fwd => exact ⟨h, rfl, rfl⟩
  | rev => exact ⟨h.symm, rfl, rfl⟩

theorem LinkedPair.digest (h : LinkedPair env idx s) (d : Side) (tcph : TcpHdr) :
    LinkedPair env idx (flowTcpDigest env s (idx d) (some tcph)) ∧
      (flowTcpDigest env s (idx d) (some tcph)).conn idx d =
        (s.conn idx d).digest tcph env.vrUncondCloseFlowOnTcpRst := by
  have hsees := flowTcpDigest_sees (h.sees d) tcph
  refine ⟨?_, ?_⟩
  · cases d with
    | fwd => exact hsees.linked
    | rev => exact hsees.linked.symm
  · exact congrArg₂ Conn.mk hsees.own hsees.peer

theorem LinkedPair.digestAll (h : LinkedPair env idx s) (segs : List Seg) :
    LinkedPair env idx (digestAll env idx segs s) := by
  induction segs using List.reverseRecOn with
  | nil => exact h
  | append_singleton segs seg ih =>
    rw [digestAll_concat]
    exact (ih.digest seg.1 seg.2).1

/-! ### What a segment changes -/

namespace Conn

variable {c : Conn} {uncond : Bool}

/-- The segment acknowledges the FIN of the other direction. -/
def Acks (c : Conn) (tcph : TcpHdr) : Prop :=
  tcph.flagAck = true ∧ tcph.tcpAck = (c.peer.seq + 1) % 2 ^ 32 ∧ c.own.flags.finR = true

/-- What the end of the function can do. -/
theorem acked_cases (c : Conn) (tcph : TcpHdr) :
    c.acked tcph = c ∨ c.acked tcph = c.establish ∨ c.Acks tcph ∧ c.acked tcph = c.finAcked := by
  unfold acked
  split_ifs with hlook hacks hseq
  · exact .inr (.inr ⟨⟨(Bool.and_eq_true_iff.mp hlook).2, hacks.1, hacks.2⟩, rfl⟩)
  · exact .inr (.inl rfl)
  · exact .inl rfl
  · exact .inl rfl

theorem syn_cases (c : Conn) (tcph : TcpHdr) :
    c.syn tcph = c.noteSyn tcph ∨ c.syn tcph = (c.noteSyn tcph).establish := by
  unfold syn
  split_ifs
  · exact .inr rfl
  · exact .inl rfl

/-- What a segment does to the part of the state that closing is about. -/
structure Closing (c c' : Conn) (tcph : TcpHdr) (uncond : Bool) : Prop where
  finR : c'.own.flags.finR = c.own.flags.finR
  peerFinR : c'.peer.flags.finR = true → c.peer.flags.finR = true ∨ tcph.isFin = true
  seq : c'.own.seq = c.own.seq ∨ tcph.isSyn = true ∨ tcph.isFin = true
  finSeq : tcph.isFin = true → c'.own.seq = tcph.finSeq
  peerSeq : c'.peer.seq = c.peer.seq
  half : c'.own.flags.halfClose = c.own.flags.halfClose
  peerHalf : c'.peer.flags.halfClose = true → c.peer.flags.halfClose = true ∨ c.Acks tcph
  dead : c'.own.flags.dead = true → c.own.flags.dead = true ∨
    (tcph.flagRst = true ∧ c.ignores tcph uncond = false) ∨
      (c.own.flags.halfClose = true ∧ c.Acks tcph)
  both : c.own.flags.dead = c.peer.flags.dead → c'.own.flags.dead = c'.peer.flags.dead

variable {c' : Conn}

theorem Closing.of_noteAck (h : Closing (c.noteAck tcph) c' tcph uncond) :
    Closing c c' tcph uncond := by
  obtain ⟨own, peer⟩ := c
  unfold noteAck setAck at h
  split_ifs at h
  · exact ⟨h.finR, h.peerFinR, h.seq, h.finSeq, h.peerSeq, h.half, h.peerHalf, h.dead, h.both⟩
  · exact h

theorem rst_closing (hrst : tcph.flagRst = true) : Closing c (c.rst tcph uncond) tcph uncond := by
  have hfin : tcph.isFin = false := by simp [TcpHdr.isFin, hrst]
  unfold rst
  split_ifs with hign
  · exact ⟨rfl, .inl, .inl rfl, by simp [hfin], rfl, rfl, .inl, .inl, id⟩
  · exact ⟨rfl, .inl, .inl rfl, by simp [hfin], rfl, rfl, .inl,
      fun _ => .inr (.inl ⟨hrst, by simpa using hign⟩), fun _ => rfl⟩

theorem acked_closing {c₁ : Conn} (h : Closing c c₁ tcph uncond) :
    Closing c (c₁.acked tcph) tcph uncond := by
  have hacks : c₁.Acks tcph → c.Acks tcph := by
    rintro ⟨hack, hseq, hfin⟩
    rw [h.peerSeq] at hseq
    rw [h.finR] at hfin
    exact ⟨hack, hseq, hfin⟩
  obtain hsame | hest | ⟨hA, hfin⟩ := acked_cases c₁ tcph
  · rw [hsame]
    exact h
  · rw [hest]
    exact ⟨h.finR, h.peerFinR, h.seq, h.finSeq, h.peerSeq, h.half, h.peerHalf, h.dead, h.both⟩
  · rw [hfin]
    unfold finAcked
    split_ifs with hhalf
    · refine ⟨h.finR, h.peerFinR, h.seq, h.finSeq, h.peerSeq, h.half, fun _ => .inr (hacks hA),
        fun _ => .inr (.inr ⟨?_, hacks hA⟩), fun _ => rfl⟩
      rw [← h.half]
      exact hhalf
    · exact ⟨h.finR, h.peerFinR, h.seq, h.finSeq, h.peerSeq, h.half, fun _ => .inr (hacks hA),
        h.dead, h.both⟩

-- for any number: comparing states would compute that of the FIN
theorem finAt_closing {seq : ℕ} (hfin : tcph.isFin = true) (hseq : seq = tcph.finSeq) :
    Closing c (c.finAt seq) tcph uncond :=
  ⟨rfl, fun _ => .inr hfin, .inr (.inr hfin), fun _ => hseq, rfl, rfl, .inl, .inl, id⟩

theorem sent_closing (hrst : tcph.flagRst = false) : Closing c (c.sent tcph) tcph uncond := by
  unfold sent
  split_ifs with hsyn hfin
  · have hisSyn : tcph.isSyn = true := by simp [TcpHdr.isSyn, hsyn, hrst]
    have hisFin : tcph.isFin = false := by simp [TcpHdr.isFin, hsyn]
    obtain h | h := syn_cases c tcph
    all_goals
      rw [h]
      exact ⟨rfl, .inl, .inr (.inl hisSyn), by simp [hisFin], rfl, rfl, .inl, .inl, id⟩
  · have hisFin : tcph.isFin = true := by simp [TcpHdr.isFin, hsyn, hfin, hrst]
    exact finAt_closing hisFin rfl
  · have hisFin : tcph.isFin = false := by simp [TcpHdr.isFin, hfin]
    exact ⟨rfl, .inl, .inl rfl, by simp [hisFin], rfl, rfl, .inl, .inl, id⟩

theorem digest_closing (c : Conn) (tcph : TcpHdr) (uncond : Bool) :
    Closing c (c.digest tcph uncond) tcph uncond := by
  unfold digest
  split_ifs with hrst
  · exact (rst_closing hrst).of_noteAck
  · exact (acked_closing (sent_closing (by simpa using hrst))).of_noteAck

end Conn

/-! ### What the flags tell -/

/-- A FIN with this sequence number was sent. -/
def SentFin (d : Side) (hist : List Seg) (q : ℕ) : Prop :=
  ∃ fin, fin.isFin = true ∧ fin.finSeq = q ∧ (d, fin) ∈ hist

/-- A FIN was sent, and later the other direction sent an acknowledgement of it. -/
def FinAcked (d : Side) (hist : List Seg) : Prop :=
  ∃ fin ack, fin.isFin = true ∧ ack.flagAck = true ∧ ack.tcpAck = (fin.finSeq + 1) % 2 ^ 32 ∧
    [(d, fin), (d.other, ack)].Sublist hist

variable {q : ℕ} {seg : Seg}

theorem SentFin.concat (h : SentFin d hist q) : SentFin d (hist ++ [seg]) q := by
  obtain ⟨fin, hfin, hq, hmem⟩ := h
  exact ⟨fin, hfin, hq, List.mem_append_left _ hmem⟩

theorem FinAcked.concat (h : FinAcked d hist) : FinAcked d (hist ++ [seg]) := by
  obtain ⟨fin, ack, hfin, hack, hnum, hsub⟩ := h
  exact ⟨fin, ack, hfin, hack, hnum, hsub.trans (List.sublist_append_left _ _)⟩

theorem SentFin.acked (h : SentFin d hist q) (hack : tcph.flagAck = true)
    (hnum : tcph.tcpAck = (q + 1) % 2 ^ 32) : FinAcked d (hist ++ [(d.other, tcph)]) := by
  obtain ⟨fin, hfin, rfl, hmem⟩ := h
  exact ⟨fin, tcph, hfin, hack, hnum, (List.singleton_sublist.mpr hmem).append (.refl _)⟩

/-- What the entries tell about the segments so far: a direction that has been told of a FIN can find
its sequence number, unless it was acknowledged, and one that is half closed was acknowledged. -/
structure Told (hist : List Seg) (b : Side → Tcb) : Prop where
  fin : ∀ d, (b d.other).flags.finR = true → FinAcked d hist ∨ SentFin d hist (b d).seq
  half : ∀ d, (b d).flags.halfClose = true → FinAcked d hist

/-- A direction sends no SYN while a FIN of it waits for its acknowledgement. -/
def SynsInOrder (hist : List Seg) : Prop :=
  ∀ pre d tcph post, hist = pre ++ (d, tcph) :: post → tcph.isSyn = true →
    ∀ q, SentFin d pre q → FinAcked d pre

theorem SynsInOrder.before (h : SynsInOrder (hist ++ [seg])) : SynsInOrder hist := by
  intro pre d tcph post heq
  exact h pre d tcph (post ++ [seg]) (by rw [heq]; simp)

/-- An acknowledgement that the connection takes for one of a FIN is one. -/
theorem Told.acks {b : Side → Tcb} (h : Told hist b)
    (hacks : Conn.Acks ⟨b d, b d.other⟩ tcph) : FinAcked d.other (hist ++ [(d, tcph)]) := by
  obtain ⟨hack, hnum, hfin⟩ := hacks
  have hown : (b d.other.other).flags.finR = true := by rwa [Side.other_other]
  obtain hdone | hsent := h.fin d.other hown
  · exact hdone.concat
  · have hacked := hsent.acked hack hnum
    rwa [Side.other_other] at hacked

theorem Told.step {b b' : Side → Tcb} {uncond : Bool} (h : Told hist b)
    (hc : Conn.Closing ⟨b d, b d.other⟩ ⟨b' d, b' d.other⟩ tcph uncond)
    (hsyn : tcph.isSyn = true → ∀ q, SentFin d hist q → FinAcked d hist) :
    Told (hist ++ [(d, tcph)]) b' := by
  refine ⟨fun d' hfin => ?_, fun d' hhalf => ?_⟩
  · obtain rfl | rfl := Side.eq_or_other d d'
    · by_cases hisFin : tcph.isFin = true
      · exact .inr ⟨tcph, hisFin, (hc.finSeq hisFin).symm, by simp⟩
      · have hold := (hc.peerFinR hfin).resolve_right hisFin
        obtain hdone | hsent := h.fin _ hold
        · exact .inl hdone.concat
        · obtain hseq | hisSyn | hisFin' := hc.seq
          · refine .inr ?_
            have hseq' : (b' d').seq = (b d').seq := hseq
            rw [hseq']
            exact hsent.concat
          · exact .inl (hsyn hisSyn _ hsent).concat
          · exact absurd hisFin' hisFin
    · rw [Side.other_other] at hfin
      have hseq : (b' d.other).seq = (b d.other).seq := hc.peerSeq
      have hold : (b d.other.other).flags.finR = true := by
        rw [Side.other_other]
        exact hc.finR ▸ hfin
      rw [hseq]
      exact (h.fin _ hold).imp FinAcked.concat SentFin.concat
  · obtain rfl | rfl := Side.eq_or_other d d'
    · exact (h.half _ (hc.half ▸ hhalf)).concat
    · obtain hold | hacks := hc.peerHalf hhalf
      · exact (h.half _ hold).concat
      · exact h.acks hacks

/-! ### Dead connections -/

/-- A reset was accepted on the way. -/
def RstAccepted (env : Env) (idx : Side → ℕ) (segs : List Seg) (s : FlowSys) : Prop :=
  ∃ pre d tcph post, segs = pre ++ (d, tcph) :: post ∧ tcph.flagRst = true ∧
    rstIgnored env (digestAll env idx pre s) (idx d) tcph = false

theorem RstAccepted.concat (h : RstAccepted env idx segs s) : RstAccepted env idx (segs ++ [seg]) s := by
  obtain ⟨pre, d, tcph, post, rfl, hrst⟩ := h
  exact ⟨pre, d, tcph, post ++ [seg], by simp, hrst⟩

/-- Both directions have sent a FIN, and acknowledged that of the other. -/
def BothAcked (hist : List Seg) : Prop := ∀ d, FinAcked d hist

/-- The entries are linked and open; `before` are the segments they saw until then. -/
structure Opened (env : Env) (idx : Side → ℕ) (before : List Seg) (s : FlowSys) : Prop where
  linked : LinkedPair env idx s
  fin : ∀ d, (s.tcb idx d.other).flags.finR = true → SentFin d before (s.tcb idx d).seq
  half : ∀ d, (s.tcb idx d).flags.halfClose = false
  dead : ∀ d, (s.tcb idx d).flags.dead = false

/-- The invariant of a run. -/
structure ClosedWell (env : Env) (idx : Side → ℕ) (before segs : List Seg) (s : FlowSys) : Prop where
  told : Told (before ++ segs) ((digestAll env idx segs s).tcb idx)
  dead : ∀ d, ((digestAll env idx segs s).tcb idx d).flags.dead = true →
    RstAccepted env idx segs s ∨ BothAcked (before ++ segs)
  both : ∀ d, ((digestAll env idx segs s).tcb idx d).flags.dead =
    ((digestAll env idx segs s).tcb idx d.other).flags.dead

variable {before : List Seg}

theorem Opened.start (h : Opened env idx before s) : ClosedWell env idx before [] s where
  told := by
    rw [List.append_nil]
    refine ⟨fun d hfin => .inr (h.fin d hfin), fun d hhalf => ?_⟩
    have hopen := h.half d
    rw [show (s.tcb idx d).flags.halfClose = true from hhalf] at hopen
    simp at hopen
  dead := fun d hdead => by
    have hopen := h.dead d
    rw [show (s.tcb idx d).flags.dead = true from hdead] at hopen
    simp at hopen
  both := fun d => (h.dead d).trans (h.dead d.other).symm

theorem ClosedWell.step (hlinked : LinkedPair env idx s) (h : ClosedWell env idx before segs s)
    (hsyn : tcph.isSyn = true → ∀ q, SentFin d (before ++ segs) q → FinAcked d (before ++ segs)) :
    ClosedWell env idx before (segs ++ [(d, tcph)]) s := by
  have hlinked' := hlinked.digestAll segs
  obtain ⟨-, hconn⟩ := hlinked'.digest d tcph
  have hclosing := ((digestAll env idx segs s).conn idx d).digest_closing tcph
    env.vrUncondCloseFlowOnTcpRst
  rw [← hconn] at hclosing
  -- a death on this side: the three ways of `Closing.dead`
  have hdead : ∀ (hd : ((flowTcpDigest env (digestAll env idx segs s) (idx d) (some tcph)).tcb
      idx d).flags.dead = true),
      RstAccepted env idx (segs ++ [(d, tcph)]) s ∨ BothAcked (before ++ (segs ++ [(d, tcph)])) := by
    intro hd
    rw [← List.append_assoc]
    obtain hold | ⟨hrst, hign⟩ | ⟨hhalf, hacks⟩ := hclosing.dead hd
    · exact (h.dead d hold).imp RstAccepted.concat fun hboth d' => (hboth d').concat
    · rw [← rstIgnored_eq (hlinked'.sees d)] at hign
      exact .inl ⟨segs, d, tcph, [], rfl, hrst, hign⟩
    · refine .inr fun d' => ?_
      obtain rfl | rfl := Side.eq_or_other d d'
      · exact (h.told.half _ hhalf).concat
      · exact h.told.acks hacks
  have hboth := hclosing.both (h.both d)
  refine ⟨?_, fun d' hd' => ?_, fun d' => ?_⟩
  · rw [digestAll_concat, ← List.append_assoc]
    exact h.told.step hclosing hsyn
  · rw [digestAll_concat] at hd'
    obtain rfl | rfl := Side.eq_or_other d d'
    · exact hdead hd'
    · exact hdead (hboth.trans hd')
  · rw [digestAll_concat]
    obtain rfl | rfl := Side.eq_or_other d d'
    · exact hboth
    · rw [Side.other_other]
      exact hboth.symm

theorem Opened.closedWell (h : Opened env idx before s) (segs : List Seg)
    (hsyn : SynsInOrder (before ++ segs)) : ClosedWell env idx before segs s := by
  induction segs using List.reverseRecOn with
  | nil => exact h.start
  | append_singleton segs seg ih =>
    rw [← List.append_assoc] at hsyn
    exact (ih hsyn.before).step h.linked (hsyn _ _ _ [] rfl)

/-- **Connections end as they should**: for every sequence of segments of a linked pair, the entries
are dead only if a reset was accepted or each direction has sent a FIN that the other acknowledged,
and they are dead together. -/
theorem dead_sound (h : Opened env idx before s) (segs : List Seg)
    (hsyn : SynsInOrder (before ++ segs)) :
    ((∃ d, ((digestAll env idx segs s).tcb idx d).flags.dead = true) →
      RstAccepted env idx segs s ∨ ∀ d, FinAcked d (before ++ segs)) ∧
    ((digestAll env idx segs s).tcb idx .fwd).flags.dead =
      ((digestAll env idx segs s).tcb idx .rev).flags.dead := by
  have hclosed := h.closedWell segs hsyn
  refine ⟨?_, hclosed.both .fwd⟩
  rintro ⟨d, hdead⟩
  exact hclosed.dead d hdead

/-- Two entries that are linked. -/
def pairSys : FlowSys :=
  { FlowSys.init smallEnv with
    table.tbl.hentry := fun i => ⟨none, 0, 0, .onlyValid,
      { feRflow := 1 - i, feFlags := { rflowValid := true } }⟩ }

def pairIdx : Side → ℕ
  | .fwd => 0
  | .rev => 1

theorem pairSys_opened : Opened smallEnv pairIdx [] pairSys where
  linked := ⟨by decide, by decide, by decide⟩
  fin := fun d hfin => by cases d <;> simp [FlowSys.tcb, FlowSys.entry, pairSys, FlowEntry.tcb] at hfin
  half := fun d => by cases d <;> rfl
  dead := fun d => by cases d <;> rfl

/-- A segment without data. -/
def bare (ack syn fin : Bool) (tcpSeq tcpAck : ℕ) : TcpHdr := ⟨ack, false, syn, fin, tcpSeq, tcpAck, 20, 5⟩

/-- Both directions send a FIN. -/
def farewell : List Seg :=
  [(.fwd, bare false false true 500 0), (.rev, bare true false true 900 501),
    (.fwd, bare true false false 501 901)]

theorem dead_sound_farewell :
    ((digestAll smallEnv pairIdx farewell pairSys).tcb pairIdx .fwd).flags.dead = true ∧
      (RstAccepted smallEnv pairIdx farewell pairSys ∨ ∀ d, FinAcked d farewell) := by
  have hdead : ((digestAll smallEnv pairIdx farewell pairSys).tcb pairIdx .fwd).flags.dead = true := by
    decide +kernel
  refine ⟨hdead, (dead_sound pairSys_opened farewell ?_).1 ⟨.fwd, hdead⟩⟩
  intro pre d tcph post heq hsyn
  have hmem : (d, tcph) ∈ farewell := by
    change farewell = _ at heq
    rw [heq]
    simp
  have hnone : ∀ seg ∈ farewell, seg.2.isSyn = false := by decide
  have := hnone _ hmem
  simp_all

/-- The FIN of the first direction is followed by a SYN, and only the SYN is acknowledged. -/
def farewellSyn : List Seg :=
  [(.fwd, bare false false true 500 0), (.fwd, bare false true false 100 0),
    (.rev, bare true false true 900 101), (.fwd, bare true false false 501 901)]

/-- An acknowledgement of the SYN closes the connection. -/
theorem syn_acked_as_fin :
    Opened smallEnv pairIdx [] pairSys ∧
      ((digestAll smallEnv pairIdx farewellSyn pairSys).tcb pairIdx .fwd).flags.dead = true ∧
      ¬ RstAccepted smallEnv pairIdx farewellSyn pairSys ∧ ¬ FinAcked .fwd farewellSyn := by
  refine ⟨pairSys_opened, by decide +kernel, ?_, ?_⟩
  · rintro ⟨pre, d, tcph, post, heq, hrst, -⟩
    have hmem : (d, tcph) ∈ farewellSyn := by
      rw [heq]
      simp
    have hnone : ∀ seg ∈ farewellSyn, seg.2.flagRst = false := by decide
    have := hnone _ hmem
    simp_all
  · rintro ⟨fin, ack, hfin, hack, hnum, hsub⟩
    have hfins : ∀ seg ∈ farewellSyn, seg.1 = .fwd → seg.2.isFin = true → seg.2.finSeq = 500 := by
      decide
    have hacks : ∀ seg ∈ farewellSyn, seg.1 = .rev → seg.2.flagAck = true → seg.2.tcpAck = 101 := by
      decide
    have hq := hfins _ (hsub.subset List.mem_cons_self) rfl hfin
    have hn := hacks _ (hsub.subset (List.mem_cons_of_mem _ List.mem_cons_self)) rfl hack
    rw [hq, hn] at hnum
    omega

/-! ### Resets that are ignored -/

/-- Resets of one direction, each of which is ignored. -/
def AllIgnored (env : Env) (i : ℕ) : List TcpHdr → FlowSys → Prop
  | [], _ => True
  | tcph :: l, s =>
    tcph.flagRst = true ∧ rstIgnored env s i tcph = true ∧
      AllIgnored env i l (flowTcpDigest env s i (some tcph))

/-- The segments of one direction, one after the other. -/
def digestOf (env : Env) (i : ℕ) (l : List TcpHdr) (s : FlowSys) : FlowSys :=
  l.foldl (fun s tcph => flowTcpDigest env s i (some tcph)) s

/-- The acknowledgement number that segments leave in an entry: that of the last one with ACK. -/
def noted (l : List TcpHdr) (ack : ℕ) : ℕ :=
  l.foldl (fun ack tcph => if tcph.flagAck then tcph.tcpAck else ack) ack

def FlowEntry.noteAcks (l : List TcpHdr) (e : FlowEntry) : FlowEntry :=
  { e with feTcpAck := noted l e.feTcpAck }

theorem keepsLink_noteAcks (l : List TcpHdr) : KeepsLink (FlowEntry.noteAcks l) := fun _ => ⟨rfl, rfl⟩

variable {i r : ℕ}

/-- Whether a reset is ignored is a matter of the other entry. -/
theorem rstIgnored_setAck (hlinked : Linked env s i r) (ack : ℕ) :
    rstIgnored env (s.setEntry i fun e => { e with feTcpAck := ack }) i tcph =
      rstIgnored env s i tcph := by
  have hsees : Sees env i r s ⟨(s.entry i).tcb, (s.entry r).tcb⟩ := ⟨hlinked, rfl, rfl⟩
  rw [rstIgnored_eq hsees, rstIgnored_eq (hsees.setAck ack)]
  rfl

theorem flowTcpDigest_ignored (hlinked : Linked env s i r) (hrst : tcph.flagRst = true)
    (hign : rstIgnored env s i tcph = true) : flowTcpDigest env s i (some tcph) =
      s.setEntry i (.noteAcks [tcph]) := by
  unfold flowTcpDigest FlowEntry.noteAcks noted
  dsimp only
  rw [if_pos hrst]
  unfold tcpDigestRst
  split_ifs with hack hign'
  · simp [hack]
  · exact absurd ((rstIgnored_setAck hlinked _).trans hign) hign'
  · exact (setEntry_eq_self _ (by simp [hack])).symm

/-- **Ignored resets** change one number: the acknowledgement of the last one that has ACK stays. -/
theorem digestOf_ignored (hlinked : Linked env s i r) (l : List TcpHdr)
    (hign : AllIgnored env i l s) : digestOf env i l s =
      s.setEntry i (.noteAcks l) := by
  induction l generalizing s with
  | nil => exact (setEntry_eq_self _ rfl).symm
  | cons tcph l ih =>
    obtain ⟨hrst, hone, hrest⟩ := hign
    have hfirst := flowTcpDigest_ignored hlinked hrst hone
    rw [hfirst] at hrest
    have hrest' := ih (hlinked.setEntry (keepsLink_noteAcks _)) hrest
    unfold digestOf
    rw [List.foldl_cons, hfirst]
    refine hrest'.trans ?_
    rw [setEntry_setEntry]
    rfl

/-- The ignored resets leave the acknowledgement number as it is. -/
def NothingNew (s : FlowSys) (i : ℕ) (l : List TcpHdr) : Prop :=
  noted l (s.entry i).feTcpAck = (s.entry i).feTcpAck

instance (s : FlowSys) (i : ℕ) (l : List TcpHdr) : Decidable (NothingNew s i l) :=
  inferInstanceAs (Decidable (_ = _))

theorem digestOf_ignored_eq_self_iff (hlinked : Linked env s i r) (l : List TcpHdr)
    (hign : AllIgnored env i l s) : digestOf env i l s = s ↔ NothingNew s i l := by
  rw [digestOf_ignored hlinked l hign]
  constructor
  · intro hsame
    have hack := congrArg (fun s => (s.entry i).feTcpAck) hsame
    rwa [entry_setEntry_same] at hack
  · intro hnew
    refine setEntry_eq_self _ ?_
    rw [FlowEntry.noteAcks, hnew]

/-- A reset of the other direction, without ACK, is judged by the number that is kept. -/
theorem rstIgnored_digestOf_iff (hlinked : Linked env s i r) (l : List TcpHdr)
    (hign : AllIgnored env i l s) :
    (∀ tcph, tcph.flagRst = true →
        rstIgnored env (digestOf env i l s) r tcph = rstIgnored env s r tcph) ↔ NothingNew s i l := by
  constructor
  · intro hsame
    cases l with
    | nil => rfl
    | cons first l =>
      have hcond : env.vrUncondCloseFlowOnTcpRst = false := by
        by_contra huncond
        have hone := hign.2.1
        unfold rstIgnored at hone
        rw [if_pos (by simpa using huncond)] at hone
        cases hone
      have hsees : Sees env r i s ⟨(s.entry r).tcb, (s.entry i).tcb⟩ := ⟨hlinked.symm, rfl, rfl⟩
      have hkept := (hsees.symm.setOwn (keepsLink_noteAcks (first :: l))).symm
      rw [← digestOf_ignored hlinked _ hign] at hkept
      have hreset := hsame ⟨false, true, false, false, (s.entry i).feTcpAck, 0, 20, 5⟩ rfl
      rw [rstIgnored_eq hsees, rstIgnored_eq hkept, hcond] at hreset
      simp only [Conn.ignores, FlowEntry.tcb, FlowEntry.noteAcks, ne_eq, not_true, decide_false] at hreset
      exact (of_not_not (of_decide_eq_false hreset)).symm
  · intro hnew
    rw [(digestOf_ignored_eq_self_iff hlinked l hign).mpr hnew]
    exact fun _ _ => rfl

/-- The last acknowledgement that a direction sent. -/
def lastAck (d : Side) (segs : List Seg) : Option ℕ :=
  ((segs.filter fun seg => decide (seg.1 = d) && seg.2.flagAck).getLast?).map fun seg => seg.2.tcpAck

theorem lastAck_concat (d : Side) (segs : List Seg) (seg : Seg) :
    lastAck d (segs ++ [seg]) =
      if seg.1 = d ∧ seg.2.flagAck = true then some seg.2.tcpAck else lastAck d segs := by
  unfold lastAck
  rw [List.filter_append]
  by_cases h : seg.1 = d ∧ seg.2.flagAck = true
  · rw [if_pos h, List.filter_singleton, h.1, h.2]
    simp
  · have hnil : [seg].filter (fun seg => decide (seg.1 = d) && seg.2.flagAck) = [] := by
      simpa using h
    rw [if_neg h, hnil, List.append_nil]

namespace Conn

/-- The last acknowledgements of the two directions. -/
def acks (c : Conn) : ℕ × ℕ := (c.own.ack, c.peer.ack)

section

variable (c : Conn) (tcph : TcpHdr)

theorem acked_acks : (c.acked tcph).acks = c.acks := by
  obtain h | h | ⟨-, h⟩ := acked_cases c tcph
  · rw [h]
  · rw [h]
    rfl
  · rw [h]
    unfold finAcked
    split_ifs <;> rfl

theorem finAt_acks (seq : ℕ) : (c.finAt seq).acks = c.acks :=
  Prod.ext (show (c.finAt seq).own.ack = c.own.ack from rfl)
    (show (c.finAt seq).peer.ack = c.peer.ack from rfl)

theorem sent_acks : (c.sent tcph).acks = c.acks := by
  unfold sent
  split_ifs with hsyn hfin
  · obtain h | h := syn_cases c tcph <;>
      rw [h] <;> rfl
  · exact c.finAt_acks tcph.finSeq
  · rfl

theorem rst_acks (uncond : Bool) : (c.rst tcph uncond).acks = c.acks := by
  unfold rst
  split_ifs <;> rfl

theorem digest_acks (uncond : Bool) : (c.digest tcph uncond).acks =
    (if tcph.flagAck then tcph.tcpAck else c.own.ack, c.peer.ack) := by
  have hnote : (c.noteAck tcph).acks =
      (if tcph.flagAck then tcph.tcpAck else c.own.ack, c.peer.ack) := by
    unfold noteAck
    split_ifs <;> rfl
  rw [← hnote]
  unfold digest
  split_ifs
  · exact rst_acks _ tcph uncond
  · exact (acked_acks _ tcph).trans (sent_acks _ tcph)

end

end Conn

theorem digestAll_ack (hlinked : LinkedPair env idx s) (segs : List Seg) (d : Side) :
    ((digestAll env idx segs s).tcb idx d).ack = (lastAck d segs).getD (s.tcb idx d).ack := by
  induction segs using List.reverseRecOn with
  | nil => rfl
  | append_singleton segs seg ih =>
    obtain ⟨-, hconn⟩ := (hlinked.digestAll segs).digest seg.1 seg.2
    have hack := ((digestAll env idx segs s).conn idx seg.1).digest_acks seg.2
      env.vrUncondCloseFlowOnTcpRst
    rw [← hconn] at hack
    obtain ⟨hown, hpeer⟩ := Prod.mk.inj hack
    rw [digestAll_concat, lastAck_concat]
    obtain hd | hd := Side.eq_or_other seg.1 d
    · subst hd
      refine hown.trans ?_
      split_ifs with hflag hboth hboth
      · rfl
      · exact absurd ⟨rfl, hflag⟩ hboth
      · exact absurd hboth.2 hflag
      · exact ih
    · have hne : ¬ seg.1 = d := by
        rw [hd]
        cases seg.1 <;> simp [Side.other]
      rw [if_neg fun h => hne h.1, ← ih, hd]
      exact hpeer

/-- The reset does not acknowledge anything, or it acknowledges what the other direction last sent of
SYN and FIN, as far as that is known. -/
def AcksLast (s : FlowSys) (r : ℕ) (tcph : TcpHdr) : Prop :=
  tcph.flagAck = true → (s.entry r).feTcpFlags.syn = true →
    tcph.tcpAck = ((s.entry r).feTcpSeq + 1) % 2 ^ 32

theorem rst_accepted_iff (hlinked : Linked env s i r) (hseq : tcph.tcpSeq = (s.entry r).feTcpAck) :
    rstIgnored env s i tcph = false ↔
      env.vrUncondCloseFlowOnTcpRst = true ∨ AcksLast s r tcph := by
  unfold rstIgnored AcksLast
  rw [hlinked.out]
  by_cases huncond : env.vrUncondCloseFlowOnTcpRst = true
  · simp [huncond]
  · by_cases hsyn : (tcph.flagAck && (s.entry r).feTcpFlags.syn) = true
    · simp_all
    · simp_all

theorem Conn.digest_accepted {c : Conn} {uncond : Bool} (hrst : tcph.flagRst = true)
    (hacc : c.ignores tcph uncond = false) :
    (c.digest tcph uncond).own.flags.dead = true ∧ (c.digest tcph uncond).peer.flags.dead = true := by
  have hnote : (c.noteAck tcph).ignores tcph uncond = c.ignores tcph uncond := by
    unfold noteAck
    split_ifs <;> rfl
  unfold digest rst
  rw [if_pos hrst, hnote, hacc]
  exact ⟨rfl, rfl⟩

theorem LinkedPair.dead_of_accepted (hlinked : LinkedPair env idx s) (hrst : tcph.flagRst = true)
    (hacc : rstIgnored env s (idx d) tcph = false) (d' : Side) :
    ((flowTcpDigest env s (idx d) (some tcph)).tcb idx d').flags.dead = true := by
  rw [rstIgnored_eq (hlinked.sees d)] at hacc
  have hdead := Conn.digest_accepted hrst hacc
  rw [← (hlinked.digest d tcph).2] at hdead
  obtain rfl | rfl := Side.eq_or_other d d'
  · exact hdead.1
  · exact hdead.2

/-- **Resets that are ignored leave no trace** exactly if the last acknowledgement among them is the one
that the entry has: then the whole flow table is as before, and otherwise there are resets of the other
direction that are judged differently.  And a reset with the sequence number that the receiver last
acknowledged is accepted exactly if it acknowledges nothing, or the last SYN or FIN. -/
theorem ignored_reset_frame (hlinked : LinkedPair env idx s) (d : Side) :
    (∀ l, AllIgnored env (idx d) l s →
      (digestOf env (idx d) l s = s ↔ NothingNew s (idx d) l) ∧
      ((∀ tcph, tcph.flagRst = true → rstIgnored env (digestOf env (idx d) l s) (idx d.other) tcph =
        rstIgnored env s (idx d.other) tcph) ↔ NothingNew s (idx d) l)) ∧
    (∀ segs tcph, tcph.flagRst = true → lastAck d.other segs = some tcph.tcpSeq →
      (rstIgnored env (digestAll env idx segs s) (idx d) tcph = false ↔
        env.vrUncondCloseFlowOnTcpRst = true ∨
          AcksLast (digestAll env idx segs s) (idx d.other) tcph) ∧
      (rstIgnored env (digestAll env idx segs s) (idx d) tcph = false →
        ∀ d', ((flowTcpDigest env (digestAll env idx segs s) (idx d) (some tcph)).tcb
          idx d').flags.dead = true)) := by
  refine ⟨fun l hign => ?_, fun segs tcph hrst hlast => ?_⟩
  · have hpair := (hlinked.sees d).linked
    exact ⟨digestOf_ignored_eq_self_iff hpair l hign, rstIgnored_digestOf_iff hpair l hign⟩
  · have hlinked' := hlinked.digestAll segs
    have hkept := digestAll_ack hlinked segs d.other
    rw [hlast] at hkept
    exact ⟨rst_accepted_iff (hlinked'.sees d).linked hkept.symm, hlinked'.dead_of_accepted hrst⟩

/-- A connection is established and the first direction sends data. -/
def handshake : List Seg :=
  [(.fwd, bare false true false 100 0), (.rev, bare true true false 900 101),
    (.fwd, bare true false false 101 901), (.rev, bare true false false 901 151)]

/-- A reset without data. -/
def reset (ack : Bool) (tcpSeq tcpAck : ℕ) : TcpHdr := ⟨ack, true, false, false, tcpSeq, tcpAck, 20, 5⟩

/-- A reset with another sequence number changes nothing, one with the right number is accepted. -/
theorem ignored_reset_frame_handshake :
    (digestAll smallEnv pairIdx handshake pairSys).tcb pairIdx .fwd =
        ⟨{ syn := true, synR := true, established := true, establishedR := true }, 100, 901⟩ ∧
      digestOf smallEnv 0 [reset false 7 0] (digestAll smallEnv pairIdx handshake pairSys) =
        digestAll smallEnv pairIdx handshake pairSys ∧
      digestOf smallEnv 0 [reset true 7 77] (digestAll smallEnv pairIdx handshake pairSys) ≠
        digestAll smallEnv pairIdx handshake pairSys ∧
      rstIgnored smallEnv (digestAll smallEnv pairIdx handshake pairSys) 0 (reset false 151 0) =
        false := by
  obtain ⟨hframe, -⟩ := ignored_reset_frame (pairSys_opened.linked.digestAll handshake) .fwd
  obtain ⟨-, hacc⟩ := ignored_reset_frame pairSys_opened.linked .fwd
  have hquiet := (hframe [reset false 7 0] ⟨rfl, by decide +kernel, trivial⟩).1
  have hforged := (hframe [reset true 7 77] ⟨rfl, by decide +kernel, trivial⟩).1
  refine ⟨by decide +kernel, hquiet.mpr rfl, fun h => absurd (hforged.mp h) (by decide +kernel), ?_⟩
  exact (hacc handshake (reset false 151 0) rfl (by decide)).1.mpr
    (.inr fun hack => by simp [reset] at hack)

/-- The forged reset of the first direction is ignored, but its acknowledgement is kept, and makes a
reset of the second direction acceptable that was not.  A reset of the established connection with
the right sequence number is ignored because it acknowledges data. -/
theorem forged_reset_noted :
    rstIgnored smallEnv (digestAll smallEnv pairIdx handshake pairSys) 0 (reset true 7 77) = true ∧
      ((flowTcpDigest smallEnv (digestAll smallEnv pairIdx handshake pairSys) 0
        (some (reset true 7 77))).tcb pairIdx .fwd).ack = 77 ∧
      ((digestAll smallEnv pairIdx handshake pairSys).tcb pairIdx .fwd).ack = 901 ∧
      rstIgnored smallEnv (digestAll smallEnv pairIdx handshake pairSys) 1 (reset false 77 0) = true ∧
      rstIgnored smallEnv (flowTcpDigest smallEnv (digestAll smallEnv pairIdx handshake pairSys) 0
        (some (reset true 7 77))) 1 (reset false 77 0) = false ∧
      lastAck .rev handshake = some 151 ∧
      rstIgnored smallEnv (digestAll smallEnv pairIdx handshake pairSys) 0 (reset true 151 950) =
        true := by
  decide +kernel

end Vrouter.Flow
