import Vrouter.Nh.KindRuns
import Vrouter.Flow.Steps

/-! # Which member of an ECMP nexthop gets a packet

`nh_composite_ecmp` sends a packet to the member that the flow of the packet recorded.  If there is
none, or the recorded slot is empty, `nh_composite_ecmp_select_nh` looks for a member: the one that
the reverse flow came from, or the slot that the hash of the flow names, or, if that slot is empty,
one of the slots that are not, which `nh_composite_add` keeps in an array of their own.  The index of
the slot is recorded in the flow entry and then read from there.

The index is signed and has eight bits.  A packet is sent to a member that exists, and the flow
records which one, exactly if the number of the chosen member is one in eight bits as well, and the
index that the packet carries is the one of its flow (`nhCompositeEcmp_live`).  So nothing happens up
to 128 components; with more an index may turn negative, and the component array is read in front of
its beginning (`longEcmp_bounds`). -/

namespace Vrouter.Nh

open Vrouter.Lib Function
open Vrouter.Flow (FlowSys FlowEntry FlowKey VpType flowGetEntry toInt8)

/-! ### The choice of a member -/

/-- What `vr_inet_get_flow_key` and `vr_inet6_get_flow_key` return, with the key. -/
inductive KeyRet
  | formed (key : FlowKey × ℕ)
  | noFragEntry
  | icmpError
  | noMemory
  | failed

/-- A packet: its type, the key that a mask of key fields gives, and whether its transport header is
there. -/
structure EcmpPacket where
  vpType : VpType
  getFlowKey : ℕ → KeyRet
  transportHeaderValid : Bool := true

/-- The part of `struct vr_forwarding_md` that the choice reads and writes. -/
structure ForwardingMd where
  fmdFlowIndex : ℤ
  fmdEcmpNhIndex : ℤ
  fmdLabel : ℤ := -1
  deriving DecidableEq, Repr

/-- Why a packet is dropped. -/
inductive DropReason
  | invalidNh
  | icmpError
  | noMemory
  | noFragEntry
  deriving DecidableEq, Repr

/-- What `nh_composite_ecmp_select_nh` returns: 0, `NH_ECMP_PACKET_HELD`, the negative of a drop
reason, or another negative number. -/
inductive SelectRet
  | ok
  | held
  | reason (r : DropReason)
  | failed
  deriving DecidableEq, Repr

/-- What becomes of the packet. -/
inductive EcmpOutcome
  | output (member : ℕ)
  | held
  | dropped (reason : DropReason)
  deriving DecidableEq, Repr

/-- What the choice depends on outside of nexthops and packet: the flow table, its hash, the hash of
the Ethernet header and the VRF, the index of an interface, what `nh_validate_src` of a tunnel says
of a source, the assembler, and what the key of a fragment without entry holds. -/
structure EcmpEnv where
  flow : Flow.Env
  etherHash : ℕ
  vifIdx : VifPtr → ℕ
  tunnelSource : Nexthop → ℕ → Bool
  assembler : Bool
  staleKey : FlowKey × ℕ

/-- `(unsigned int)-1` -/
def noSrcInfo : ℕ := 2 ^ 32 - 1

variable (env : EcmpEnv)

def vrFlowGetRflowSrcInfo (sys : FlowSys) (fe : FlowEntry) : ℕ :=
  if fe.feFlags.rflowValid then
    match flowGetEntry env.flow sys fe.feRflow with
    | none => noSrcInfo
    | some r => (sys.entry r).feSrcInfo
  else noSrcInfo

/-- The test of one member in `nh_composite_ecmp_select_by_rflow`. -/
def comesFrom (o : Nexthop) (info : ℕ) : Run Bool :=
  if ¬ o.nhFlags.valid then pure false
  else if o.nhType = .tunnel ∧ o.nhValidateSrc.isSome ∧ env.tunnelSource o info then pure true
  else if o.nhType = .encap then
    match o.nhDevArr 0 with
    | none => .error .freed
    | some vif => pure (env.vifIdx vif = info)
  else pure false

/-- The loop of `nh_composite_ecmp_select_by_rflow` over the slots. -/
def selectByRflow (s : State) (c : Composite) (info : ℕ) : List ℕ → Run ℤ
  | [] => pure (-1)
  | i :: rest => do
    let x ← c.slot i
    match x.cnh with
    | none => selectByRflow s c info rest
    | some cnh => do
      let o ← s.load cnh
      let found ← comesFrom env o info
      if found then pure i else selectByRflow s c info rest

def nhCompositeEcmpSelectByRflow (s : State) (c : Composite) (info : ℕ) : Run ℤ :=
  selectByRflow env s c info (List.range c.cnt)

/-- `nh_component_ecmp[i]` -/
def Composite.activeSlot (c : Composite) (i : ℕ) : Run ComponentNh :=
  match (c.ecmpActive.getD [])[i]? with
  | some cnh => .ok cnh
  | none => .error .bounds

/-- The index that a hash leads to; `none` is the return in the middle. -/
def hashedIndex (c : Composite) (hash : ℕ) : Run (Option ℤ) := do
  let x ← c.slot (hash % c.cnt)
  if x.cnh = none ∧ c.ecmpCnt ≠ 0 then
    let y ← c.activeSlot (hash % c.ecmpCnt)
    if y.cnh = none then pure none else pure (some y.cnhEcmpIndex)
  else pure (some x.cnhEcmpIndex)

def vrFlowUpdateEcmpIndex (sys : FlowSys) (i : ℕ) (newIndex : ℤ) (md : ForwardingMd) :
    SelectRet × ForwardingMd × FlowSys :=
  if newIndex = -1 then (.failed, md, sys)
  else if (sys.entry i).feFlags.deleteMarked then (.failed, md, sys)
  else
    -- the compare-and-swap; the flow keeps its index if it is not the one of the packet any more
    let sys := sys.setEntry i fun fe =>
      { fe with feEcmpNhIndex :=
          if fe.feEcmpNhIndex = md.fmdEcmpNhIndex then toInt8 newIndex else fe.feEcmpNhIndex }
    (.ok, { md with fmdEcmpNhIndex := (sys.entry i).feEcmpNhIndex }, sys)

/-- The hash of a packet without a flow, or how the search ends without one. -/
def packetHash (c : Composite) (pkt : EcmpPacket) : Except SelectRet ℕ :=
  if pkt.vpType ≠ .ip ∧ pkt.vpType ≠ .ip6 then .ok env.etherHash
  else
    match pkt.getFlowKey ((c.ecmpConfigHash >>> 8) &&& 0x1F) with
    | .formed key => .ok (env.flow.hash key)
    | .noFragEntry =>
      if ¬ pkt.transportHeaderValid ∧ env.assembler then .error .held
      else .ok (env.flow.hash env.staleKey)
    | .icmpError => .error (.reason .icmpError)
    | .noMemory => .error (.reason .noMemory)
    | .failed => .error .failed

/-- The index of the member that the reverse flow comes from, for a packet without one. -/
def rflowIndex (s : State) (c : Composite) (md : ForwardingMd) (sys : FlowSys) (fe : FlowEntry) :
    Run ℤ :=
  let info := vrFlowGetRflowSrcInfo env sys fe
  if md.fmdEcmpNhIndex = -1 ∧ info ≠ noSrcInfo then nhCompositeEcmpSelectByRflow env s c info
  else pure (-1)

/-- The index for a packet of a flow: that of the reverse flow, or else the one of the hash. -/
def flowIndex (s : State) (c : Composite) (md : ForwardingMd) (sys : FlowSys) (fe : FlowEntry) :
    Run (Option ℤ) := do
  let index ← rflowIndex env s c md sys fe
  if index = -1 then hashedIndex c (env.flow.hash (fe.feKey, fe.feKeyLen)) else pure (some index)

def nhCompositeEcmpSelectNh (s : State) (c : Composite) (pkt : EcmpPacket) (md : ForwardingMd)
    (sys : FlowSys) : Run (SelectRet × ForwardingMd × FlowSys) :=
  if c.cnt = 0 then pure (.failed, md, sys)
  else
    match flowGetEntry env.flow sys md.fmdFlowIndex with
    | some i => do
      match ← flowIndex env s c md sys (sys.entry i) with
      | none => pure (.failed, md, sys)
      | some index => pure (vrFlowUpdateEcmpIndex sys i index md)
    | none =>
      match packetHash env c pkt with
      | .error ret => pure (ret, md, sys)
      | .ok hash => do
        match ← hashedIndex c hash with
        | none => pure (.failed, md, sys)
        | some index => pure (.ok, { md with fmdEcmpNhIndex := toInt8 index }, sys)

/-- `nh_component_nh[i]` for an index with a sign. -/
def Composite.slotAt (c : Composite) (z : ℤ) : Run ComponentNh :=
  if z < 0 then .error .bounds else c.slot z.toNat

/-- The member that the packet names by itself. -/
def carriedMember (c : Composite) (md : ForwardingMd) : Run (Option ℕ) :=
  if 0 ≤ md.fmdEcmpNhIndex ∧ md.fmdEcmpNhIndex < c.cnt then do
    let x ← c.slotAt md.fmdEcmpNhIndex
    pure x.cnh
  else pure none

/-- The end of `nh_composite_ecmp`: the packet goes to the member. -/
def sendTo (nh : Nexthop) (c : Composite) (member : ℕ) (md : ForwardingMd) (sys : FlowSys) :
    Run (EcmpOutcome × ForwardingMd × FlowSys) :=
  if nh.nhFlags.compositeLuEcmp then pure (.output member, md, sys)
  else do
    let x ← c.slotAt md.fmdEcmpNhIndex
    pure (.output member, { md with fmdLabel := x.cnhLabel }, sys)

/-- `nh_composite_ecmp` from the choice of a member on. -/
def chooseMember (s : State) (nh : Nexthop) (c : Composite) (pkt : EcmpPacket) (md : ForwardingMd)
    (sys : FlowSys) : Run (EcmpOutcome × ForwardingMd × FlowSys) := do
  let (ret, md, sys) ← nhCompositeEcmpSelectNh env s c pkt md sys
  match ret with
  | .ok => do
    let x ← c.slotAt md.fmdEcmpNhIndex
    match x.cnh with
    | none => pure (.dropped .invalidNh, md, sys)
    | some member => sendTo nh c member md sys
  | .held => pure (.held, md, sys)
  | .reason r => pure (.dropped r, md, sys)
  | .failed => pure (.dropped .invalidNh, md, sys)

/-- `nh_composite_ecmp`, for a packet that comes with its metadata. -/
def nhCompositeEcmp (s : State) (nh : Nexthop) (pkt : EcmpPacket) (md : ForwardingMd)
    (sys : FlowSys) : Run (EcmpOutcome × ForwardingMd × FlowSys) := do
  let c ← nh.nhU.asComposite
  match ← carriedMember c md with
  | some member => sendTo nh c member md sys
  | none => chooseMember env s nh c pkt md sys

variable {env} {s s' : State} {p q : ℕ} {o nh : Nexthop} {c : Composite} {req : NhReq} {g : Gathered}
  {pkt : EcmpPacket} {md : ForwardingMd} {sys : FlowSys} {z : ℤ}

/-! ### The arrays that `nh_composite_add` leaves -/

/-- An index names a member. -/
def Composite.Names (c : Composite) (z : ℤ) (q : ℕ) : Prop :=
  0 ≤ z ∧ z < c.cnt ∧ ∃ x, (c.component.getD [])[z.toNat]? = some x ∧ x.cnh = some q

/-- Every slot has its own number as index, and the other array has the slots that are not empty. -/
structure Composite.Spread (c : Composite) : Prop where
  cnt : c.cnt = (c.component.getD []).length
  index : ∀ (i : ℕ) (x : ComponentNh), (c.component.getD [])[i]? = some x → x.cnhEcmpIndex = i
  active : c.ecmpActive.getD [] = activeOf (c.component.getD [])
  ecmpCnt : c.ecmpCnt = (activeOf (c.component.getD [])).length

/-- The same of what a request gathers. -/
structure Gathered.Spread (g : Gathered) (req : NhReq) : Prop where
  length : g.component.length ≤ req.nhrNhList.length
  index : ∀ (i : ℕ) (x : ComponentNh), g.component[i]? = some x → x.cnhEcmpIndex = i
  ecmp : activeOf g.component ≠ [] → g.ecmp = some (activeOf g.component)

theorem takeComponents_index : ∀ (l : List (ℕ × ℤ)) (i : ℕ) (s : State),
    Ends (fun _ => True) (takeComponents true i l s) (fun r => r.1.length = l.length ∧
      ∀ (j : ℕ) (x : ComponentNh), r.1[j]? = some x → x.cnhEcmpIndex = ((i + j : ℕ) : ℤ))
  | [], i, s => ⟨rfl, fun j x hx => by simp at hx⟩
  | (index, label) :: rest, i, s => by
    unfold takeComponents
    refine .bind (.triv _) ?_
    rintro ⟨cnh, s₁⟩ -
    refine .bind (takeComponents_index rest (i + 1) s₁) ?_
    rintro ⟨cs, s₂⟩ ⟨hlen, hidx⟩
    refine ⟨congrArg (· + 1) hlen, fun j x hx => ?_⟩
    cases j with
    | zero =>
      cases hx
      rfl
    | succ j =>
      rw [hidx j x hx]
      congr 1
      omega

theorem gatherComponents_spread (hecmp : req.nhrFlags.compositeEcmp = true) :
    Ends (fun _ => True) (gatherComponents s req) (fun r => r.1.ret = .ok → r.1.Spread req) := by
  unfold gatherComponents
  refine .ite (fun _ => nofun) fun _ => .ite (fun _ _ => ?_) fun _ => .ite (fun _ => ?_)
    fun _ => nofun
  · exact ⟨Nat.zero_le _, fun i x hx => by simp at hx, fun hne => absurd rfl hne⟩
  · rw [hecmp]
    refine .bind (takeComponents_index _ 0 _) fun ⟨cs, s₁⟩ ⟨hlen, hidx⟩ => ?_
    have hle : cs.length ≤ req.nhrNhList.length := by
      rw [hlen, List.length_zip]
      exact min_le_left _ _
    have hidx' : ∀ (i : ℕ) (x : ComponentNh), cs[i]? = some x → x.cnhEcmpIndex = i := by
      intro i x hx
      rw [hidx i x hx, Nat.zero_add]
    refine .ite (fun _ => ?_) fun _ => nofun
    change (gatherEcmp s₁ req cs).1.ret = .ok → (gatherEcmp s₁ req cs).1.Spread req
    unfold gatherEcmp State.alloc
    dsimp only
    split_ifs with hactive
    · exact fun _ => ⟨hle, hidx', fun _ => rfl⟩
    · exact nofun
    · exact fun _ => ⟨hle, hidx', fun hne => absurd ⟨hecmp, hne⟩ hactive⟩

/-- There is no slot, or the slots are those that were gathered. -/
def Composite.Took (c : Composite) (g : Gathered) : Prop :=
  (c.cnt = 0 ∨ c.component = none) ∨
    (c.component = some g.component ∧ c.cnt = g.component.length % 2 ^ 16 ∧
      (activeOf g.component ≠ [] → c.ecmpActive = some (activeOf g.component)))

/-- The composite nexthop at an address has the property. -/
def Holds (Q : Composite → Prop) (p : ℕ) (s : State) : Prop :=
  ∀ o c, s.heap p = some o → o.nhU.asComposite = .ok c → Q c

theorem Holds.store {Q : Composite → Prop} (hc : o.nhU.asComposite = .ok c) (h : Q c) :
    Holds Q p (s.store p o) := by
  intro y d hy hd
  rw [store_heap_same] at hy
  cases hy
  cases hc.symm.trans hd
  exact h

theorem ends_asComposite (u : NhU) :
    Ends (fun _ => True) u.asComposite (fun c => u.asComposite = .ok c) := by
  cases hu : u.asComposite with
  | ok c => rfl
  | error e => trivial

theorem dropComponents_took :
    Ends (fun _ => True) (dropComponents s p)
      (fun s' => Holds (fun c => c.cnt = 0 ∨ c.component = none) p s') := by
  unfold dropComponents
  refine .bind (ends_load s p).results fun o ho => .bind (ends_asComposite _) fun c hc => ?_
  refine .ite (fun _ => ?_) fun hempty => ?_
  · refine .bind (.triv _) fun s₁ _ => .bind (.triv _) fun o₁ _ => .bind (.triv _) fun c₁ _ => ?_
    exact Holds.store (o := { o₁ with nhU := .composite c₁.emptied }) rfl (.inl rfl)
  · intro y d hy hd
    cases ho.symm.trans hy
    cases hc.symm.trans hd
    by_cases hcnt : c.cnt = 0
    · exact .inl hcnt
    · exact .inr (Option.not_isSome_iff_eq_none.mp fun hsome => hempty ⟨hcnt, hsome⟩)

theorem replaceComponents_took (hg : g.Spread req) :
    Ends (fun _ => True) (replaceComponents s p g) (fun s' => Holds (·.Took g) p s') := by
  unfold replaceComponents
  refine .bind (.triv _) fun o _ => .bind dropComponents_took fun s₁ h₁ => ?_
  unfold setComponents
  refine .bind (ends_load s₁ p).results fun o₁ ho₁ => .bind (ends_asComposite _) fun c₁ hc₁ => ?_
  refine .ite (fun _ => ?_) fun _ => ?_
  · intro y d hy hd
    exact .inl (h₁ y d hy hd)
  · refine Holds.store rfl (.inr ⟨rfl, rfl, fun hactive => ?_⟩)
    rw [hg.ecmp hactive]
    rfl

/-- **What `nh_composite_add` leaves for ECMP**, if the array has a member at all. -/
theorem nhCompositeAdd_spread (h : nhCompositeAdd s p req = .ok (.ok, s'))
    (hecmp : req.nhrFlags.compositeEcmp = true) (hmcast : req.nhrFlags.mcast = false)
    (hlen : req.nhrNhList.length < 2 ^ 16) (ho : s'.heap p = some o) (hu : o.nhU = .composite c)
    (hnames : c.Names z q) : c.cnt ≤ req.nhrNhList.length ∧ c.Spread := by
  have hpost : Ends (fun _ => True) (nhCompositeAdd s p req) (fun r => r.1 = .ok →
      ∃ g : Gathered, g.Spread req ∧ Holds (fun c => c.Took g ∧
        c.ecmpCnt = (activeOf g.component).length % 2 ^ 16) p r.2) := by
    unfold nhCompositeAdd
    refine .bind (gatherComponents_spread hecmp) fun ⟨g, s₁⟩ hg => .ite (fun hok => ?_) fun hok => ?_
    · have hg := hg hok
      refine .bind (replaceComponents_took hg) fun s₂ h₂ => ?_
      suffices hexit : Ends (fun _ => True) (compositeExit s₂ p req g) (Holds (fun c => c.Took g ∧
          c.ecmpCnt = (activeOf g.component).length % 2 ^ 16) p) by
        exact .bind hexit fun s₃ h₃ _ => ⟨g, hg, h₃⟩
      refine compositeExit_ends (ends_load s₂ p).results (fun _ _ hset => ?_) fun o₂ ho₂ _ _ => ?_
      · rw [hset hok hecmp] at hmcast
        simp at hmcast
      refine (ends_asComposite _).mono fun c₂ hc₂ => ?_
      refine Holds.store rfl ⟨h₂ o₂ c₂ ho₂ hc₂, ?_⟩
      rw [Gathered.active, if_pos hecmp]
    · refine .bind (.triv _) fun _ _ => .bind (.triv _) fun _ _ hret => absurd hret hok
  obtain ⟨g, hg, hholds⟩ := hpost.of_ok h rfl
  have hc : o.nhU.asComposite = .ok c := by rw [hu]; rfl
  obtain ⟨htook, hcnt⟩ := hholds o c ho hc
  obtain ⟨hz, hlt, x, hx, hq⟩ := hnames
  rcases htook with (hzero | hnone) | ⟨hcomp, hlength, hactive⟩
  · omega
  · rw [hnone] at hx
    simp at hx
  · rw [hcomp] at hx
    have hmem : x ∈ activeOf g.component :=
      List.mem_filter.mpr ⟨List.mem_of_getElem? hx, by rw [hq]; rfl⟩
    have hne : activeOf g.component ≠ [] := List.ne_nil_of_mem hmem
    have hsize := hg.length
    have hfilter : (activeOf g.component).length ≤ g.component.length := List.length_filter_le ..
    refine ⟨by omega, ?_, ?_, ?_, ?_⟩
    · rw [hcomp]
      exact hlength.trans (Nat.mod_eq_of_lt (by omega))
    · rw [hcomp]
      exact hg.index
    · rw [hactive hne, hcomp]
      rfl
    · rw [hcnt, hcomp]
      exact Nat.mod_eq_of_lt (by omega)

/-! ### A member is found -/

theorem Composite.slot_of_lt {i : ℕ} (hc : c.Spread) (hi : i < c.cnt) :
    ∃ x, (c.component.getD [])[i]? = some x ∧ c.slot i = .ok x := by
  have hlt : i < (c.component.getD []).length := hc.cnt ▸ hi
  exact ⟨_, List.getElem?_eq_getElem hlt, slot_of (List.getElem?_eq_getElem hlt)⟩

theorem Composite.Spread.names {i : ℕ} {x : ComponentNh} (hc : c.Spread)
    (hx : (c.component.getD [])[i]? = some x) (hq : x.cnh = some q) : c.Names x.cnhEcmpIndex q := by
  have hlt : i < (c.component.getD []).length := (List.getElem?_eq_some_iff.mp hx).1
  rw [hc.index i x hx]
  refine ⟨by omega, ?_, x, hx, hq⟩
  rw [hc.cnt]
  exact_mod_cast hlt

theorem hashedIndex_names (hc : c.Spread) (hnames : c.Names z q) (hash : ℕ) :
    Returns (hashedIndex c hash) (fun r => ∃ z q, r = some z ∧ c.Names z q) := by
  obtain ⟨hz, hlt, x₀, hx₀, hq₀⟩ := hnames
  have hpos : 0 < c.cnt := by omega
  obtain ⟨x, hx, hslot⟩ := Composite.slot_of_lt hc (Nat.mod_lt hash hpos)
  unfold hashedIndex
  rw [hslot]
  refine .ite (fun hempty => ?_) fun hfull => ?_
  · -- the hashed slot is empty: one of the slots that are not
    have hlt' : hash % c.ecmpCnt < (activeOf (c.component.getD [])).length :=
      hc.ecmpCnt ▸ Nat.mod_lt _ (Nat.pos_of_ne_zero hempty.2)
    obtain ⟨y, hy⟩ : ∃ y, (activeOf (c.component.getD []))[hash % c.ecmpCnt]? = some y :=
      ⟨_, List.getElem?_eq_getElem hlt'⟩
    have hactive : c.activeSlot (hash % c.ecmpCnt) = .ok y := by
      rw [Composite.activeSlot, hc.active, hy]
    obtain ⟨hmem, hsome⟩ := List.mem_filter.mp (List.mem_of_getElem? hy)
    obtain ⟨i, hi⟩ := List.mem_iff_getElem?.mp hmem
    obtain ⟨q, hq⟩ := Option.isSome_iff_exists.mp hsome
    rw [hactive]
    change Ends _ (if y.cnh = none then _ else _) _
    rw [hq, if_neg (by simp)]
    exact ⟨y.cnhEcmpIndex, q, rfl, hc.names hi hq⟩
  · -- an empty slot here would leave no slot at all that is not empty
    have hsome : x.cnh ≠ none := by
      intro hnone
      have hmem : x₀ ∈ activeOf (c.component.getD []) :=
        List.mem_filter.mpr ⟨List.mem_of_getElem? hx₀, by rw [hq₀]; rfl⟩
      have hpos := List.length_pos_of_mem hmem
      exact hfull ⟨hnone, by rw [hc.ecmpCnt]; omega⟩
    obtain ⟨q, hq⟩ := Option.ne_none_iff_exists'.mp hsome
    exact ⟨x.cnhEcmpIndex, q, rfl, hc.names hx hq⟩

/-- The members of a composite nexthop are there, and those that are encap nexthops have their
interface. -/
def Composite.MembersLive (c : Composite) (s : State) : Prop :=
  ∀ z q, c.Names z q → ∃ m, s.heap q = some m ∧
    (m.nhFlags.valid = true → m.nhType = .encap → (m.nhDevArr 0).isSome)

theorem comesFrom_ends {info : ℕ} {m : Nexthop}
    (hdev : m.nhFlags.valid = true → m.nhType = .encap → (m.nhDevArr 0).isSome) :
    Returns (comesFrom env m info) (fun _ => True) := by
  unfold comesFrom
  refine .ite (fun _ => trivial) fun hvalid => .ite (fun _ => trivial) fun _ =>
    .ite (fun hencap => ?_) fun _ => trivial
  obtain ⟨vif, hvif⟩ := Option.isSome_iff_exists.mp (hdev (not_not.mp hvalid) hencap)
  rw [hvif]
  trivial

theorem selectByRflow_names (hc : c.Spread) (hlive : c.MembersLive s) (info : ℕ) :
    ∀ l : List ℕ, (∀ i ∈ l, i < c.cnt) →
      Returns (selectByRflow env s c info l) (fun z => z = -1 ∨ ∃ q, c.Names z q)
  | [], _ => .inl rfl
  | i :: rest, hl => by
    have hrest := selectByRflow_names hc hlive info rest
      fun j hj => hl j (List.mem_cons_of_mem i hj)
    obtain ⟨x, hx, hslot⟩ := Composite.slot_of_lt hc (hl i List.mem_cons_self)
    unfold selectByRflow
    rw [hslot]
    change Ends _ (match x.cnh with | none => _ | some cnh => _) _
    cases hq : x.cnh with
    | none => exact hrest
    | some q =>
      have hnames := hc.names hx hq
      rw [hc.index i x hx] at hnames
      obtain ⟨m, hm, hdev⟩ := hlive i q hnames
      dsimp only
      rw [load_of hm]
      change Ends _ (comesFrom env m info >>= _) _
      refine .bind (comesFrom_ends hdev) fun found _ => .ite (fun _ => ?_) fun _ => hrest
      exact .inr ⟨q, hnames⟩

theorem flowIndex_names {fe : FlowEntry} (hc : c.Spread) (hnames : c.Names z q)
    (hlive : c.MembersLive s) :
    Returns (flowIndex env s c md sys fe)
      (fun r => ∃ z q, r = some z ∧ c.Names z q) := by
  have hrflow : Returns (rflowIndex env s c md sys fe)
      (fun z => z = -1 ∨ ∃ q, c.Names z q) := by
    unfold rflowIndex
    refine .ite (fun _ => ?_) fun _ => .inl rfl
    exact selectByRflow_names hc hlive _ _ fun i hi => List.mem_range.mp hi
  unfold flowIndex
  refine .bind hrflow fun index hindex => .ite (fun _ => hashedIndex_names hc hnames _) fun hne => ?_
  obtain ⟨q, hq⟩ := hindex.resolve_left hne
  exact ⟨index, q, rfl, hq⟩

theorem toInt8_of_lt (hz : 0 ≤ z) (hlt : z < 128) : toInt8 z = z :=
  Int.bmod_eq_of_le (by omega) (by omega)

/-! ### The packet is sent -/

/-- The flow table has an entry for the packet, or the packet gives a key, or it is no IP packet. -/
def HasKey (env : EcmpEnv) (c : Composite) (pkt : EcmpPacket) (md : ForwardingMd) (sys : FlowSys) :
    Prop :=
  (∃ i, flowGetEntry env.flow sys md.fmdFlowIndex = some i) ∨
    (pkt.vpType ≠ .ip ∧ pkt.vpType ≠ .ip6) ∨
    ∃ key, pkt.getFlowKey ((c.ecmpConfigHash >>> 8) &&& 0x1F) = .formed key

/-- An index names some member. -/
def Composite.Hits (c : Composite) (z : ℤ) : Prop := ∃ q, c.Names z q

/-- The index that the packet is sent by names a member.  A packet that names one by itself agrees
with its flow; for any other, the chosen number in eight bits is an index, or the one that the flow
has in place of the packet's. -/
structure Lands (env : EcmpEnv) (s : State) (c : Composite) (pkt : EcmpPacket) (md : ForwardingMd)
    (sys : FlowSys) : Prop where
  carried : ∀ i, c.Hits md.fmdEcmpNhIndex → flowGetEntry env.flow sys md.fmdFlowIndex = some i →
    (sys.entry i).feEcmpNhIndex = md.fmdEcmpNhIndex
  flow : ∀ i, ¬ c.Hits md.fmdEcmpNhIndex → flowGetEntry env.flow sys md.fmdFlowIndex = some i →
    (sys.entry i).feFlags.deleteMarked = false →
    if (sys.entry i).feEcmpNhIndex = md.fmdEcmpNhIndex then
      ∀ z, flowIndex env s c md sys (sys.entry i) = .ok (some z) → c.Hits (toInt8 z)
    else c.Hits (sys.entry i).feEcmpNhIndex
  hashed : ∀ hash z, ¬ c.Hits md.fmdEcmpNhIndex →
    flowGetEntry env.flow sys md.fmdFlowIndex = none → packetHash env c pkt = .ok hash →
    hashedIndex c hash = .ok (some z) → c.Hits (toInt8 z)

/-- How the choice may end: the packet goes to the member that the index names, and its flow has
that index; or it is dropped, and its flow is about to be deleted. -/
def Delivered (env : EcmpEnv) (c : Composite) (md : ForwardingMd) (sys : FlowSys)
    (r : EcmpOutcome × ForwardingMd × FlowSys) : Prop :=
  (∃ q, r.1 = .output q ∧ c.Names r.2.1.fmdEcmpNhIndex q ∧
    ∀ i, flowGetEntry env.flow sys md.fmdFlowIndex = some i →
      (r.2.2.entry i).feEcmpNhIndex = r.2.1.fmdEcmpNhIndex) ∨
  (r.1 = .dropped .invalidNh ∧ ∃ i, flowGetEntry env.flow sys md.fmdFlowIndex = some i ∧
    (sys.entry i).feFlags.deleteMarked = true)

theorem Composite.Names.slotAt (h : c.Names z q) : ∃ x, c.slotAt z = .ok x ∧ x.cnh = some q := by
  obtain ⟨hz, -, x, hx, hq⟩ := h
  refine ⟨x, ?_, hq⟩
  rw [Composite.slotAt, if_neg (by omega), Composite.slot, hx]

theorem sendTo_eq (h : c.Names md.fmdEcmpNhIndex q) :
    ∃ label, sendTo nh c q md sys = .ok (.output q, { md with fmdLabel := label }, sys) := by
  obtain ⟨x, hx, -⟩ := h.slotAt
  unfold sendTo
  split_ifs
  · exact ⟨md.fmdLabel, rfl⟩
  · rw [hx]
    exact ⟨x.cnhLabel, rfl⟩

theorem carriedMember_eq (hc : c.Spread) :
    (∃ q, c.Names md.fmdEcmpNhIndex q ∧ carriedMember c md = .ok (some q)) ∨
      ¬ c.Hits md.fmdEcmpNhIndex ∧ carriedMember c md = .ok none := by
  unfold carriedMember
  split_ifs with hin
  · obtain ⟨hz, hlt⟩ := hin
    obtain ⟨x, hx, hslot⟩ := Composite.slot_of_lt (i := md.fmdEcmpNhIndex.toNat) hc (by omega)
    rw [Composite.slotAt, if_neg (by omega), hslot]
    cases hq : x.cnh with
    | some q => exact .inl ⟨q, ⟨hz, hlt, x, hx, hq⟩, congrArg Except.ok hq⟩
    | none =>
      refine .inr ⟨?_, congrArg Except.ok hq⟩
      rintro ⟨q, -, -, x', hx', hq'⟩
      cases hx.symm.trans hx'
      cases hq.symm.trans hq'
  · refine .inr ⟨?_, rfl⟩
    rintro ⟨q, hnames⟩
    exact hin ⟨hnames.1, hnames.2.1⟩

/-- `nh_composite_ecmp` after a choice that succeeded. -/
def sendChosen (nh : Nexthop) (c : Composite) (md : ForwardingMd) (sys : FlowSys) :
    Run (EcmpOutcome × ForwardingMd × FlowSys) := do
  let x ← c.slotAt md.fmdEcmpNhIndex
  match x.cnh with
  | none => pure (.dropped .invalidNh, md, sys)
  | some member => sendTo nh c member md sys

/-- The packet of a flow that is not about to be deleted is delivered exactly if the chosen index
names a member. -/
theorem sendChosen_delivered_iff {md' : ForwardingMd} {sys' : FlowSys}
    (hdel : ∀ i, flowGetEntry env.flow sys md.fmdFlowIndex = some i →
      (sys.entry i).feFlags.deleteMarked = false)
    (hrec : ∀ i, flowGetEntry env.flow sys md.fmdFlowIndex = some i →
      (sys'.entry i).feEcmpNhIndex = md'.fmdEcmpNhIndex) :
    (∃ r, sendChosen nh c md' sys' = .ok r ∧ Delivered env c md sys r) ↔
      c.Hits md'.fmdEcmpNhIndex := by
  constructor
  · rintro ⟨r, hr, ⟨q, hq, hnames, -⟩ | ⟨-, i, hi, hmarked⟩⟩
    · -- the index that is read back is the one the packet was sent by
      unfold sendChosen at hr
      cases hslot : c.slotAt md'.fmdEcmpNhIndex with
      | error e =>
        rw [hslot] at hr
        cases hr
      | ok x =>
        rw [hslot, Lib.ok_bind] at hr
        cases hx : x.cnh with
        | none =>
          rw [hx] at hr
          obtain rfl := Except.ok.inj hr
          cases hq
        | some member =>
          rw [hx] at hr
          have hindex : r.2.1.fmdEcmpNhIndex = md'.fmdEcmpNhIndex := by
            dsimp only at hr
            unfold sendTo at hr
            split_ifs at hr
            · obtain rfl := Except.ok.inj hr
              rfl
            · rw [hslot] at hr
              obtain rfl := Except.ok.inj hr
              rfl
          exact ⟨q, hindex ▸ hnames⟩
    · rw [hdel i hi] at hmarked
      cases hmarked
  · rintro ⟨q, hnames⟩
    obtain ⟨x, hx, hcnh⟩ := hnames.slotAt
    obtain ⟨label, hsend⟩ := @sendTo_eq q nh c md' sys' hnames
    refine ⟨(.output q, { md' with fmdLabel := label }, sys'), ?_, .inl ⟨q, rfl, hnames, hrec⟩⟩
    rw [sendChosen, hx, Lib.ok_bind, hcnh]
    exact hsend

section

variable (hc : c.Spread) (hnames : c.Names z q) (hlive : c.MembersLive s)
  (hcarried : ¬ c.Hits md.fmdEcmpNhIndex)
include hc hnames hlive hcarried

/-- A packet of a flow. -/
theorem chooseMember_flow {i : ℕ} (hi : flowGetEntry env.flow sys md.fmdFlowIndex = some i) :
    (∃ r, chooseMember env s nh c pkt md sys = .ok r ∧ Delivered env c md sys r) ↔
      Lands env s c pkt md sys := by
  have hpos : c.cnt ≠ 0 := by
    obtain ⟨hz, hlt, -⟩ := hnames
    omega
  obtain ⟨_, hindex, w, q', rfl, hw⟩ := Ends.exists_ok
    (@flowIndex_names env s q c md sys z (sys.entry i) hc hnames hlive)
  have hne : w ≠ -1 := by
    have := hw.1
    omega
  have hselect : nhCompositeEcmpSelectNh env s c pkt md sys =
      .ok (vrFlowUpdateEcmpIndex sys i w md) := by
    rw [nhCompositeEcmpSelectNh, if_neg hpos, hi]
    change (flowIndex env s c md sys (sys.entry i) >>= _) = _
    rw [hindex]
    rfl
  have hiff : Lands env s c pkt md sys ↔ ((sys.entry i).feFlags.deleteMarked = false →
      c.Hits (if (sys.entry i).feEcmpNhIndex = md.fmdEcmpNhIndex then toInt8 w
        else (sys.entry i).feEcmpNhIndex)) := by
    constructor
    · intro h hdel
      have hflow := h.flow i hcarried hi hdel
      split_ifs at hflow ⊢ with heq
      · exact hflow w hindex
      · exact hflow
    · intro h
      refine ⟨fun j hhits => absurd hhits hcarried, fun j _ hj hdel => ?_, fun hash z' _ hnone => ?_⟩
      · cases hi.symm.trans hj
        have hhits := h hdel
        split_ifs at hhits ⊢ with heq
        · intro z' hz'
          cases hindex.symm.trans hz'
          exact hhits
        · exact hhits
      · rw [hi] at hnone
        cases hnone
  rw [hiff, chooseMember, hselect]
  unfold vrFlowUpdateEcmpIndex
  rw [if_neg hne]
  cases hdel : (sys.entry i).feFlags.deleteMarked with
  | true =>
    rw [if_pos rfl]
    exact ⟨fun _ h => absurd h (by decide), fun _ => ⟨_, rfl, .inr ⟨rfl, i, hi, hdel⟩⟩⟩
  | false =>
    rw [if_neg (by decide)]
    refine (@sendChosen_delivered_iff env nh c md sys
      { md with fmdEcmpNhIndex := (FlowSys.entry _ i).feEcmpNhIndex } _
      (fun j hj => ?_) fun j hj => ?_).trans ?_
    · cases hi.symm.trans hj
      exact hdel
    · cases hi.symm.trans hj
      rfl
    · dsimp only
      rw [Flow.entry_setEntry_same]
      exact ⟨fun h _ => h, fun h => h rfl⟩

omit hlive in
/-- A packet without a flow. -/
theorem chooseMember_hashed (hi : flowGetEntry env.flow sys md.fmdFlowIndex = none) {hash : ℕ}
    (hhash : packetHash env c pkt = .ok hash) :
    (∃ r, chooseMember env s nh c pkt md sys = .ok r ∧ Delivered env c md sys r) ↔
      Lands env s c pkt md sys := by
  have hpos : c.cnt ≠ 0 := by
    obtain ⟨hz, hlt, -⟩ := hnames
    omega
  obtain ⟨_, hindex, w, q', rfl, hw⟩ := Ends.exists_ok (hashedIndex_names hc hnames hash)
  have hselect : nhCompositeEcmpSelectNh env s c pkt md sys =
      .ok (.ok, { md with fmdEcmpNhIndex := toInt8 w }, sys) := by
    rw [nhCompositeEcmpSelectNh, if_neg hpos, hi]
    dsimp only
    rw [hhash]
    change (hashedIndex c hash >>= _) = _
    rw [hindex]
    rfl
  have hnone : ∀ i, flowGetEntry env.flow sys md.fmdFlowIndex ≠ some i := fun i h => by
    rw [hi] at h
    cases h
  have hiff : Lands env s c pkt md sys ↔ c.Hits (toInt8 w) := by
    constructor
    · exact fun h => h.hashed hash w hcarried hi hhash hindex
    · refine fun h => ⟨fun j _ hj => absurd hj (hnone j), fun j _ hj => absurd hj (hnone j), ?_⟩
      intro hash' z' _ _ hhash' hz'
      obtain rfl := Except.ok.inj (hhash.symm.trans hhash')
      cases hindex.symm.trans hz'
      exact h
  rw [hiff, chooseMember, hselect]
  exact @sendChosen_delivered_iff env nh c md sys { md with fmdEcmpNhIndex := toInt8 w } _
    (fun j hj => absurd hj (hnone j)) fun j hj => absurd hj (hnone j)

end

/-- **A live member gets the packet.**  An ECMP nexthop that a request installed, and that has a
member at all, sends a packet that has a key to a member that exists, and the flow has the index of
this member, or the flow is about to be deleted and the packet dropped: exactly if the packet lands on
a member by its index in eight bits. -/
theorem nhCompositeEcmp_live (env : EcmpEnv) (s₀ s₁ s : State) (p : ℕ) (req : NhReq)
    (o nh : Nexthop) (c : Composite) (pkt : EcmpPacket) (md : ForwardingMd) (sys : FlowSys)
    (hadd : nhCompositeAdd s₀ p req = .ok (.ok, s₁)) (hecmp : req.nhrFlags.compositeEcmp = true)
    (hmcast : req.nhrFlags.mcast = false) (ho : s₁.heap p = some o) (hu : o.nhU = .composite c)
    (hmember : ∃ z q, c.Names z q) (hnh : nh.nhU = .composite c) (hlive : c.MembersLive s)
    (hkey : HasKey env c pkt md sys) (hlen : req.nhrNhList.length < 2 ^ 16) :
    (∃ r, nhCompositeEcmp env s nh pkt md sys = .ok r ∧ Delivered env c md sys r) ↔
      Lands env s c pkt md sys := by
  obtain ⟨z, q, hnames⟩ := hmember
  obtain ⟨-, hc⟩ := nhCompositeAdd_spread hadd hecmp hmcast hlen ho hu hnames
  have hasComposite : nh.nhU.asComposite = .ok c := by
    rw [hnh]
    rfl
  rw [nhCompositeEcmp, hasComposite, Lib.ok_bind]
  rcases @carriedMember_eq c md hc with ⟨q', hq', hcarried⟩ | ⟨hcarried, hnone⟩
  · obtain ⟨label, hsend⟩ := @sendTo_eq q' nh c md sys hq'
    rw [hcarried, Lib.ok_bind]
    dsimp only
    rw [hsend]
    constructor
    · rintro ⟨r, hr, hdelivered⟩
      obtain rfl := Except.ok.inj hr
      obtain ⟨-, -, -, hrec⟩ | ⟨hdrop, -⟩ := hdelivered
      · exact ⟨fun i _ => hrec i, fun i h => absurd ⟨q', hq'⟩ h, fun _ _ h => absurd ⟨q', hq'⟩ h⟩
      · cases hdrop
    · intro h
      exact ⟨_, rfl, .inl ⟨q', rfl, hq', fun i => h.carried i ⟨q', hq'⟩⟩⟩
  · rw [hnone, Lib.ok_bind]
    cases hi : flowGetEntry env.flow sys md.fmdFlowIndex with
    | some i => exact chooseMember_flow hc hnames hlive hcarried hi
    | none =>
      obtain ⟨hash, hhash⟩ : ∃ hash, packetHash env c pkt = .ok hash := by
        unfold packetHash
        rcases hkey with ⟨i, hi'⟩ | hother | ⟨key, hkey⟩
        · rw [hi] at hi'
          cases hi'
        · exact ⟨_, if_pos hother⟩
        · rw [hkey]
          split_ifs <;> exact ⟨_, rfl⟩
      exact chooseMember_hashed hc hnames hcarried hi hhash

/-- Up to 128 components, a packet whose index is that of its flow lands on a member. -/
theorem lands_of_cnt_le (hc : c.Spread) (hnames : c.Names z q) (hlive : c.MembersLive s)
    (hcnt : c.cnt ≤ 128) (hstep : ∀ i, flowGetEntry env.flow sys md.fmdFlowIndex = some i →
      (sys.entry i).feEcmpNhIndex = md.fmdEcmpNhIndex) : Lands env s c pkt md sys := by
  have hint8 : ∀ z q, c.Names z q → c.Hits (toInt8 z) := by
    intro z q h
    have hlt := h.2.1
    rw [toInt8_of_lt h.1 (by omega)]
    exact ⟨q, h⟩
  refine ⟨fun i _ => hstep i, fun i _ hi _ => ?_, fun hash z' _ _ _ hindex => ?_⟩
  · rw [if_pos (hstep i hi)]
    intro z' hz'
    obtain ⟨_, hindex, w, q', rfl, hw⟩ := Ends.exists_ok
      (@flowIndex_names env s q c md sys z (sys.entry i) hc hnames hlive)
    cases hindex.symm.trans hz'
    exact hint8 z' q' hw
  · obtain ⟨_, hindex', w, q', rfl, hw⟩ := Ends.exists_ok (hashedIndex_names hc hnames hash)
    cases hindex'.symm.trans hindex
    exact hint8 z' q' hw

/-- The discard nexthop, and a composite nexthop that is being built. -/
def emptyEcmp : State :=
  State.store { State.init 4 false with next := 2 } 1
    { nhType := .composite, nhFlags := { compositeEcmp := true } }

def ecmpEnv : EcmpEnv where
  flow := Flow.smallEnv
  etherHash := 0
  vifIdx := fun _ => 0
  tunnelSource := fun _ _ => false
  assembler := false
  staleKey := (⟨.other, 0, 0, 0, 0, 0, 0⟩, 0)

/-- A packet that is hashed by its Ethernet header. -/
def etherPacket : EcmpPacket where
  vpType := .null
  getFlowKey := fun _ => .failed

/-- A flow whose recorded slot is empty. -/
def staleFlow : FlowSys :=
  let sys := FlowSys.init Flow.smallEnv
  { sys with table := { sys.table with tbl := sys.table.tbl.modify 0 fun e =>
    { e with
      hentryFlags := { e.hentryFlags with valid := true }
      payload := { e.payload with feEcmpNhIndex := 0 } } } }

def spreadEcmp : Composite where
  cnt := 3
  ecmpCnt := 2
  ecmpConfigHash := 0x1F00
  component := some [⟨0, 0, none⟩, ⟨0, 1, some 0⟩, ⟨0, 2, some 0⟩]
  ecmpActive := some [⟨0, 1, some 0⟩, ⟨0, 2, some 0⟩]

theorem nhCompositeEcmp_live_stale :
    ∃ r, nhCompositeEcmp ecmpEnv emptyEcmp { nhU := .composite spreadEcmp } etherPacket
        { fmdFlowIndex := 0, fmdEcmpNhIndex := 0 } staleFlow = .ok r ∧
      Delivered ecmpEnv spreadEcmp { fmdFlowIndex := 0, fmdEcmpNhIndex := 0 } staleFlow r := by
  have hadd : ∃ s₁, nhCompositeAdd emptyEcmp 1 (ecmpReq [3, 0, 0]) = .ok (.ok, s₁) ∧
      ∃ o, s₁.heap 1 = some o ∧ o.nhU = .composite spreadEcmp := ⟨_, rfl, _, rfl, rfl⟩
  obtain ⟨s₁, hadd, o, ho, hu⟩ := hadd
  have hnames : spreadEcmp.Names 1 0 := ⟨by decide, by decide, ⟨0, 1, some 0⟩, rfl, rfl⟩
  have hlive : spreadEcmp.MembersLive emptyEcmp := by
    rintro z q ⟨-, -, x, hx, hq⟩
    have hmem : ∀ x ∈ spreadEcmp.component.getD [], x.cnh = none ∨ x.cnh = some 0 := by decide
    rcases hmem x (List.mem_of_getElem? hx) with hnone | hzero
    · rw [hnone] at hq
      simp at hq
    · cases hzero.symm.trans hq
      exact ⟨_, rfl, nofun⟩
  have hspread := (nhCompositeAdd_spread hadd rfl rfl (by decide) ho hu hnames).2
  refine (nhCompositeEcmp_live ecmpEnv emptyEcmp s₁ emptyEcmp 1 (ecmpReq [3, 0, 0]) o
    { nhU := .composite spreadEcmp } spreadEcmp etherPacket _ staleFlow hadd rfl rfl ho hu
    ⟨1, 0, hnames⟩ rfl hlive (.inl ⟨0, by decide +kernel⟩) (by decide)).mpr
    (lands_of_cnt_le hspread hnames hlive (by decide) fun i hi => ?_)
  have hzero : flowGetEntry ecmpEnv.flow staleFlow 0 = some 0 := by decide +kernel
  cases hzero.symm.trans hi
  rfl

/-- 129 components, of which only the last one exists. -/
def longEcmp : Composite where
  cnt := 129
  ecmpCnt := 1
  ecmpConfigHash := 0x1F00
  component := some ((List.range 128).map (fun i => ⟨0, i, none⟩) ++ [⟨0, 128, some 0⟩])
  ecmpActive := some [⟨0, 128, some 0⟩]

/-- **A member with a high index**: the only member is the one with the number 128.  As a signed
number of eight bits this is -128, and the component array is read there. -/
theorem longEcmp_bounds :
    (∃ s₁, nhCompositeAdd emptyEcmp 1 (ecmpReq (List.replicate 128 3 ++ [0])) = .ok (.ok, s₁) ∧
      ∃ o, s₁.heap 1 = some o ∧ o.nhU = .composite longEcmp) ∧
    longEcmp.Names 128 0 ∧ HasKey ecmpEnv longEcmp etherPacket
      { fmdFlowIndex := -1, fmdEcmpNhIndex := -1 } staleFlow ∧
    nhCompositeEcmp ecmpEnv emptyEcmp { nhU := .composite longEcmp } etherPacket
      { fmdFlowIndex := -1, fmdEcmpNhIndex := -1 } staleFlow = .error .bounds := by
  refine ⟨?_, ⟨by decide, by decide, ⟨0, 128, some 0⟩, by decide +kernel, rfl⟩, .inr (.inl (by decide)), ?_⟩
  · have hrun : (nhCompositeAdd emptyEcmp 1 (ecmpReq (List.replicate 128 3 ++ [0]))).toOption.map
        (fun r => (r.1, (r.2.heap 1).map (·.nhU))) = some (.ok, some (.composite longEcmp)) := by
      decide +kernel
    cases hadd : nhCompositeAdd emptyEcmp 1 (ecmpReq (List.replicate 128 3 ++ [0])) with
    | error e =>
      rw [hadd] at hrun
      simp [Except.toOption] at hrun
    | ok r =>
      obtain ⟨ret, s₁⟩ := r
      rw [hadd] at hrun
      simp only [Except.toOption, Option.map_some, Option.some.injEq, Prod.mk.injEq,
        Option.map_eq_some_iff] at hrun
      obtain ⟨rfl, o, ho, hu⟩ := hrun
      exact ⟨s₁, rfl, o, ho, hu⟩
  · rfl

end Vrouter.Nh
