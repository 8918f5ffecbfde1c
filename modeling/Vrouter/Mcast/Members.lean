import Vrouter.Mcast.Copies

/-! # The members of a multicast tree

What each of the four composites is for: which of its members are to get a copy of a packet
(`eligible`), and the label, the VRF and the VXLAN id of that copy (`copyLabel`, `copyVrf`,
`copyVxlan`).  What a copy really goes with depends on what the members served before it have left
in the metadata (`Served`).  For each of the four functions there is one lemma about a round of its
loop and one about the whole function. -/

namespace Vrouter.Mcast

open Vrouter.Lib Nh

/-! ### Who is to get a copy, and which -/

variable (env : Env)

/-- The members that are to get a copy.  A packet does not go back to the interface or the tunnel it
came from, a packet of another host does not go to other hosts again, and some packets are kept from
virtual machines. -/
def eligible (pkt : Packet) (e : Entry) (m : Member) : Bool :=
  m.nh.valid && match m.kind with
    | .encap => e.floodToVms && m.nh.nhDev ≠ some pkt.vpIf
    | .fabric => e.src ≠ .ingress && m.nh.nhType = .tunnel && !sameSource pkt m.nh &&
        !onIngressInterface env pkt m.nh
    | .evpn => (e.src = .vm || e.src = .tor) && m.nh.nhType = .tunnel
    | .tor => m.nh.nhType = .tunnel && !sameSource pkt m.nh

/-- A tunnel in a fabric composite that is neither MPLS over GRE nor MPLS over UDP. -/
def Member.stops (m : Member) : Bool :=
  m.kind = .fabric && m.nh.valid && m.nh.nhType = .tunnel &&
    m.nh.tunnel ≠ .gre && m.nh.tunnel ≠ .udpMpls

/-- The members of a composite that are to get a copy, up to the first that ends the loop. -/
def Composite.recipients (c : Composite) (pkt : Packet) (e : Entry) (kind : Kind) (i : ℕ) :
    List Member :=
  ((c.members kind i).takeWhile fun m => !m.stops).filter (eligible env pkt e)

/-- The label that goes with the copy for a member, for a packet with the given label. -/
def copyLabel (label : ℤ) (m : Member) : ℤ := if m.kind = .encap then label else m.label

/-- The VRF that goes with the copy for a member, for a packet with the given VRF. -/
def copyVrf (vrf : BitVec 16) (m : Member) : BitVec 16 :=
  match m.nh.firstDev with
  | some dev => (env.vif dev).vifVrf
  | none => if m.kind = .encap then vrf else m.compositeVrf

/-- The id of the VXLAN header of the copy for a member, for a packet with the given label. -/
def copyVxlan (pkt : Packet) (label : ℤ) (m : Member) : Option ℤ :=
  if m.kind = .fabric ∧ m.compositeFamily = .bridge ∧ fromVmOrTor env pkt then some (label % 2 ^ 24)
  else none

/-! ### What is left in the metadata -/

/-- The metadata with which a member gets its copy, if they were `fmd` before. -/
def Member.addressed (m : Member) (fmd : Fmd) : Fmd :=
  setDvrf env m.nh (if m.kind = .encap then fmd else { fmd with fmdLabel := m.label })

/-- The metadata when the members of `served` have got their copies. -/
def leftBy (start : Fmd) (served : List Member) : Fmd :=
  served.foldl (fun fmd m => env.leaf.leaves m.nh (m.addressed env fmd)) start

/-- The copy for one of the members `recs` of a composite: it goes with what those that were served
before have left, and that is all before it if nothing fails. -/
def Served (recs : List Member) (start : Fmd) (m : Member) (c : Copy) : Prop :=
  ∃ pre post served, recs = pre ++ m :: post ∧ List.Sublist served pre ∧
    (NoFail env → served = pre) ∧
    c.label = (m.addressed env (leftBy env start served)).fmdLabel ∧
    c.vrf = (m.addressed env (leftBy env start served)).fmdDvrf

/-- The loop over a composite has the members of `rest` before it. -/
def Tracks (recs : List Member) (p : Member → Bool) (start : Fmd) (rest : List Member) (fmd : Fmd) :
    Prop :=
  ∃ pre served, recs = pre ++ rest.filter p ∧ List.Sublist served pre ∧
    (NoFail env → served = pre) ∧ fmd = leftBy env start served

/-- The metadata when a composite of the given kind is called. -/
def Entry.start (e : Entry) (kind : Kind) (c : Composite) : Fmd :=
  ⟨e.label, if kind = .encap then e.vrf else c.nhVrf, false⟩

/-- What a member of the composite at index `i` gets.  The members of a fabric composite get what
they are to get. -/
def Right (pkt : Packet) (e : Entry) (c : Composite) (i : ℕ) (m : Member) (copy : Copy) : Prop :=
  copy.vxlan = copyVxlan env pkt e.label m ∧
    if m.kind = .fabric then copy.label = m.label ∧ copy.vrf = copyVrf env e.vrf m
    else Served env (c.recipients env pkt e m.kind i) (e.start m.kind c) m copy

variable {env}

variable {kind : Kind} {clone : Packet} {vxlan : Option ℤ}

theorem mem_members {c : Composite} {i : ℕ} {m : Member} (h : m ∈ c.members kind i) :
    m.kind = kind ∧ m.compositeFamily = c.nhFamily ∧ m.compositeVrf = c.nhVrf ∧ m.slot.1 = i := by
  unfold Composite.members at h
  simp only [List.mem_filterMap, Option.map_eq_some_iff] at h
  obtain ⟨x, -, nh, -, rfl⟩ := h
  exact ⟨rfl, rfl, rfl, rfl⟩

section

variable {m : Member} {fmd : Fmd}

@[simp] theorem setDvrf_label (nh : Nexthop) (fmd : Fmd) :
    (setDvrf env nh fmd).fmdLabel = fmd.fmdLabel := by
  unfold setDvrf
  split <;> rfl

theorem setDvrf_of_vrf (hm : m.kind ≠ .encap) (h : fmd.fmdDvrf = m.compositeVrf) (vrf : BitVec 16) :
    (setDvrf env m.nh fmd).fmdDvrf = copyVrf env vrf m := by
  unfold setDvrf copyVrf
  cases m.nh.firstDev with
  | none => rw [if_neg hm, h]
  | some dev => rfl

end

theorem setDvrf_congr {nh : Nexthop} {fmd fmd' : Fmd} (h : fmd.fmdDvrf = fmd'.fmdDvrf) :
    (setDvrf env nh fmd).fmdDvrf = (setDvrf env nh fmd').fmdDvrf := by
  unfold setDvrf
  cases nh.firstDev with
  | none => exact h
  | some dev => rfl

theorem setDvrf_setDvrf (nh : Nexthop) (fmd : Fmd) :
    (setDvrf env nh (setDvrf env nh fmd)).fmdDvrf = (setDvrf env nh fmd).fmdDvrf := by
  unfold setDvrf
  cases nh.firstDev with
  | none => rfl
  | some dev => rfl

theorem not_eligible {pkt : Packet} {e : Entry} {m : Member} (h : (!m.nh.valid) = true) :
    eligible env pkt e m = false := by
  rw [Bool.not_eq_true'] at h
  unfold eligible
  rw [h, Bool.false_and]

theorem recipients_of_ne (c : Composite) (pkt : Packet) (e : Entry) (i : ℕ)
    (hkind : kind ≠ .fabric) :
    c.recipients env pkt e kind i = (c.members kind i).filter (eligible env pkt e) := by
  unfold Composite.recipients
  rw [List.takeWhile_eq_self_iff.mpr]
  intro m hm
  simp [Member.stops, (mem_members hm).1, hkind]

/-! ### Clones -/

variable {good : Member → Copy → Prop} {want : List Member} {pkt : Packet} {safe : Prop}
  {I : Run → Prop} {s : Run} {m : Member} {e : Entry} {i : ℕ} {p : Member → Bool}

/-- What `nh_mcast_clone` does: there is a new packet or something failed, and the metadata are as
before. -/
theorem nhMcastClone_cases (env : Env) (pkt : Packet) (s : Run) :
    (∃ s' n op, nhMcastClone env pkt s = (none, s') ∧ (∀ good, Did env good [] [] [] s s') ∧
      env.fails n op = true) ∨
    ∃ s', nhMcastClone env pkt s = (some { pkt with id := s.next }, s') ∧ s'.fmd = s.fmd ∧
      ∀ good, Did env good [] [] [s.next] s s' := by
  have hnew : ∀ good, ∀ s' : Run, s'.trace = s.trace → s'.next = s.next + 1 →
      Did env good [] [] [s.next] s s' := fun good s' htrace hnext =>
    { owned := fun left h => by
        unfold Owned at *
        rw [htrace, hnext, List.range_succ]
        exact List.perm_middle.trans
          ((List.perm_append_singleton _ _).symm.trans (h.append_right _))
      sent := ⟨[], by simp [Run.sent, htrace], by simp⟩ }
  unfold nhMcastClone
  by_cases hclone : env.fails s.clock .pclone = true
  · rw [if_pos hclone]
    exact .inl ⟨_, _, _, rfl, fun _ => Did.quiet rfl rfl, hclone⟩
  · rw [if_neg hclone]
    dsimp only
    split_ifs with hcow
    · have hfreed := fun good => (hnew good ({ s.tick with next := s.next + 1 } : Run).tick rfl
        rfl).trans (Did.emit (e := .freed s.next) rfl)
      exact .inl ⟨_, _, _, rfl, hfreed, hcow⟩
    · exact .inr ⟨_, rfl, rfl, fun good => hnew good _ rfl rfl⟩

theorem Round.withClone {go : Packet → Run → Bool × Run}
    (h : ∀ clone s', clone = { pkt with id := s.next } → s'.fmd = s.fmd →
      Round env good safe want [clone.id] I s' (go clone s')) :
    Round env good safe want [] I s (withClone env pkt s go) := by
  unfold Mcast.withClone
  obtain ⟨s', n, op, heq, hdid, hf⟩ | ⟨s', heq, hfmd, hdid⟩ := nhMcastClone_cases env pkt s
  · rw [heq]
    exact Round.stop (hdid good) hf
  · rw [heq]
    exact (h _ s' rfl hfmd).after (hdid good)

theorem Round.skip {s' : Run} (h : p m = false) (ht : s'.trace = s.trace) (hn : s'.next = s.next)
    (hI : I s') :
    Round env good safe ([m].filter p) [] I s (true, s') := by
  rw [List.filter_singleton, h]
  exact Round.go (Did.quiet ht hn) hI

theorem Round.dropped {n : ℕ} {op : Op} (hf : env.fails n op = true) (hI : I (s.free clone)) :
    Round env good safe want [clone.id] I s (true, s.free clone) :=
  ⟨(Did.free.failed hf).uses, fun _ => rfl, fun _ => hI⟩

theorem Round.output (h : p m = true) (hgood : good m ⟨s.fmd.fmdLabel, s.fmd.fmdDvrf, vxlan⟩)
    (hI : I (nhOutput env clone m vxlan s)) :
    Round env good safe ([m].filter p) [clone.id] I s (true, nhOutput env clone m vxlan s) := by
  rw [List.filter_singleton, h]
  exact Round.go (Did.output hgood) hI

/-- The loop over the members of a composite, and the packet is freed. -/
theorem Round.members {body : Member → Run → Bool × Run} {c : Composite}
    {I : List Member → Run → Prop} (hI : I (c.members kind i) s)
    (h : ∀ m ∈ c.members kind i, ∀ rest s, I (m :: rest) s →
      if m.stops then (body m s).1 = false ∧ Did env good [] [] [] s (body m s).2
      else Round env good safe ([m].filter (eligible env pkt e)) [] (I rest) s (body m s)) :
    Uses env good safe (c.recipients env pkt e kind i) [pkt.id] s
      ((forBreak body (c.members kind i) s).free pkt) := by
  have huses := Round.loop _ hI h
  have hwant : ∀ l : List Member,
      l.flatMap (fun m => [m].filter (eligible env pkt e)) = l.filter (eligible env pkt e) := by
    intro l
    induction l with
    | nil => rfl
    | cons m l ih => rw [List.flatMap_cons, ih, ← List.filter_append, List.singleton_append]
  rw [hwant] at huses
  exact huses.free

/-! ### Members that are served one after the other -/

variable {recs rest : List Member} {start fmd : Fmd}

namespace Tracks

theorem skip (h : Tracks env recs p start (m :: rest) fmd) (hp : p m = false) :
    Tracks env recs p start rest fmd := by
  unfold Tracks at *
  rwa [List.filter_cons_of_neg (by simp [hp])] at h

/-- A member may go without a copy when something fails. -/
theorem dropped (h : Tracks env recs p start (m :: rest) fmd) (hp : p m = true) {n : ℕ} {op : Op}
    (hf : env.fails n op = true) : Tracks env recs p start rest fmd := by
  obtain ⟨pre, served, hrecs, hsub, -, rfl⟩ := h
  rw [List.filter_cons_of_pos hp] at hrecs
  exact ⟨pre ++ [m], served, by simp [hrecs], hsub.trans (List.sublist_append_left _ _),
    fun hno => absurd hno (not_noFail hf), rfl⟩

theorem output (h : Tracks env recs p start (m :: rest) fmd) (hp : p m = true) :
    Tracks env recs p start rest (env.leaf.leaves m.nh (m.addressed env fmd)) := by
  obtain ⟨pre, served, hrecs, hsub, hall, rfl⟩ := h
  rw [List.filter_cons_of_pos hp] at hrecs
  refine ⟨pre ++ [m], served ++ [m], by simp [hrecs], hsub.append (List.Sublist.refl _),
    fun hno => by rw [hall hno], ?_⟩
  simp [leftBy]

theorem served (h : Tracks env recs p start (m :: rest) fmd) (hp : p m = true) :
    Served env recs start m ⟨(m.addressed env fmd).fmdLabel, (m.addressed env fmd).fmdDvrf, vxlan⟩ := by
  obtain ⟨pre, served, hrecs, hsub, hall, rfl⟩ := h
  rw [List.filter_cons_of_pos hp] at hrecs
  exact ⟨pre, _, served, hrecs, hsub, hall, rfl, rfl⟩

end Tracks

section

variable {c : Composite} (hkind : kind ≠ .fabric)
include hkind

theorem copyVxlan_of_ne (pkt : Packet) (label : ℤ) (hm : m.kind = kind) :
    copyVxlan env pkt label m = none :=
  if_neg (by simp [hm, hkind])

/-- A round for a member that is not served through the fabric, with the packets `own` at hand. -/
abbrev ServedRound (env : Env) (pkt : Packet) (e : Entry) (c : Composite) (kind : Kind) (i : ℕ)
    (m : Member) (rest : List Member) (own : List ℕ) (safe : Prop) (s : Run) (r : Bool × Run) : Prop :=
  Round env (Right env pkt e c i) safe ([m].filter (eligible env pkt e)) own
    (fun s => Tracks env (c.recipients env pkt e kind i) (eligible env pkt e) (e.start kind c) rest
      s.fmd) s r

theorem ServedRound.serve {s' : Run} (hm : m.kind = kind) (he : eligible env pkt e m = true)
    (hI : Tracks env (c.recipients env pkt e kind i) (eligible env pkt e) (e.start kind c) (m :: rest)
      s.fmd) (ht : s'.trace = s.trace) (hn : s'.next = s.next)
    (hfmd : s'.fmd = m.addressed env s.fmd) :
    ServedRound env pkt e c kind i m rest [clone.id] safe s (true, nhOutput env clone m none s') := by
  have hright : Right env pkt e c i m ⟨s'.fmd.fmdLabel, s'.fmd.fmdDvrf, none⟩ := by
    refine ⟨(copyVxlan_of_ne hkind pkt e.label hm).symm, ?_⟩
    rw [if_neg (hm ▸ hkind), hm, hfmd]
    exact hI.served he
  refine (Round.output he hright ?_).after (Did.quiet ht hn)
  change Tracks env _ _ _ rest (env.leaf.leaves m.nh s'.fmd)
  rw [hfmd]
  exact hI.output he

/-- A composite whose members are served one after the other. -/
theorem ServedRound.members {body : Member → Run → Bool × Run} (hs : s.fmd = e.start kind c)
    (h : ∀ m, m.kind = kind → ∀ rest s, Tracks env (c.recipients env pkt e kind i)
      (eligible env pkt e) (e.start kind c) (m :: rest) s.fmd →
      ServedRound env pkt e c kind i m rest [] safe s (body m s)) :
    Uses env (Right env pkt e c i) safe (c.recipients env pkt e kind i) [pkt.id] s
      ((forBreak body (c.members kind i) s).free pkt) := by
  refine Round.members (I := fun rest s => Tracks env (c.recipients env pkt e kind i)
    (eligible env pkt e) (e.start kind c) rest s.fmd) ?_ fun m hm rest s hI => ?_
  · exact ⟨[], [], by simp [recipients_of_ne c pkt e i hkind], List.Sublist.refl _, fun _ => rfl, hs⟩
  · rw [if_neg (by simp [Member.stops, (mem_members hm).1, hkind])]
    exact h m (mem_members hm).1 rest s hI

end

/-! ### The rounds of the four loops -/

variable {c : Composite}

theorem encapBody_round (hm : m.kind = .encap) (hvms : e.floodToVms = true)
    (hI : Tracks env (c.recipients env pkt e .encap i) (eligible env pkt e) (e.start .encap c)
      (m :: rest) s.fmd) :
    ServedRound env pkt e c .encap i m rest [] safe s (encapBody env pkt m s) := by
  unfold encapBody
  split_ifs with hvalid hdev
  · exact Round.skip (not_eligible hvalid) rfl rfl (hI.skip (not_eligible hvalid))
  · have he : eligible env pkt e m = false := by simp [eligible, hm, hdev]
    exact Round.skip he rfl rfl (hI.skip he)
  · have he : eligible env pkt e m = true := by simp_all [eligible]
    refine Round.withClone fun clone s' _ hfmd => ?_
    rw [← hfmd] at hI
    exact ServedRound.serve (by simp) hm he hI rfl rfl (by simp [Member.addressed, hm])

theorem address_fmd (s : Run) (hm : m.kind ≠ .encap) :
    (s.address env m).fmd = m.addressed env s.fmd := by
  unfold Run.address Member.addressed
  rw [if_neg hm]

theorem torBody_round (hm : m.kind = .tor)
    (hI : Tracks env (c.recipients env pkt e .tor i) (eligible env pkt e) (e.start .tor c)
      (m :: rest) s.fmd) :
    ServedRound env pkt e c .tor i m rest [] safe s (torBody env pkt m s) := by
  unfold torBody
  split_ifs with hvalid htype hsame
  · exact Round.skip (not_eligible hvalid) rfl rfl (hI.skip (not_eligible hvalid))
  · have he : eligible env pkt e m = false := by simp [eligible, hm, htype]
    exact Round.skip he rfl rfl (hI.skip he)
  · have he : eligible env pkt e m = false := by simp [eligible, hm, hsame]
    exact Round.skip he rfl rfl (hI.skip he)
  · have he : eligible env pkt e m = true := by simp_all [eligible]
    refine Round.withClone fun clone s' _ hfmd => ?_
    rw [← hfmd] at hI
    exact ServedRound.serve (by simp) hm he hI rfl rfl (address_fmd s' (by simp [hm]))

section

variable {control : Bool} (hm : m.kind = .evpn)
  (hI : Tracks env (c.recipients env pkt e .evpn i) (eligible env pkt e) (e.start .evpn c)
    (m :: rest) s.fmd)
  (hoff : control = true → ∀ n, env.fails n .controlPush = true → ¬ safe)
include hm hI hoff

theorem evpnControl_round (he : eligible env pkt e m = true) :
    ServedRound env pkt e c .evpn i m rest [clone.id] safe s (evpnControl env control m clone s) := by
  have hout : ∀ s' : Run, s'.trace = s.trace → s'.next = s.next → s'.fmd = s.fmd →
      ServedRound env pkt e c .evpn i m rest [clone.id] safe s
        (true, nhOutput env clone m none (s'.address env m)) := by
    intro s' ht hn hfmd
    refine ServedRound.serve (by simp) hm he hI ht hn ?_
    rw [address_fmd s' (by simp [hm]), hfmd]
  unfold evpnControl
  split_ifs with hcontrol hfails
  · exact hout s rfl rfl rfl
  · -- the clone is lost
    exact ⟨⟨[clone.id], Did.failed (Did.quiet rfl rfl) hfails,
      fun hsafe => absurd hsafe (hoff (by simpa using hcontrol) _ hfails)⟩,
      fun hno => absurd hno (not_noFail hfails), by simp⟩
  · exact hout s.tick rfl rfl rfl

theorem evpnBody_round {pbb : Bool} (hsrc : e.src = .vm ∨ e.src = .tor) :
    ServedRound env pkt e c .evpn i m rest [] safe s (evpnBody env pkt pbb control m s) := by
  unfold evpnBody
  by_cases hvalid : m.nh.valid = true
  swap
  · rw [if_pos (by simpa using hvalid)]
    have he : eligible env pkt e m = false := by simp [eligible, hvalid]
    exact Round.skip he rfl rfl (hI.skip he)
  by_cases htype : m.nh.nhType = .tunnel
  swap
  · rw [if_neg (by simpa using hvalid), if_pos htype]
    have he : eligible env pkt e m = false := by simp [eligible, hm, htype]
    exact Round.skip he rfl rfl (hI.skip he)
  rw [if_neg (by simpa using hvalid), if_neg (by simpa using htype)]
  have he : eligible env pkt e m = true := by simp [eligible, hm, hvalid, htype, hsrc]
  refine Round.withClone fun clone s' _ hfmd => ?_
  rw [← hfmd] at hI
  split_ifs with hpbb hfails
  · exact evpnControl_round hm hI hoff he
  · exact (Round.dropped hfails (hI.dropped he hfails)).after (Did.quiet rfl rfl)
  · exact (evpnControl_round (s := s'.tick) hm hI hoff he).after (Did.quiet rfl rfl)

end

/-- A round for a member that is served through the fabric, with the packets `own` at hand. -/
abbrev FabricRound (env : Env) (pkt : Packet) (e : Entry) (c : Composite) (i : ℕ) (m : Member)
    (own : List ℕ) (safe : Prop) (s : Run) (r : Bool × Run) : Prop :=
  Round env (Right env pkt e c i) safe ([m].filter (eligible env pkt e)) own (fun _ => True) s r

/-- What `fabricBody` has found out when it comes to the headers of a clone. -/
structure Headed (env : Env) (pkt : Packet) (e : Entry) (c : Composite) (m : Member) (s : Run) :
    Prop where
  kind : m.kind = .fabric
  family : m.compositeFamily = c.nhFamily
  eligible : eligible env pkt e m = true
  vrf : (setDvrf env m.nh s.fmd).fmdDvrf = copyVrf env e.vrf m

theorem fabricControl_round (h : Headed env pkt e c m s)
    (hvxlan : vxlan = copyVxlan env pkt e.label m) :
    FabricRound env pkt e c i m [clone.id] safe s
      (fabricControl env c.nhFamily m vxlan clone s) := by
  have hout : ∀ s' : Run, s'.fmd.fmdDvrf = s.fmd.fmdDvrf →
      FabricRound env pkt e c i m [clone.id] safe s'
      (true, nhOutput env clone m vxlan (s'.address env m)) := by
    intro s' hvrf
    refine (Round.output h.eligible ⟨hvxlan, ?_⟩ trivial).after (Did.quiet rfl rfl)
    rw [if_pos h.kind, ← h.vrf]
    exact ⟨setDvrf_label _ _, setDvrf_congr hvrf⟩
  unfold fabricControl
  split_ifs with hfamily hfails
  · exact hout s rfl
  · exact (Round.stop Did.free hfails).after (Did.quiet rfl rfl)
  · dsimp only
    exact (hout { s.tick with fmd := { s.fmd with l2ControlData := false } } rfl).after
      (Did.quiet rfl rfl)

theorem fabricVxlan_round (h : Headed env pkt e c m s) (hsrc : fromVmOrTor env pkt = true) :
    FabricRound env pkt e c i m [clone.id] safe s
      (fabricVxlan env c.nhFamily e.label m clone s) := by
  unfold fabricVxlan
  split_ifs with hfamily
  · exact fabricControl_round h (if_neg (by simp [h.family, hfamily])).symm
  · dsimp only
    split_ifs with hfails
    · exact (Round.stop Did.free hfails).after (Did.quiet rfl rfl)
    · refine (fabricControl_round ⟨h.kind, h.family, h.eligible, ?_⟩ ?_).after (Did.quiet rfl rfl)
      · rw [← h.vrf]
        exact (setDvrf_setDvrf _ _).trans (setDvrf_congr rfl)
      · rw [setDvrf_label]
        exact (if_pos ⟨h.kind, by simpa [h.family] using hfamily, hsrc⟩).symm

theorem fabricHeaders_round (h : Headed env pkt e c m s) (hlabel : 0 ≤ e.label)
    (hsrc : fromVmOrTor env pkt = true) :
    FabricRound env pkt e c i m [clone.id] safe s (fabricHeaders env c e.label m clone s) := by
  unfold fabricHeaders
  rw [if_neg (by omega)]
  split_ifs with hpbb hfails
  · exact fabricVxlan_round h hsrc
  · exact (Round.dropped hfails trivial).after (Did.quiet rfl rfl)
  · exact (fabricVxlan_round (s := s.tick) ⟨h.kind, h.family, h.eligible, h.vrf⟩ hsrc).after
      (Did.quiet rfl rfl)

theorem fabricBody_round (hm : m ∈ c.members .fabric i) (hsrc : e.src ≠ .ingress)
    (hlabel : 0 ≤ e.label) :
    if m.stops then
      (fabricBody env pkt c e.label c.nhVrf m s).1 = false ∧
        Did env (Right env pkt e c i) [] [] [] s (fabricBody env pkt c e.label c.nhVrf m s).2
    else FabricRound env pkt e c i m [] safe s (fabricBody env pkt c e.label c.nhVrf m s) := by
  obtain ⟨hkind, hfamily, hvrf, -⟩ := mem_members hm
  unfold fabricBody
  dsimp only
  by_cases hstops : m.stops = true
  · rw [if_pos hstops]
    unfold Member.stops at hstops
    simp only [Bool.and_eq_true, decide_eq_true_eq, hkind, true_and] at hstops
    obtain ⟨⟨⟨hvalid, htype⟩, hgre⟩, hudp⟩ := hstops
    rw [if_neg (by simp [hvalid]), if_neg (by simp [htype]), if_pos ⟨hgre, hudp⟩]
    exact ⟨rfl, Did.quiet rfl rfl⟩
  rw [if_neg hstops]
  have hheaded : ∀ s' : Run, s'.fmd = { s.fmd with fmdDvrf := c.nhVrf } →
      eligible env pkt e m = true → Headed env pkt e c m s' := fun s' hfmd he =>
    ⟨hkind, hfamily, he, setDvrf_of_vrf (by simp [hkind]) (by rw [hfmd, hvrf]) _⟩
  split_ifs with hvalid htype htunnel hsame hingress hfrom
  · exact Round.skip (not_eligible hvalid) rfl rfl trivial
  · exact Round.skip (by simp [eligible, hkind, htype]) rfl rfl trivial
  · -- this tunnel would have ended the loop
    simp_all [Member.stops]
  · exact Round.skip (by simp [eligible, hkind, hsame]) rfl rfl trivial
  · exact Round.skip (by simp [eligible, hkind, hingress]) rfl rfl trivial
  · have he : eligible env pkt e m = true := by simp_all [eligible]
    exact (Round.withClone fun clone s' _ hfmd =>
      fabricHeaders_round (hheaded s' hfmd he) hlabel hfrom).after (Did.quiet rfl rfl)
  · have he : eligible env pkt e m = true := by simp_all [eligible]
    exact (Round.withClone fun clone s' _ hfmd =>
      fabricControl_round (hheaded s' hfmd he) (if_neg (by simp [hfrom])).symm).after
        (Did.quiet rfl rfl)

/-! ### The four functions -/

section

theorem nhCompositeEncap_did (hvms : e.floodToVms = true) (hs : s.fmd = e.start .encap c) :
    Uses env (Right env pkt e c i) safe (c.recipients env pkt e .encap i) [pkt.id] s
      (nhCompositeEncap env pkt i c s) :=
  ServedRound.members (by simp) hs fun _ hm _ _ hI => encapBody_round hm hvms hI

theorem nhCompositeTor_did (hs : s.fmd = e.start .tor c) :
    Uses env (Right env pkt e c i) safe (c.recipients env pkt e .tor i) [pkt.id] s
      (nhCompositeTor env pkt i c s) :=
  ServedRound.members (by simp) hs fun _ hm _ _ hI => torBody_round hm hI

theorem nhCompositeEvpn_did (hsrc : e.src = .vm ∨ e.src = .tor)
    (hs : { s.fmd with l2ControlData := false } = e.start .evpn c)
    (hoff : s.fmd.l2ControlData = true → ∀ n, env.fails n .controlPush = true → ¬ safe) :
    Uses env (Right env pkt e c i) safe (c.recipients env pkt e .evpn i) [pkt.id] s
      (nhCompositeEvpn env pkt i c s) := by
  have hcleared : Did env (Right env pkt e c i) [] [pkt.id] [pkt.id] s
      { s with fmd := { s.fmd with l2ControlData := false } } := Did.quiet rfl rfl
  have hkind : Kind.evpn ≠ .fabric := by simp
  exact (ServedRound.members hkind hs fun m hm rest s hI =>
    evpnBody_round hm hI hoff hsrc).after hcleared

theorem nhCompositeFabric_did (hsrc : e.src ≠ .ingress) (hlabel : s.fmd.fmdLabel = e.label)
    (hpos : 0 ≤ e.label) (hvrf : s.fmd.fmdDvrf = c.nhVrf) :
    Uses env (Right env pkt e c i) safe (c.recipients env pkt e .fabric i) [pkt.id] s
      (nhCompositeFabric env pkt i c s) := by
  unfold nhCompositeFabric
  rw [hlabel, hvrf]
  exact Round.members (I := fun _ _ => True) trivial
    fun m hm _ s _ => fabricBody_round hm hsrc hpos

end

end Vrouter.Mcast
