import Vrouter.Nh.Kinds

/-! # Nexthops that hold no components

The functions that build a nexthop of any type but the composite one: they write one member of the
union, the one that the request asks for, and leave the count and the references of the nexthop
alone (`typeAdd_rebuilt`). -/

namespace Vrouter.Nh

open Vrouter.Lib Function

variable {s s' : State} {p : ℕ} {o o' o₁ : Nexthop} {env : Env} {req : NhReq} {t : NhType}

/-- The nexthop has the type, the flags and the family of the request; it may not be valid yet. -/
structure Nexthop.Is (o : Nexthop) (req : NhReq) (t : NhType) : Prop where
  nhType : o.nhType = t
  nhFlags : o.nhFlags = { req.nhrFlags with valid := o.nhFlags.valid }
  nhFamily : o.nhFamily = req.nhrFamily

/-- A nexthop after a part of it was built: it agrees with its kind, and has the count and the
references that it had. -/
structure Nexthop.Rebuilt (o o' : Nexthop) (req : NhReq) (t : NhType) : Prop where
  is : o'.Is req t
  agrees : o'.Agrees
  nhUsers : o'.nhUsers = o.nhUsers
  nhDirectNh : o'.nhDirectNh = o.nhDirectNh
  nhId : o'.nhId = o.nhId

theorem Nexthop.Rebuilt.refl (hi : o.Is req t) (ha : o.Agrees) : o.Rebuilt o req t :=
  ⟨hi, ha, rfl, rfl, rfl⟩

theorem Nexthop.Rebuilt.handlers (h : o.Rebuilt o' req t) (reach : ReachNh)
    (validate : Option ValidateSrc) (crypt : Option VifPtr) (dev : DevArr)
    (valid : Fin vrMaxPhyInf → Bool) :
    o.Rebuilt { o' with
      nhReachNh := reach
      nhValidateSrc := validate
      nhCryptDev := crypt
      nhDevArr := dev
      nhEncapValid := valid } req t :=
  ⟨⟨h.is.nhType, h.is.nhFlags, h.is.nhFamily⟩, ⟨h.agrees.kind, h.agrees.single⟩, h.nhUsers,
    h.nhDirectNh, h.nhId⟩

theorem Nexthop.Rebuilt.write (h : o.Rebuilt o' req t) (u : NhU)
    (hu : u.kind = memberOf t req.nhrFlags req.nhrFamily) :
    o.Rebuilt { o' with nhU := u } req t := by
  refine ⟨⟨h.is.nhType, h.is.nhFlags, h.is.nhFamily⟩, ⟨.inr ?_, h.agrees.single⟩, h.nhUsers,
    h.nhDirectNh, h.nhId⟩
  change u.kind = memberOf o'.nhType o'.nhFlags o'.nhFamily
  rw [hu, h.is.nhType, h.is.nhFlags, h.is.nhFamily]
  cases t <;> rfl

theorem Nexthop.Agrees.not_composite (h : o.Agrees) (ht : o.nhType ≠ .composite) (c : Composite) :
    o.nhU ≠ .composite c := by
  intro hu
  rcases h.kind with hblank | hkind
  · rw [hu] at hblank
    simp at hblank
  · rw [hu, Nexthop.member] at hkind
    have hmember : memberOf o.nhType o.nhFlags o.nhFamily ≠ some .composite := by
      cases htype : o.nhType with
      | composite => exact absurd htype ht
      | tunnel =>
        rw [memberOf]
        split_ifs <;> simp
      | _ => simp [memberOf]
    exact hmember hkind.symm

theorem Nexthop.Agrees.sized (h : o.Agrees) (ht : o.nhType ≠ .composite) : o.Sized :=
  fun c hu => absurd hu (h.not_composite ht c)

/-! ### Tunnels -/

theorem deviceTunnel_rebuilt (u : ℕ → NhU) (validate : ValidateSrc) (vif : DevArr)
    (h : o.Rebuilt o₁ req .tunnel)
    (hu : ∀ len, (u len).kind = memberOf .tunnel req.nhrFlags req.nhrFamily) :
    o.Rebuilt (deviceTunnel u validate req vif o₁).2 req .tunnel := by
  unfold deviceTunnel
  split_ifs
  · exact (h.write _ (hu _)).handlers o₁.nhReachNh _ o₁.nhCryptDev _ o₁.nhEncapValid
  · exact (h.write _ (hu _)).handlers o₁.nhReachNh _ o₁.nhCryptDev _ o₁.nhEncapValid
  · exact h

theorem vxlanTunnel_rebuilt {vif : DevArr} (h : o.Rebuilt o₁ req .tunnel)
    (hu : some Kind.vxlanTun = memberOf .tunnel req.nhrFlags req.nhrFamily) :
    o.Rebuilt (vxlanTunnel req vif o₁).2 req .tunnel := by
  have hdevice := deviceTunnel_rebuilt (.vxlanTun req.nhrTunSip req.nhrTunDip) .vxlanTunnel vif h
    fun _ => hu
  unfold vxlanTunnel
  split
  · rename_i o₂ heq
    rw [heq] at hdevice
    split_ifs <;> exact hdevice
  · exact hdevice

theorem pbbTunnel_rebuilt (h : o.Rebuilt o₁ req .tunnel)
    (hu : some Kind.pbbTun = memberOf .tunnel req.nhrFlags req.nhrFamily) :
    o.Rebuilt (pbbTunnel req o₁).2 req .tunnel := by
  unfold pbbTunnel
  split_ifs
  · exact (h.write (.pbbTun _ _) hu).handlers o₁.nhReachNh _ o₁.nhCryptDev o₁.nhDevArr o₁.nhEncapValid
  · exact h

/-- Only the counts of interfaces and the answers of allocations differ. -/
def SameNexthops (s s' : State) : Prop :=
  ∃ refs allocs, s' = { s with vifRefs := refs, allocs := allocs }

theorem SameNexthops.refl (s : State) : SameNexthops s s := ⟨_, _, rfl⟩

theorem SameNexthops.vifRefs (h : SameNexthops s s') (refs : VifPtr → ℤ) :
    SameNexthops s { s' with vifRefs := refs } := by
  obtain ⟨_, allocs, rfl⟩ := h
  exact ⟨refs, allocs, rfl⟩

theorem addressMemory_same (h : SameNexthops s s') (addr : Option (List Byte)) :
    SameNexthops s (addressMemory s' addr).2 := by
  obtain ⟨refs, allocs, rfl⟩ := h
  unfold addressMemory State.alloc
  split_ifs
  · exact ⟨_, _, rfl⟩
  · exact ⟨_, _, rfl⟩

/-- What a branch of the tunnel function leaves. -/
def Branched (s : State) (o : Nexthop) (req : NhReq) (r : (TunnelExit × Nexthop) × State) : Prop :=
  o.Rebuilt r.1.2 req .tunnel ∧ SameNexthops s r.2

section

variable (h : o.Rebuilt o₁ req .tunnel) (hs : SameNexthops s s')
include h hs

theorem udpTunnel6_branched (hudp : o₁.nhFlags.tunnelUdp = true) (hfam : req.nhrFamily = .inet6) :
    Returns (udpTunnel6 s' req o₁) (Branched s o req) := by
  have hgre : ¬ req.nhrFlags.tunnelGre = true := by
    have hsingle := h.agrees.single
    rw [h.is.nhFlags] at hsingle hudp
    exact fun hgre => hsingle ⟨hgre, hudp⟩
  have hreq : req.nhrFlags.tunnelUdp = true := by
    rw [h.is.nhFlags] at hudp
    exact hudp
  have hwrite : ∀ a b, o.Rebuilt { o₁ with nhU := .udpTun6 a b } req .tunnel := by
    intro a b
    apply h.write
    rw [memberOf, if_neg hgre, if_pos hreq, if_pos hfam]
    rfl
  obtain ⟨⟨sip6, dip6⟩, hread⟩ :=
    h.agrees.asUdpTun6 h.is.nhType hudp (h.is.nhFamily.trans hfam)
  have hs₁ := addressMemory_same hs sip6
  have hs₂ := addressMemory_same hs₁ dip6
  unfold udpTunnel6
  rw [hread]
  refine .ite (fun _ => .ite (fun _ => ?_) fun _ => ?_) fun _ => ?_
  · exact ⟨hwrite _ _, hs₂⟩
  · exact ⟨hwrite _ _, hs₂⟩
  · exact ⟨hwrite _ _, hs₁⟩

theorem udpTunnel_branched (hudp : o₁.nhFlags.tunnelUdp = true)
    (hgre : ¬ o₁.nhFlags.tunnelGre = true) :
    Returns (udpTunnel s' req o₁) (Branched s o req) := by
  unfold udpTunnel
  split
  · rename_i hfam
    refine ⟨h.write _ ?_, hs⟩
    rw [h.is.nhFlags] at hudp hgre
    rw [memberOf, if_neg hgre, if_pos hudp, if_neg (by rw [hfam]; decide)]
    rfl
  · rename_i hfam
    exact udpTunnel6_branched h hs hudp hfam
  · exact ⟨h, hs⟩

theorem tunnelBranch_branched {vif : DevArr} :
    Returns (tunnelBranch s' req vif o₁) (Branched s o req) := by
  have hflags := h.is.nhFlags
  unfold tunnelBranch
  refine .ite (fun hgre => ?_) fun hgre => .ite (fun hudp => ?_) fun hudp => .ite (fun hmpls => ?_)
    fun hmpls => .ite (fun hvxlan => ?_) fun hvxlan => .ite (fun hpbb => ?_) fun _ => ?_
  · refine ⟨deviceTunnel_rebuilt _ _ _ h fun _ => ?_, hs⟩
    rw [hflags] at hgre
    rw [memberOf, if_pos hgre]
    rfl
  · refine .bind (udpTunnel_branched h hs hudp hgre) fun r hr => .ite (fun _ => ?_) fun _ => ?_
    · exact ⟨hr.1, hr.2.vifRefs _⟩
    · exact hr
  · refine ⟨deviceTunnel_rebuilt _ _ _ h fun _ => ?_, hs⟩
    rw [hflags] at hgre hudp hmpls
    rw [memberOf, if_neg hgre, if_neg hudp, if_pos hmpls]
    rfl
  · refine ⟨vxlanTunnel_rebuilt h ?_, hs⟩
    rw [hflags] at hgre hudp hmpls hvxlan
    rw [memberOf, if_neg hgre, if_neg hudp, if_neg hmpls, if_pos hvxlan]
  · have hpbb' : o.Rebuilt (pbbTunnel req o₁).2 req .tunnel := by
      apply pbbTunnel_rebuilt h
      rw [hflags] at hgre hudp hmpls hvxlan hpbb
      rw [memberOf, if_neg hgre, if_neg hudp, if_neg hmpls, if_neg hvxlan, if_pos hpbb]
    exact .ite (fun _ => ⟨hpbb', hs.vifRefs _⟩) fun _ => ⟨hpbb', hs⟩
  · exact ⟨h, hs.vifRefs _⟩

end

theorem nhTunnelSetReachNh_rebuilt (h : o.Rebuilt o₁ req t) :
    o.Rebuilt (nhTunnelSetReachNh o₁) req t := by
  have hreach : ∀ reach, o.Rebuilt { o₁ with nhReachNh := reach } req t := fun reach =>
    h.handlers reach o₁.nhValidateSrc o₁.nhCryptDev o₁.nhDevArr o₁.nhEncapValid
  unfold nhTunnelSetReachNh
  extract_lets dev
  split_ifs <;> exact hreach _

/-- The nexthop at `p` was rebuilt, and nothing else has changed. -/
def RebuiltAt (s : State) (p : ℕ) (o : Nexthop) (req : NhReq) (t : NhType) (s' : State) : Prop :=
  ∃ refs allocs o', s' = State.store { s with vifRefs := refs, allocs := allocs } p o' ∧
    o.Rebuilt o' req t

theorem SameNexthops.rebuiltAt (h : SameNexthops s s') (ho' : o.Rebuilt o' req t) :
    RebuiltAt s p o req t (s'.store p o') := by
  obtain ⟨refs, allocs, rfl⟩ := h
  exact ⟨refs, allocs, o', rfl, ho'⟩

theorem tunnelFinish_rebuilt {old : DevArr} {r : TunnelExit × Nexthop}
    (h : o.Rebuilt r.2 req .tunnel) (hs : SameNexthops s s') :
    RebuiltAt s p o req .tunnel (tunnelFinish s' p old r).2 := by
  obtain ⟨exit, o₁⟩ := r
  cases exit with
  | done => exact (hs.vifRefs _).rebuiltAt (nhTunnelSetReachNh_rebuilt h)
  | exitAdd ret => exact hs.rebuiltAt (nhTunnelSetReachNh_rebuilt h)
  | exitError ret => exact hs.rebuiltAt h

theorem load_of (ho : s.heap p = some o) : s.load p = .ok o := by
  unfold State.load
  rw [ho]

theorem nhTunnelAdd_rebuilt (ho : s.heap p = some o) (hi : o.Is req .tunnel) (ha : o.Agrees) :
    Returns (nhTunnelAdd s p env req) (fun r => RebuiltAt s p o req .tunnel r.2) := by
  have h := Nexthop.Rebuilt.refl hi ha
  unfold nhTunnelAdd
  rw [load_of ho]
  refine .ite (fun _ => ?_) fun _ => ?_
  · refine .bind (tunnelBranch_branched (h.handlers o.nhReachNh o.nhValidateSrc _ o.nhDevArr _)
      ((SameNexthops.refl s).vifRefs _)) fun r hr => ?_
    exact tunnelFinish_rebuilt hr.1 hr.2
  · exact (SameNexthops.refl s).rebuiltAt (nhTunnelSetReachNh_rebuilt h)

/-! ### The other types -/

theorem encapExit_rebuilt (h : o.Rebuilt o₁ req t) : o.Rebuilt (encapExit req o₁) req t := by
  unfold encapExit
  split_ifs <;> exact h.handlers _ _ o₁.nhCryptDev o₁.nhDevArr o₁.nhEncapValid

section

variable (ho : s.heap p = some o)
include ho

theorem nhEncapAdd_rebuilt (hi : o.Is req .encap) (ha : o.Agrees) :
    Returns (nhEncapAdd s p env req) (fun r => RebuiltAt s p o req .encap r.2) := by
  have h := Nexthop.Rebuilt.refl hi ha
  unfold nhEncapAdd
  rw [load_of ho]
  refine .ite (fun _ => ?_) fun _ => (SameNexthops.refl s).rebuiltAt (encapExit_rebuilt h)
  split
  · refine ((SameNexthops.refl s).vifRefs _).rebuiltAt (encapExit_rebuilt ?_)
    exact (h.write (.encap _ _) rfl).handlers o.nhReachNh o.nhValidateSrc o.nhCryptDev _
      o.nhEncapValid
  · exact (SameNexthops.refl s).rebuiltAt (encapExit_rebuilt h)

theorem nhRcvAdd_rebuilt (hi : o.Is req .rcv) (ha : o.Agrees) :
    Returns (nhRcvAdd s p env req) (fun r => RebuiltAt s p o req .rcv r.2) := by
  have h := Nexthop.Rebuilt.refl hi ha
  unfold nhRcvAdd
  rw [load_of ho]
  dsimp only [bind, Except.bind]
  split
  · exact ((SameNexthops.refl s).vifRefs _).rebuiltAt
      (h.handlers _ o.nhValidateSrc o.nhCryptDev _ o.nhEncapValid)
  · exact (SameNexthops.refl s).rebuiltAt
      (h.handlers _ o.nhValidateSrc o.nhCryptDev o.nhDevArr o.nhEncapValid)

theorem plainAdd_rebuilt {reach : ReachNh} (hi : o.Is req t)
    (ha : o.Agrees) :
    Returns (plainAdd reach s p) (fun r => RebuiltAt s p o req t r.2) := by
  unfold plainAdd
  rw [load_of ho]
  exact (SameNexthops.refl s).rebuiltAt ((Nexthop.Rebuilt.refl hi ha).handlers reach
    o.nhValidateSrc o.nhCryptDev o.nhDevArr o.nhEncapValid)

theorem nhDiscardAdd_rebuilt (hi : o.Is req .discard) (ha : o.Agrees) :
    Returns (nhDiscardAdd s p req) (fun r => RebuiltAt s p o req .discard r.2) := by
  unfold nhDiscardAdd
  rw [load_of ho]
  refine (SameNexthops.refl s).rebuiltAt ⟨⟨rfl, hi.nhFlags, rfl⟩, ⟨?_, ha.single⟩, rfl, rfl, rfl⟩
  have hkind := ha.kind
  rw [Nexthop.member, hi.nhType] at hkind
  exact hkind

theorem store_self : s.store p o = s := by
  unfold State.store
  rw [← ho, update_eq_self]

end

/-- **Building a nexthop without components** rewrites it alone, and only what does not count
references. -/
theorem typeAdd_rebuilt (ht : t ≠ .composite) (ho : s.heap p = some o) (hi : o.Is req t)
    (ha : o.Agrees) :
    Returns (typeAdd s p env req t) (fun r => RebuiltAt s p o req t r.2) := by
  cases t with
  | dead =>
    have h := (SameNexthops.refl s).rebuiltAt (p := p) (Nexthop.Rebuilt.refl hi ha)
    rw [store_self ho] at h
    exact h
  | rcv => exact nhRcvAdd_rebuilt ho hi ha
  | encap => exact nhEncapAdd_rebuilt ho hi ha
  | tunnel => exact nhTunnelAdd_rebuilt ho hi ha
  | resolve => exact plainAdd_rebuilt ho hi ha
  | discard => exact nhDiscardAdd_rebuilt ho hi ha
  | composite => exact absurd rfl ht
  | vrfTranslate => exact plainAdd_rebuilt ho hi ha
  | l2Rcv => exact plainAdd_rebuilt ho hi ha

end Vrouter.Nh
