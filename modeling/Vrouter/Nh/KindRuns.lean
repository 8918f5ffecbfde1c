import Vrouter.Nh.Build

/-! # The payload of a nexthop through requests

A request that changes a nexthop keeps its kind when the nexthop has been given no payload yet, or
when type, tunnel flags and family of the request select the member that the nexthop uses already
(`KeepsKind`).  As long as all changes are of this sort, every nexthop agrees with its kind and has
component arrays of the noted sizes, and no request and no destructor reads the union as another
member than the one last written (`runs_wellFormed`).

The code itself does not see to it: it lets a UDP tunnel change its family, and then takes the two
IPv4 addresses for a pointer (`changedFamily_misread`). -/

namespace Vrouter.Nh

open Vrouter.Lib Function

variable {s s' : State} {p n : ℕ} {o o' : Nexthop} {c : Composite} {D : List ℕ} {env : Env}
  {req : NhReq} {t : NhType} {g : Gathered}

/-! ### Parts that leave the nexthops alone -/

theorem SameNexthops.fit (h : SameNexthops s s') (hs : Fit s D) : Fit s' D := by
  obtain ⟨refs, allocs, rfl⟩ := h
  exact hs.congr rfl rfl rfl

theorem SameNexthops.shrunk (h : SameNexthops s s') : Shrunk s s' := by
  obtain ⟨refs, allocs, rfl⟩ := h
  exact ⟨le_rfl, (Shrunk.refl s).like⟩

theorem alloc_same (s : State) : SameNexthops s s.alloc.2 := ⟨_, _, rfl⟩

theorem get_fit (h : Fit s D) (index : ℕ) :
    Ends Gone (vrouterGetNexthop s index) (fun r => Fit r.2 D ∧ Shrunk s r.2) := by
  unfold vrouterGetNexthop
  refine .ite (fun _ => ⟨h, .refl s⟩) fun _ => ?_
  split
  · exact ⟨h, .refl s⟩
  · exact .bind (ends_load s _) fun o ho => h.setUsers ho _

/-! ### The components of a request -/

theorem takeComponents_fit (ecmp : Bool) : ∀ (l : List (ℕ × ℤ)) (i : ℕ) (s : State), Fit s D →
    Ends Gone (takeComponents ecmp i l s)
      (fun r => r.1.length = l.length ∧ Fit r.2 D ∧ Shrunk s r.2)
  | [], _, s, h => ⟨rfl, h, .refl s⟩
  | (index, label) :: rest, i, s, h => by
    unfold takeComponents
    refine .bind (get_fit h index) fun ⟨cnh, s₁⟩ ⟨hfit₁, hs₁⟩ => ?_
    refine .bind (takeComponents_fit ecmp rest (i + 1) s₁ hfit₁) fun ⟨cs, s₂⟩ h₂ => ?_
    obtain ⟨hlen, hfit₂, hs₂⟩ := h₂
    exact ⟨congrArg (· + 1) hlen, hfit₂, hs₁.trans hs₂⟩

/-- What is gathered are at most the components of the request, and those that exist. -/
structure Gathered.Sound (g : Gathered) (req : NhReq) : Prop where
  length : g.component.length ≤ req.nhrNhList.length
  ecmp : g.ret = .ok →
    g.ecmp.getD [] = if req.nhrFlags.compositeEcmp then activeOf g.component else []
  nonempty : g.ecmp.isSome → g.component ≠ []

theorem gatherEcmp_same (s : State) (req : NhReq) (cs : List ComponentNh) :
    (gatherEcmp s req cs).1.component = cs ∧ SameNexthops s (gatherEcmp s req cs).2 := by
  unfold gatherEcmp State.alloc
  dsimp only
  split_ifs <;> exact ⟨rfl, _, _, rfl⟩

theorem gatherEcmp_sound {cs : List ComponentNh} (hlen : cs.length ≤ req.nhrNhList.length) :
    (gatherEcmp s req cs).1.Sound req := by
  unfold gatherEcmp State.alloc
  dsimp only
  split_ifs with hecmp
  · refine ⟨hlen, fun _ => ?_, fun _ hnil => hecmp.2 ?_⟩
    · rw [if_pos hecmp.1]
      rfl
    · change cs = [] at hnil
      rw [hnil]
      rfl
  · exact ⟨hlen, nofun, nofun⟩
  · refine ⟨hlen, fun _ => ?_, nofun⟩
    change [] = if req.nhrFlags.compositeEcmp = true then activeOf cs else []
    split_ifs with hflag
    · by_contra hne
      exact hecmp ⟨hflag, fun hnil => hne hnil.symm⟩
    · rfl

theorem gatherComponents_fit (h : Fit s D) :
    Ends Gone (gatherComponents s req)
      (fun r => r.1.Sound req ∧ Fit r.2 D ∧ Shrunk s r.2) := by
  have hempty : ∀ ret, ret ≠ .ok → Gathered.Sound ⟨ret, [], none⟩ req :=
    fun ret hret => ⟨Nat.zero_le _, fun hok => absurd hok hret, nofun⟩
  have halloc := alloc_same s
  unfold gatherComponents
  refine .ite (fun _ => ⟨hempty _ nofun, h, .refl s⟩) fun hlen => .ite (fun _ => ?_) fun _ =>
    .ite (fun _ => ?_) fun _ => ⟨hempty _ nofun, halloc.fit h, halloc.shrunk⟩
  · refine ⟨⟨Nat.zero_le _, fun _ => ?_, nofun⟩, h, .refl s⟩
    change [] = if _ then [] else []
    split_ifs <;> rfl
  · refine .bind (takeComponents_fit _ _ _ _ (halloc.fit h)) fun ⟨cs, s₁⟩ ⟨hcs, hfit₁, hs₁⟩ => ?_
    have hle : cs.length ≤ req.nhrNhList.length := by
      rw [hcs, List.length_zip]
      exact min_le_left _ _
    have hs := halloc.shrunk.trans hs₁
    obtain ⟨-, hsame⟩ := gatherEcmp_same s₁ req cs
    refine .ite (fun _ => ?_) fun _ => ⟨⟨hle, nofun, nofun⟩, hfit₁, hs⟩
    exact ⟨gatherEcmp_sound hle, hsame.fit hfit₁, hs.trans hsame.shrunk⟩

/-! ### Composite nexthops -/

/-- The nexthop at `p` is built for a request: everything fits, and it has the type, the flags and
the family of the request. -/
structure Building (s : State) (p : ℕ) (req : NhReq) (t : NhType) : Prop where
  fit : Fit s []
  is : ∀ o, s.heap p = some o → o.Is req t

theorem is_store (h : ∀ o, s.heap p = some o → o.Is req t) (ho : s.heap p = some o)
    (hk : o'.nhType = o.nhType ∧ o'.nhFlags = o.nhFlags ∧ o'.nhFamily = o.nhFamily) :
    ∀ y, (s.store p o').heap p = some y → y.Is req t := by
  obtain ⟨ht, hf, hfam⟩ := hk
  refine forall_store ⟨ht.trans (h o ho).nhType, ?_, hfam.trans (h o ho).nhFamily⟩
  rw [hf]
  exact (h o ho).nhFlags

theorem Building.shrunk (h : Building s p req t) (hs : Shrunk s s') (hfit : Fit s' []) :
    Building s' p req t := by
  refine ⟨hfit, fun o' ho' => ?_⟩
  obtain ⟨o, ho, hlike⟩ := hs.like p o' ho'
  have hi := h.is o ho
  refine ⟨hlike.nhType.trans hi.nhType, ?_, hlike.nhFamily.trans hi.nhFamily⟩
  rw [hlike.nhFlags]
  exact hi.nhFlags

theorem Building.composite (h : Building s p req .composite) (ho : s.heap p = some o) :
    ∃ c, o.nhU.asComposite = .ok c ∧ (c.component.getD []).length = o.arrayLen ∧
      c.cnt ≤ o.arrayLen ∧ (p ∉ s.deferred → c.Sized) := by
  rcases (h.fit.agrees p o ho).asComposite (h.is o ho).nhType with ⟨hblank, hc⟩ | ⟨c, hu, hc⟩
  · refine ⟨{}, hc, ?_, Nat.zero_le _, fun _ => Composite.sized_empty⟩
    rw [Nexthop.arrayLen, hblank]
    rfl
  · refine ⟨c, hc, ?_, ?_, fun hd => h.fit.sized p o ho hd (by simp) c hu⟩
    · rw [Nexthop.arrayLen, hu]
    · rw [Nexthop.arrayLen, hu]
      exact h.fit.bounded p o ho c hu

theorem dropSlot_fit (h : Building s p req .composite) (i : ℕ) :
    Ends Gone (dropSlot p s i) (fun s' => Fit s' [] ∧ Shrunk s s') := by
  unfold dropSlot
  refine .bind (ends_load s p) fun o ho => ?_
  obtain ⟨c, hc, hlen, hcnt, -⟩ := h.composite ho
  rw [hc]
  refine .ite (fun hi => ?_) fun _ => ⟨h.fit, .refl s⟩
  refine .bind_ok (slot_of (List.getElem?_eq_getElem (by omega))) ?_
  split
  · exact put_fit h.fit _
  · exact ⟨h.fit, .refl s⟩

/-- There are no components. -/
structure Composite.Emptied (c : Composite) : Prop where
  cnt : c.cnt = 0
  component : c.component.getD [] = []
  ecmpCnt : c.ecmpCnt = 0
  ecmpActive : c.ecmpActive = none

theorem Composite.Sized.emptied (h : c.Sized) (hc : ¬ (c.cnt ≠ 0 ∧ c.component.isSome = true)) :
    c.Emptied := by
  have hcnt : c.cnt = 0 := by
    by_contra hne
    refine hc ⟨hne, ?_⟩
    cases hcomp : c.component with
    | none =>
      have := h.cnt
      rw [hcomp] at this
      exact absurd this hne
    | some l => rfl
  have hactive : c.ecmpActive = none := by
    cases ha : c.ecmpActive with
    | none => rfl
    | some l => exact absurd hcnt (h.active (by rw [ha]; rfl))
  refine ⟨hcnt, List.length_eq_zero_iff.mp (h.cnt.symm.trans hcnt), ?_, hactive⟩
  rw [h.ecmpCnt, hactive]
  rfl

theorem Composite.emptied_emptied (h : c.Sized) : c.emptied.Emptied := by
  refine ⟨rfl, rfl, ?_, rfl⟩
  change (if c.ecmpActive.isSome = true then 0 else c.ecmpCnt) = 0
  split_ifs with ha
  · rfl
  · rw [h.ecmpCnt, Option.not_isSome_iff_eq_none.mp ha]
    rfl

theorem Composite.Emptied.sized (h : c.Emptied) : c.Sized := by
  refine ⟨by rw [h.cnt, h.component]; rfl, by rw [h.ecmpCnt, h.ecmpActive]; rfl, ?_⟩
  rw [h.ecmpActive]
  nofun

/-- The nexthop at `p`, unless it waits to be freed, has no components. -/
def Cleared (s : State) (p : ℕ) : Prop :=
  ∀ o c, s.heap p = some o → o.nhU.asComposite = .ok c → p ∉ s.deferred → c.Emptied

theorem asComposite_inj {c' : Composite} (h : o.nhU.asComposite = .ok c)
    (h' : o.nhU.asComposite = .ok c') : c = c' := Except.ok.inj (h.symm.trans h')

theorem Building.setComposite (h : Building s p req .composite) (ho : s.heap p = some o)
    (hle : c.cnt ≤ (c.component.getD []).length) (hs : p ∉ s.deferred → c.Sized) :
    Building (s.store p { o with nhU := .composite c }) p req .composite := by
  refine ⟨h.fit.store ho ((h.fit.agrees p o ho).composite (h.is o ho).nhType c) ?_ ?_, ?_⟩
  · intro c' hc'
    cases hc'
    exact hle
  · intro hd _ c' hc'
    cases hc'
    exact hs hd
  · exact is_store h.is ho ⟨rfl, rfl, rfl⟩

theorem dropComponents_fit (h : Building s p req .composite) :
    Ends Gone (dropComponents s p) (fun s' => Building s' p req .composite ∧ Cleared s' p) := by
  unfold dropComponents
  refine .bind (ends_load s p) fun o ho => ?_
  obtain ⟨c, hc, hlen, hcnt, hsized⟩ := h.composite ho
  rw [hc]
  refine .ite (fun _ => ?_) fun hnone => ?_
  · have hloop : ∀ (l : List ℕ) (s : State), Building s p req .composite →
        Ends Gone (l.foldlM (dropSlot p) s) (fun s' => Building s' p req .composite) := by
      refine Ends.foldlM (I := fun _ s => Building s p req .composite) fun i _ s hs => ?_
      exact (dropSlot_fit hs i).mono fun s' hs' => hs.shrunk hs'.2 hs'.1
    refine .bind (hloop _ _ h) fun s₁ h₁ => .bind (ends_load s₁ p) fun o₁ ho₁ => ?_
    obtain ⟨c₁, hc₁, -, -, hsized₁⟩ := h₁.composite ho₁
    rw [hc₁]
    refine ⟨h₁.setComposite ho₁ (Nat.zero_le _) fun hd =>
      (Composite.emptied_emptied (hsized₁ hd)).sized, ?_⟩
    intro o' c' ho' hc' hd
    rw [store_heap_same] at ho'
    cases ho'
    cases hc'
    exact Composite.emptied_emptied (hsized₁ hd)
  · refine ⟨h, fun o' c' ho' hc' hd => ?_⟩
    cases ho.symm.trans ho'
    obtain rfl := asComposite_inj hc hc'
    exact (hsized hd).emptied hnone

/-- The nexthop at `p` has the components that were gathered; the number of those that exist is
noted at the end. -/
structure Loaded (s : State) (p : ℕ) (req : NhReq) (g : Gathered) : Prop where
  fit : Fit s [p]
  is : ∀ o, s.heap p = some o → o.Is req .composite
  loaded : ∀ o c, s.heap p = some o → o.nhU.asComposite = .ok c →
    c.cnt ≤ (c.component.getD []).length ∧ (p ∉ s.deferred →
      c.cnt = (c.component.getD []).length ∧ c.ecmpActive.getD [] = g.ecmp.getD [] ∧
      c.ecmpCnt = 0 ∧ (c.ecmpActive.isSome → c.cnt ≠ 0))

theorem setComponents_loaded (h : Building s p req .composite) (hclear : Cleared s p)
    (hg : g.Sound req) (hreq : req.nhrNhList.length < 2 ^ 16) :
    Ends Gone (setComponents s p g) (fun s' => Loaded s' p req g) := by
  unfold setComponents
  refine .bind (ends_load s p) fun o ho => ?_
  obtain ⟨c, hc, -, -, -⟩ := h.composite ho
  rw [hc]
  have hmod : g.component.length % 2 ^ 16 = g.component.length :=
    Nat.mod_eq_of_lt (lt_of_le_of_lt hg.length hreq)
  refine .ite (fun hnil => ?_) fun hne => ?_
  · refine ⟨h.fit.mask p, h.is, fun o' c' ho' hc' => ?_⟩
    cases ho.symm.trans ho'
    obtain rfl := asComposite_inj hc hc'
    obtain ⟨c₁, hc₁, hlen, hcnt, -⟩ := h.composite ho
    obtain rfl := asComposite_inj hc hc₁
    refine ⟨by omega, fun hd => ?_⟩
    have hempty := hclear o c ho hc hd
    have hecmp : g.ecmp = none := by
      cases he : g.ecmp with
      | none => rfl
      | some l => exact absurd hnil (hg.nonempty (by rw [he]; rfl))
    refine ⟨hempty.sized.cnt, ?_, hempty.ecmpCnt, hempty.sized.active⟩
    rw [hempty.ecmpActive, hecmp]
  · have hagrees := (h.fit.agrees p o ho).composite (h.is o ho).nhType
    refine ⟨(h.fit.mask p).store ho (hagrees _) ?_ (fun _ hp => by simp at hp), ?_, ?_⟩
    · intro c' hc'
      cases hc'
      exact hmod.le
    · exact is_store h.is ho ⟨rfl, rfl, rfl⟩
    · intro o' c' ho' hc'
      rw [store_heap_same] at ho'
      cases ho'
      cases hc'
      refine ⟨hmod.le, fun hd => ?_⟩
      have hempty := hclear o c ho hc hd
      have hpos : g.component.length % 2 ^ 16 ≠ 0 := by
        rw [hmod]
        exact fun hzero => hne (List.length_eq_zero_iff.mp hzero)
      refine ⟨hmod, ?_, hempty.ecmpCnt, fun _ => hpos⟩
      change (if g.ecmp.isSome = true then g.ecmp else c.ecmpActive).getD [] = g.ecmp.getD []
      split_ifs with hsome
      · rfl
      · rw [hempty.ecmpActive, Option.not_isSome_iff_eq_none.mp hsome]

theorem Building.handlers (h : Building s p req t) (ho : s.heap p = some o) (reach : ReachNh)
    (validate : Option ValidateSrc) (direct : Option ℕ) : Building (s.store p { o with
      nhReachNh := reach, nhValidateSrc := validate, nhDirectNh := direct }) p req t := by
  refine ⟨h.fit.store ho ⟨(h.fit.agrees p o ho).kind, (h.fit.agrees p o ho).single⟩
    (h.fit.bounded p o ho) (h.fit.sized p o ho), is_store h.is ho ⟨rfl, rfl, rfl⟩⟩

/-- **What `compositeExit` writes**: handlers, or for ECMP also the number of members. -/
theorem compositeExit_ends {E : Fault → Prop} {Q : State → Prop}
    (hload : Ends E (s.load p) fun o => s.heap p = some o)
    (hreach : ∀ o, s.heap p = some o →
      (g.ret = .ok → req.nhrFlags.compositeEcmp = true → req.nhrFlags.mcast = true) →
      ∀ reach validate, Q (s.store p { o with nhReachNh := reach, nhValidateSrc := validate }))
    (hecmp : ∀ o, s.heap p = some o → g.ret = .ok → req.nhrFlags.compositeEcmp = true →
      Ends E o.nhU.asComposite fun c => Q (s.store p { o with
        nhReachNh := .compositeEcmp
        nhValidateSrc := some .compositeEcmp
        nhU := .composite { c with
          ecmpConfigHash := nhEcmpStoreEcmpConfigHash req
          ecmpCnt := g.active req % 2 ^ 16 } })) :
    Ends E (compositeExit s p req g) Q := by
  unfold compositeExit
  refine .bind hload fun o ho => .ite (fun hmcast => hreach o ho (fun _ _ => hmcast) _ _) fun _ =>
    .ite (fun hflag => .ite (fun hok => ?_) fun hne => ?_) fun hflag => ?_
  · exact .bind (hecmp o ho hok hflag) fun c hc => hc
  · exact hreach o ho (fun hok => absurd hok hne) _ _
  · have hother := hreach o ho fun _ hset => absurd hset hflag
    refine .ite (fun _ => hother _ o.nhValidateSrc) fun _ => .ite (fun _ => hother _ o.nhValidateSrc)
      fun _ => .ite (fun _ => hother _ o.nhValidateSrc) fun _ =>
      .ite (fun _ => hother _ o.nhValidateSrc) fun _ => ?_
    rw [← store_self ho]
    exact hother o.nhReachNh o.nhValidateSrc

theorem compositeExit_refused (h : Building s p req .composite) (hret : g.ret ≠ .ok) :
    Ends Gone (compositeExit s p req g) (fun s' => Building s' p req .composite) :=
  compositeExit_ends (ends_load s p)
    (fun o ho _ reach validate => h.handlers ho reach validate o.nhDirectNh)
    fun _ _ hok => absurd hok hret

theorem Fit.unmask (h : Fit s [p])
    (hs : ∀ o, s.heap p = some o → p ∉ s.deferred → o.Sized) : Fit s [] := by
  refine ⟨h.fresh, h.agrees, h.bounded, fun q o ho hd _ => ?_⟩
  by_cases hq : q = p
  · subst hq
    exact hs o ho hd
  · exact h.sized q o ho hd (by simp [hq])

/-- Without an array of those that exist, the components that were put in are complete. -/
theorem Loaded.building (h : Loaded s p req g) (hnone : g.ecmp.getD [] = []) :
    Building s p req .composite := by
  refine ⟨h.fit.unmask fun o ho hd c hu => ?_, h.is⟩
  obtain ⟨hcnt, hactive, hzero, hpos⟩ := (h.loaded o c ho (by rw [hu]; rfl)).2 hd
  refine ⟨hcnt, ?_, hpos⟩
  rw [hzero, hactive, hnone]
  rfl

theorem Loaded.handlers (h : Loaded s p req g) (ho : s.heap p = some o) (reach : ReachNh)
    (validate : Option ValidateSrc) :
    Loaded (s.store p { o with nhReachNh := reach, nhValidateSrc := validate }) p req g := by
  refine ⟨h.fit.store ho ⟨(h.fit.agrees p o ho).kind, (h.fit.agrees p o ho).single⟩
    (h.fit.bounded p o ho) (h.fit.sized p o ho), is_store h.is ho ⟨rfl, rfl, rfl⟩,
    fun o' c ho' hc => ?_⟩
  rw [store_heap_same] at ho'
  cases ho'
  exact h.loaded o c ho hc

/-- The end of a request that was carried out: the number of components that exist is noted. -/
theorem compositeExit_loaded (h : Loaded s p req g) (hret : g.ret = .ok) (hg : g.Sound req)
    (hreq : req.nhrNhList.length < 2 ^ 16)
    (hflags : ¬ (req.nhrFlags.mcast = true ∧ req.nhrFlags.compositeEcmp = true)) :
    Ends Gone (compositeExit s p req g) (fun s' => Building s' p req .composite) := by
  refine compositeExit_ends (ends_load s p) (fun o ho hother reach validate => ?_)
    fun o ho _ hecmp => ?_
  · refine (h.handlers ho reach validate).building ?_
    rw [hg.ecmp hret, if_neg fun hecmp => hflags ⟨hother hret hecmp, hecmp⟩]
  -- an ECMP nexthop: the noted number is that of the array
  have hlen : (g.ecmp.getD []).length < 2 ^ 16 := by
    rw [hg.ecmp hret, if_pos hecmp]
    exact lt_of_le_of_lt ((List.length_filter_le _ _).trans hg.length) hreq
  have hactive : g.active req % 2 ^ 16 = (g.ecmp.getD []).length := by
    rw [hg.ecmp hret, if_pos hecmp] at hlen ⊢
    rw [Gathered.active, if_pos hecmp]
    exact Nat.mod_eq_of_lt hlen
  obtain ⟨c, hc⟩ : ∃ c, o.nhU.asComposite = .ok c := by
    rcases (h.fit.agrees p o ho).asComposite (h.is o ho).nhType with ⟨-, hc⟩ | ⟨c, -, hc⟩
    · exact ⟨_, hc⟩
    · exact ⟨_, hc⟩
  obtain ⟨hle, hloaded⟩ := h.loaded o c ho hc
  rw [hc]
  have hfit : Fit (s.store p { o with
      nhReachNh := .compositeEcmp
      nhValidateSrc := some .compositeEcmp
      nhU := .composite { c with
        ecmpConfigHash := nhEcmpStoreEcmpConfigHash req
        ecmpCnt := g.active req % 2 ^ 16 } }) [p] := by
    have hagrees := (h.fit.agrees p o ho).composite (h.is o ho).nhType { c with
      ecmpConfigHash := nhEcmpStoreEcmpConfigHash req
      ecmpCnt := g.active req % 2 ^ 16 }
    refine h.fit.store ho ⟨hagrees.kind, hagrees.single⟩ ?_ (fun _ hp => by simp at hp)
    intro c' hc'
    cases hc'
    exact hle
  refine ⟨hfit.unmask (forall_store fun hd c' hc' => ?_), is_store h.is ho ⟨rfl, rfl, rfl⟩⟩
  cases hc'
  obtain ⟨hcnt, hecmpActive, -, hpos⟩ := hloaded hd
  exact ⟨hcnt, by rw [hecmpActive]; exact hactive, hpos⟩

theorem putAll_fit (h : Building s p req t) (l : List ℕ) :
    Ends Gone (l.foldlM State.put s) (fun s' => Building s' p req t) :=
  Ends.foldlM (I := fun _ s => Building s p req t)
    (fun q _ _ hs => (put_fit hs.fit q).mono fun _ hs' => hs.shrunk hs'.2 hs'.1) l s h

/-- What is asked of a request itself: a size that can be noted, one sort of tunnel, and one sort of
composite. -/
structure NhReq.Plain (req : NhReq) : Prop where
  size : req.nhrNhList.length < 2 ^ 16
  tunnel : ¬ (req.nhrFlags.tunnelGre = true ∧ req.nhrFlags.tunnelUdp = true)
  composite : ¬ (req.nhrFlags.mcast = true ∧ req.nhrFlags.compositeEcmp = true)

theorem nhCompositeAdd_building (h : Building s p req .composite) (hreq : req.Plain) :
    Ends Gone (nhCompositeAdd s p req) (fun r => Building r.2 p req .composite) := by
  unfold nhCompositeAdd
  refine .bind (gatherComponents_fit h.fit) fun ⟨g, s₁⟩ ⟨hg, hfit₁, hs₁⟩ => ?_
  have h₁ := h.shrunk hs₁ hfit₁
  refine .ite (fun hret => ?_) fun hret => ?_
  · unfold replaceComponents
    refine .bind (.bind (ends_load s₁ p) fun o ho => ?_) fun s₂ (h₂ : Loaded s₂ p req g) => ?_
    · have hstore := h₁.handlers ho o.nhReachNh none o.nhDirectNh
      refine .bind (dropComponents_fit hstore) fun s₂ ⟨h₂, hclear⟩ => ?_
      exact setComponents_loaded h₂ hclear hg hreq.size
    · exact .bind (compositeExit_loaded h₂ hret hg hreq.size hreq.composite) fun _ h₃ => h₃
  · refine .bind (compositeExit_refused h₁ hret) fun s₂ h₂ => ?_
    exact .bind (putAll_fit h₂ _) fun _ h₃ => h₃

/-! ### The other nexthops -/

section

variable (h : Building s p req t)
include h

theorem RebuiltAt.building (ho : s.heap p = some o) (ht : t ≠ .composite)
    (hr : RebuiltAt s p o req t s') : Building s' p req t := by
  obtain ⟨refs, allocs, o', rfl, hbuilt⟩ := hr
  have hsized := hbuilt.agrees.sized (by rw [hbuilt.is.nhType]; exact ht)
  have hfit : Fit { s with vifRefs := refs, allocs := allocs } [] :=
    SameNexthops.fit ⟨refs, allocs, rfl⟩ h.fit
  exact ⟨hfit.store ho hbuilt.agrees hsized.bounded fun _ _ => hsized, forall_store hbuilt.is⟩

theorem typeAdd_building (hreq : req.Plain) :
    Ends Gone (typeAdd s p env req t) (fun r => Building r.2 p req t) := by
  by_cases ht : t = .composite
  · subst ht
    exact nhCompositeAdd_building h hreq
  · cases ho : s.heap p with
    | some o =>
      have hr : Returns (typeAdd s p env req t) _ :=
        typeAdd_rebuilt ht ho (h.is o ho) (h.fit.agrees p o ho)
      exact (hr.mono fun r hr => hr.building h ho ht).weaken
    | none =>
      have hload : s.load p = .error .freed := by
        unfold State.load
        rw [ho]
      cases t with
      | dead => exact h
      | composite => exact absurd rfl ht
      | _ =>
        simp only [typeAdd, nhEncapAdd, nhTunnelAdd, nhRcvAdd, nhDiscardAdd, plainAdd, hload]
        rfl

theorem replaceDirect_building (direct : Option ℕ) :
    Ends Gone (replaceDirect s p direct) (fun r => Building r.2 p req t) := by
  unfold replaceDirect
  refine .bind (ends_load s p) fun o ho => ?_
  have hstore : Building (s.store p { o with nhDirectNh := direct }) p req t :=
    h.handlers ho o.nhReachNh o.nhValidateSrc direct
  split
  · exact .bind (put_fit hstore.fit _) fun s' hs' => hstore.shrunk hs'.2 hs'.1
  · exact hstore

theorem nhIndirectAdd_building :
    Ends Gone (nhIndirectAdd s p req) (fun r => Building r.2 p req t) := by
  unfold nhIndirectAdd
  refine .bind (ends_load s p) fun o ho => .ite (fun _ => h) fun _ => ?_
  split
  · exact replaceDirect_building h none
  · refine .bind (get_fit h.fit _) fun ⟨direct, s₁⟩ ⟨hfit₁, hs₁⟩ => ?_
    have h₁ := h.shrunk hs₁ hfit₁
    exact .ite (fun _ => replaceDirect_building h₁ direct) fun _ => h₁
  · exact h

theorem buildIfValid_building (hreq : req.Plain) :
    Ends Gone (buildIfValid s p env req t) (fun r => Building r.2 p req t) := by
  unfold buildIfValid buildNexthop indirectAdd
  refine .ite (fun _ => ?_) fun _ => h
  refine .bind (Q := fun r => Building r.2 p req t) ?_ fun ⟨ret, s₁⟩ h₁ => ?_
  · exact .ite (fun _ => nhIndirectAdd_building h) fun _ => h
  · exact .ite (fun _ => typeAdd_building h₁ hreq) fun _ => h₁

end

/-! ### Requests -/

theorem nhDel_fit (h : Fit s D) : Ends Gone (nhDel s p) (fun s' => Fit s' D) := by
  unfold nhDel
  refine .bind (ends_load s p) fun o ho => .ite (fun _ => h) fun _ => ?_
  refine (put_fit ?_ p).mono fun _ hs' => hs'.1
  exact h.congr rfl rfl rfl

variable {becomesValid : Bool}

theorem makeValid_fit (h : Building s p req t) :
    Ends Gone (makeValid s p becomesValid) (fun s' => Fit s' []) := by
  unfold makeValid
  refine .bind (ends_load s p) fun o ho => .ite (fun _ => ?_) fun _ => h.fit
  obtain ⟨hkind, hsingle⟩ := h.fit.agrees p o ho
  refine h.fit.store ho ⟨?_, hsingle⟩ (h.fit.bounded p o ho) (h.fit.sized p o ho)
  have hmember : Nexthop.member { o with nhFlags := { o.nhFlags with valid := true } } =
      o.member := by
    unfold Nexthop.member
    cases o.nhType <;> rfl
  rw [hmember]
  exact hkind

theorem vrouterAddNexthop_fit (h : Fit s D) :
    Ends Gone (vrouterAddNexthop s p) (fun r => Fit r.2 D) := by
  unfold vrouterAddNexthop
  refine .bind (ends_load s p) fun o ho => .ite (fun _ => h) fun _ => ?_
  split
  · exact h
  · have htable : Fit { s with table := update s.table o.nhId (some p) } D := h.congr rfl rfl rfl
    exact (htable.setUsers ho _).1

theorem publish_fit (h : Building s p req t) :
    Ends Gone (publish s p env becomesValid) (fun r => Fit r.2 []) := by
  unfold publish
  refine .bind (makeValid_fit h) fun s₁ h₁ => .bind (vrouterAddNexthop_fit h₁) fun ⟨ret, s₂⟩ h₂ => ?_
  exact .ite (fun _ => h₂) fun _ => .bind (nhDel_fit h₂) fun _ h₃ => h₃

/-- The request keeps the kind of a nexthop. -/
def NhReq.KeepsKind (req : NhReq) (t : NhType) (o : Nexthop) : Prop :=
  o.nhU = .blank ∨ memberOf t req.nhrFlags req.nhrFamily = o.member

instance (req : NhReq) (t : NhType) (o : Nexthop) : Decidable (req.KeepsKind t o) :=
  inferInstanceAs (Decidable (_ ∨ _))

theorem memberOf_valid (t : NhType) (f : NhFlags) (fam : NhFamily) (valid : Bool) :
    memberOf t { f with valid := valid } fam = memberOf t f fam := by
  cases t <;> rfl

theorem requested_is (req : NhReq) (t : NhType) (becomesValid : Bool) (o : Nexthop) :
    (requested req t becomesValid o).Is req t := by
  cases becomesValid <;> exact ⟨rfl, rfl, rfl⟩

theorem requested_agrees (ha : o.Agrees) (hkind : req.KeepsKind t o) (hreq : req.Plain) :
    (requested req t becomesValid o).Agrees := by
  have hmember : (requested req t becomesValid o).member =
      memberOf t req.nhrFlags req.nhrFamily := by
    cases becomesValid
    · rfl
    · exact memberOf_valid ..
  refine ⟨?_, ?_⟩
  · rw [hmember]
    rcases hkind with hblank | hkeep
    · exact .inl hblank
    · exact ha.kind.imp id fun hk => hk.trans hkeep.symm
  · rw [(requested_is req t becomesValid o).nhFlags]
    exact hreq.tunnel

/-- A request that keeps the kind starts to build. -/
theorem Fit.requested (h : Fit s []) (ho : s.heap p = some o) (hreq : req.Plain)
    (hkind : req.KeepsKind t o) : Building (s.store p (requested req t becomesValid o)) p req t :=
  ⟨h.store ho (requested_agrees (h.agrees p o ho) hkind hreq) (h.bounded p o ho)
    (h.sized p o ho), forall_store (requested_is req t becomesValid o)⟩

theorem cookNexthop_fit {change : Bool} (h : Fit s []) (hreq : req.Plain)
    (hkind : ∀ o, s.heap p = some o → req.KeepsKind t o) :
    Ends Gone (cookNexthop s p env req t change becomesValid) (fun r => Fit r.2 []) := by
  unfold cookNexthop
  refine .bind (ends_load s p) fun o ho => ?_
  refine .bind (buildIfValid_building (h.requested ho hreq (hkind o ho)) hreq) fun ⟨ret, s₁⟩ h₁ => ?_
  refine .ite (fun _ => publish_fit h₁) fun _ => .ite (fun _ => h₁.fit) fun _ => ?_
  exact .bind (nhDel_fit h₁.fit) fun _ h₂ => h₂

/-- A new nexthop, as it is allocated. -/
abbrev State.fresh (s : State) (allocs : List Bool) (size : ℕ) : State :=
  State.store { s with allocs := allocs, next := s.next + 1 } s.next { nhDataSize := size }

theorem Fit.alloc (h : Fit s D) (allocs : List Bool) (size : ℕ) : Fit (s.fresh allocs size) D where
  fresh q hq := by
    change s.next + 1 ≤ q at hq
    rw [store_heap_ne (by omega)]
    exact h.fresh q (by omega)
  agrees := forall_heap_store ⟨.inl rfl, by simp⟩ h.agrees
  bounded := forall_heap_store nofun h.bounded
  sized := forall_heap_store (fun _ _ => nofun) h.sized

theorem addNexthop_fit (h : Fit s []) (hreq : req.Plain) :
    Ends Gone (addNexthop s env req t) (fun r => Fit r.2 []) := by
  unfold addNexthop State.alloc
  refine .ite (fun _ => ?_) fun _ => (alloc_same s).fit h
  exact cookNexthop_fit (h.alloc _ _) hreq (forall_store (.inl rfl))

/-- The nexthop at an index. -/
def State.installed (s : State) (id : ℕ) : Option Nexthop := (s.table id).bind s.heap

/-- **The condition on runs**: a request that meets an installed nexthop keeps its kind. -/
def KeepsKind (s : State) : Event → Prop
  | .add _ req => req.Plain ∧
      ∀ o ∈ s.installed req.nhrId, ∀ t ∈ nhTypeOf req.nhrType, req.KeepsKind t o
  | _ => True

theorem vrNexthopAdd_fit (h : Fit s []) (hkeep : KeepsKind s (.add env req)) :
    Ends Gone (vrNexthopAdd s env req) (fun r => Fit r.2 []) := by
  obtain ⟨hreq, hkind⟩ := hkeep
  have hsame : SameNexthops s { s with allocs := env.allocs } := ⟨_, _, rfl⟩
  unfold vrNexthopAdd
  split
  · exact h
  · rename_i t ht
    refine .ite (fun _ => h) fun _ => ?_
    split
    · exact addNexthop_fit (hsame.fit h) hreq
    · rename_i p hp
      unfold changeNexthop
      refine .bind (ends_load _ p) fun o ho => .ite (fun _ => ?_) fun _ => hsame.fit h
      refine cookNexthop_fit (hsame.fit h) hreq fun o' ho' => ?_
      refine hkind o' ?_ t ht
      rw [State.installed, hp]
      exact ho'

theorem vrNexthopDelete_fit {id : ℕ} (h : Fit s []) :
    Ends Gone (vrNexthopDelete s env id) (fun r => Fit r.2 []) := by
  have hsame : SameNexthops s { s with allocs := env.allocs } := ⟨_, _, rfl⟩
  unfold vrNexthopDelete
  refine .bind (get_fit (hsame.fit h) id) fun ⟨nh, s₁⟩ ⟨h₁, _⟩ => ?_
  dsimp only
  split
  · exact h₁
  · refine .bind (put_fit h₁ _) fun s₂ ⟨h₂, _⟩ => ?_
    exact .bind (nhDel_fit h₂) fun _ h₃ => h₃

theorem callback_fit (h : Fit s []) :
    Ends Gone (vrouterFreeNexthop { s with deferred := s.deferred.erase p } p)
      (fun s' => Fit s' []) := by
  have herase : Fit { s with deferred := s.deferred.erase p } [p] := by
    refine ⟨h.fresh, h.agrees, h.bounded, fun q o ho hd hq => ?_⟩
    rw [List.mem_singleton] at hq
    exact h.sized q o ho (fun hmem => hd ((List.mem_erase_of_ne hq).mpr hmem)) (by simp)
  apply (ends_free (herase.agrees p)).mono
  rintro s' ⟨o, refs, -, rfl⟩
  exact herase.erase

theorem step_fit {e : Event} (h : Fit s []) (hkeep : KeepsKind s e) :
    Ends Gone (step s e) (fun s' => Fit s' []) := by
  cases e with
  | add env req => exact .bind (vrNexthopAdd_fit h hkeep) fun _ h₁ => h₁
  | delete env id => exact .bind (vrNexthopDelete_fit h) fun _ h₁ => h₁
  | hold id =>
    refine .bind (get_fit h id) fun ⟨nh, s₁⟩ ⟨h₁, _⟩ => ?_
    exact h₁.congr rfl rfl rfl
  | drop env p =>
    refine .ite (fun _ => ?_) fun _ => h
    refine (put_fit ?_ p).mono fun _ hs' => hs'.1
    exact h.congr rfl rfl rfl
  | callback p => exact .ite (fun _ => callback_fit h) fun _ => h

theorem init_heap {maxNexthops : ℕ} {notReady : Bool}
    (h : (State.init maxNexthops notReady).heap p = some o) : p = 0 ∧
      o = { nhType := .discard, nhFamily := .inet, nhFlags := { valid := true }, nhUsers := 1 } := by
  change update (fun _ => none) 0 _ p = some o at h
  by_cases hp : p = 0
  · subst hp
    rw [update_self, Option.some.injEq] at h
    exact ⟨rfl, h.symm⟩
  · rw [update_of_ne hp] at h
    simp at h

theorem init_fit (maxNexthops : ℕ) (notReady : Bool) :
    Fit (State.init maxNexthops notReady) [] where
  fresh q hq := by
    change update (fun _ => none) 0 _ q = none
    rw [update_of_ne (Nat.pos_iff_ne_zero.mp hq)]
  agrees q o ho := by
    obtain ⟨-, rfl⟩ := init_heap ho
    exact ⟨.inl rfl, by decide⟩
  bounded q o ho := by
    obtain ⟨-, rfl⟩ := init_heap ho
    nofun
  sized q o ho := by
    obtain ⟨-, rfl⟩ := init_heap ho
    nofun

/-! ### Runs -/

/-- The next state, when there is one. -/
def stepTo (s : State) (e : Event) : Option State := (step s e).toOption

/-- Type and payload agree: a composite nexthop, unless it waits to be freed, reads a component
array of the noted size and, with ECMP, an array of the noted size of those that exist; a UDP tunnel
over IPv6 reads two addresses, each allocated or `NULL`. -/
structure State.WellFormed (s : State) : Prop where
  composite : ∀ p o, s.heap p = some o → p ∉ s.deferred → o.nhType = .composite →
    ∃ c, o.nhU.asComposite = .ok c ∧ c.cnt = (c.component.getD []).length ∧
      (o.nhFlags.compositeEcmp = true → c.ecmpCnt = (c.ecmpActive.getD []).length)
  udp6 : ∀ p o, s.heap p = some o → o.nhType = .tunnel → o.nhFlags.tunnelUdp = true →
    o.nhFamily = .inet6 → ∃ sip6 dip6, o.nhU.asUdpTun6 = .ok (sip6, dip6)

theorem Fit.wellFormed (h : Fit s []) : s.WellFormed where
  composite p o ho hd ht := by
    rcases (h.agrees p o ho).asComposite ht with ⟨-, hc⟩ | ⟨c, hu, hc⟩
    · exact ⟨{}, hc, rfl, fun _ => rfl⟩
    · have hsized := h.sized p o ho hd (by simp) c hu
      exact ⟨c, hc, hsized.cnt, fun _ => hsized.ecmpCnt⟩
  udp6 p o ho ht hudp hfam := by
    obtain ⟨⟨sip6, dip6⟩, hr⟩ := (h.agrees p o ho).asUdpTun6 ht hudp hfam
    exact ⟨sip6, dip6, hr⟩

theorem reach_of_ends {E : Fault → Prop} {P : State → Event → Prop} {I : State → Prop} {s₀ : State}
    (h : Reach stepTo P s₀ s) (h₀ : I s₀) (hstep : ∀ s e, I s → P s e → Ends E (step s e) I) :
    I s := by
  refine h.invariant h₀ fun s e s' hs hp hto => ?_
  have hend := hstep s e hs hp
  unfold stepTo at hto
  cases hs : step s e with
  | error f => simp [hs, Except.toOption] at hto
  | ok s₁ =>
    rw [hs] at hto hend
    cases hto
    exact hend

theorem reach_fit {maxNexthops : ℕ} {notReady : Bool}
    (h : Reach stepTo KeepsKind (State.init maxNexthops notReady) s) : Fit s [] :=
  reach_of_ends h (init_fit maxNexthops notReady) fun _ _ hfit hkeep => step_fit hfit hkeep

/-- **Type and payload agree.**  In every run whose changes keep the kinds of nexthops, the payloads
are those of the types, and no event reads the union as another member than the one last written,
nor an array beyond its end. -/
theorem runs_wellFormed (maxNexthops : ℕ) (notReady : Bool) (s : State)
    (h : Reach stepTo KeepsKind (State.init maxNexthops notReady) s) :
    s.WellFormed ∧ ∀ e, KeepsKind s e → ∀ f, step s e = .error f →
      f ≠ .misread ∧ f ≠ .bounds ∧ f ≠ .depth := by
  have hfit := reach_fit h
  refine ⟨hfit.wellFormed, fun e hkeep f hf => ?_⟩
  have hend := step_fit hfit hkeep
  rw [hf] at hend
  change f = .freed at hend
  subst hend
  decide

instance (req : NhReq) : Decidable req.Plain :=
  decidable_of_iff
    (req.nhrNhList.length < 2 ^ 16 ∧
      ¬ (req.nhrFlags.tunnelGre = true ∧ req.nhrFlags.tunnelUdp = true) ∧
      ¬ (req.nhrFlags.mcast = true ∧ req.nhrFlags.compositeEcmp = true))
    ⟨fun h => ⟨h.1, h.2.1, h.2.2⟩, fun h => ⟨h.size, h.tunnel, h.composite⟩⟩

instance (s : State) : (e : Event) → Decidable (KeepsKind s e)
  | .add _ req => inferInstanceAs (Decidable (req.Plain ∧
      ∀ o ∈ s.installed req.nhrId, ∀ t ∈ nhTypeOf req.nhrType, req.KeepsKind t o))
  | .delete .. => isTrue trivial
  | .hold _ => isTrue trivial
  | .drop .. => isTrue trivial
  | .callback _ => isTrue trivial

/-- An ECMP nexthop with two slots, of which the second has no nexthop. -/
def ecmpReq (members : List ℕ) : NhReq where
  nhrType := 6
  nhrFlags := { valid := true, compositeEcmp := true }
  nhrId := 2
  nhrNhList := members
  nhrLabelList := members.map fun _ => 0

/-- A UDP tunnel over IPv6. -/
def udp6Req : NhReq where
  nhrType := 3
  nhrFamily := .inet6
  nhrFlags := { valid := true, tunnelUdp := true }
  nhrId := 1
  nhrTunSip6 := some (List.replicate 16 1)
  nhrTunDip6 := some (List.replicate 16 2)

/-- A tunnel, an ECMP nexthop over it, and a change and the end of both. -/
def kindRun : List Event :=
  [.add {} udp6Req, .add {} (ecmpReq [1, 5]), .add {} (ecmpReq [1, 1, 0]), .add {} udp6Req,
    .delete {} 2, .delete {} 1, .callback 2]

theorem runs_wellFormed_kindRun :
    ∃ s, runWhen stepTo KeepsKind kindRun (State.init 4 false) = some s ∧ s.WellFormed := by
  have hsome : (runWhen stepTo KeepsKind kindRun (State.init 4 false)).isSome = true := by
    decide +kernel
  obtain ⟨s, hs⟩ := Option.isSome_iff_exists.mp hsome
  exact ⟨s, hs, (runs_wellFormed 4 false s (Reach.init.of_runWhen hs)).1⟩

/-- A UDP tunnel over IPv4. -/
def udp4Req : NhReq where
  nhrType := 3
  nhrFamily := .inet
  nhrFlags := { valid := true, tunnelUdp := true }
  nhrId := 1
  nhrTunSip := 0x0100000a
  nhrTunDip := 0x0200000a

/-- **A tunnel that changes its family**: the request is accepted, and the two IPv4 addresses are
read as the pointer to an IPv6 address. -/
theorem changedFamily_misread :
    ∃ s, step (State.init 4 false) (.add {} udp4Req) = .ok s ∧
      (∃ o ∈ s.installed 1, vrNexthopValidChange udp6Req .tunnel o = true) ∧
      step s (.add {} udp6Req) = .error .misread := by
  have hstep : ∃ s, step (State.init 4 false) (.add {} udp4Req) = .ok s := ⟨_, rfl⟩
  obtain ⟨s, hs⟩ := hstep
  refine ⟨s, hs, ?_⟩
  cases hs
  exact ⟨⟨_, rfl, by decide +kernel⟩, by rfl⟩

end Vrouter.Nh
