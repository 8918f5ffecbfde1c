import Vrouter.Nh.Counts

/-! # Reference counts of nexthops through requests

A nexthop that a request builds is masked and owns the loose references (`Owning`): those that it
had before, less those that were dropped, and those that were taken for it.  When it is published it
takes them back; when the request fails it keeps its old ones, or is given up with the new ones.

So the counts stay exact in every run (`runs_exact`) in which a request changes no nexthop that has a
direct nexthop and keeps the kinds, and in which no count can outgrow its 32 bits.  A change of a
nexthop that has a direct nexthop forgets the old one before `nh_indirect_add` could drop it, so
its count stays one too high for ever (`changedIndirect_leaks`). -/

namespace Vrouter.Nh

open Vrouter.Lib Function

variable {s s' s₁ s₂ : State} {p q n i : ℕ} {o o' o₁ : Nexthop} {c : Composite} {D M x y : List ℕ}
  {env : Env} {req : NhReq} {t : NhType} {g : Gathered}

/-! ### Taking references -/

/-- Every count can grow by `n`. -/
def Room (s : State) (n : ℕ) : Prop := ∀ q, s.users q + n < 2 ^ 32

theorem Room.mono {m : ℕ} (h : Room s n) (hm : m ≤ n) : Room s m := fun q => by
  have := h q
  omega

theorem Room.store (h : Room s n) (ho : o.nhUsers + n < 2 ^ 32) : Room (s.store p o) n := by
  intro q
  by_cases hq : q = p
  · subst hq
    rw [users_store_same]
    exact ho
  · rw [users_store_ne hq]
    exact h q

theorem Frame.setUsers (ho : s.heap p = some o) (u : ℕ) :
    Frame s (s.store p { o with nhUsers := u }) M := by
  refine ⟨rfl, rfl, rfl, rfl, fun m hm y hy => ?_⟩
  by_cases hmp : m = p
  · subst hmp
    cases ho.symm.trans hy
    exact ⟨u, store_heap_same⟩
  · exact ⟨y.nhUsers, by rwa [store_heap_ne hmp]⟩

/-- A state in which `x` are loose, reached without touching the table or the masked nexthops, and
in which every count can still grow by `n`. -/
structure Took (s : State) (x M : List ℕ) (n : ℕ) (s' : State) : Prop where
  counted : Counted s' x M
  frame : Frame s s' M
  room : Room s' n

theorem get_counted (h : Counted s x M) (hroom : Room s (n + 1)) (index : ℕ) :
    Returns (vrouterGetNexthop s index) (fun r => Took s (r.1.toList ++ x) M n r.2) := by
  have hnone : Took s x M n s := ⟨h, .refl s M, hroom.mono (Nat.le_succ n)⟩
  unfold vrouterGetNexthop
  refine .ite (fun _ => hnone) fun hlt => ?_
  split
  · exact hnone
  · rename_i p hp
    obtain ⟨hi, o, ho, -⟩ := h.table index p hp
    have hpos := h.pos_of_installed ⟨index, hi, hp⟩
    have hlt := hroom p
    rw [users_of ho] at hpos hlt
    rw [load_of ho]
    change Took s (p :: x) M n (s.store p { o with nhUsers := (o.nhUsers + 1) % 2 ^ 32 })
    rw [Nat.mod_eq_of_lt (by omega)]
    refine ⟨h.takeOne ho hpos, .setUsers ho _, (hroom.mono (Nat.le_succ n)).store ?_⟩
    change o.nhUsers + 1 + n < 2 ^ 32
    omega

theorem takeComponents_counted (ecmp : Bool) : ∀ (l : List (ℕ × ℤ)) (i : ℕ) (s : State)
    (x : List ℕ), Counted s x M → Room s (l.length + n) →
    Returns (takeComponents ecmp i l s)
      (fun r => Took s (r.1.filterMap (·.cnh) ++ x) M n r.2)
  | [], _, s, x, h, hroom => ⟨h, .refl s M, hroom.mono (by simp)⟩
  | (index, label) :: rest, i, s, x, h, hroom => by
    have hroom' : Room s (rest.length + n + 1) :=
      hroom.mono (by rw [List.length_cons]; omega)
    unfold takeComponents
    refine .bind (get_counted h hroom' index) ?_
    rintro ⟨cnh, s₁⟩ h₁
    refine .bind (takeComponents_counted ecmp rest (i + 1) s₁ _ h₁.counted h₁.room) ?_
    rintro ⟨cs, s₂⟩ h₂
    refine ⟨h₂.counted.perm ?_, h₁.frame.trans h₂.frame, h₂.room⟩
    cases cnh with
    | none => simp
    | some q =>
      simp only [Option.toList_some, List.filterMap_cons, List.cons_append, List.nil_append]
      exact List.perm_middle

theorem SameNexthops.took (hs : SameNexthops s₁ s') (h : Took s x M n s₁) : Took s x M n s' := by
  refine ⟨hs.counted h.counted, ?_, ?_⟩
  · obtain ⟨refs, allocs, rfl⟩ := hs
    obtain ⟨f1, f2, f3, f4, f5⟩ := h.frame
    exact ⟨f1, f2, f3, f4, f5⟩
  · obtain ⟨refs, allocs, rfl⟩ := hs
    exact h.room

theorem gatherComponents_counted (h : Counted s x M) (hroom : Room s (req.nhrNhList.length + n)) :
    Returns (gatherComponents s req)
      (fun r => Took s (r.1.component.filterMap (·.cnh) ++ x) M n r.2) := by
  have hnone : Took s x M n s := ⟨h, .refl s M, hroom.mono (by omega)⟩
  have halloc := (alloc_same s).took hnone
  unfold gatherComponents
  refine .ite (fun _ => hnone) fun hlen => .ite (fun _ => hnone) fun _ => .ite (fun _ => ?_)
    fun _ => halloc
  have hroom' : Room s.alloc.2 ((req.nhrNhList.zip req.nhrLabelList).length + n) := by
    refine Room.mono (n := req.nhrNhList.length + n) hroom ?_
    rw [List.length_zip]
    omega
  refine .bind (takeComponents_counted _ _ _ _ _ halloc.counted hroom') fun ⟨cs, s₁⟩ h₁ => ?_
  have h₁' : Took s (cs.filterMap (·.cnh) ++ x) M n s₁ :=
    ⟨h₁.counted, halloc.frame.trans h₁.frame, h₁.room⟩
  refine .ite (fun _ => ?_) fun _ => h₁'
  change Took s ((gatherEcmp s₁ req cs).1.component.filterMap (·.cnh) ++ x) M n
    (gatherEcmp s₁ req cs).2
  obtain ⟨hcs, hsame⟩ := gatherEcmp_same s₁ req cs
  rw [hcs]
  exact hsame.took h₁'

/-! ### A nexthop that is being built -/

/-- The nexthop at `p` is masked, its references are loose, and beside them those of `x`. -/
structure Owning (s : State) (p : ℕ) (o : Nexthop) (x : List ℕ) : Prop where
  heap : s.heap p = some o
  counted : Counted s (o.refs ++ x) [p]

/-- Two versions of a nexthop with the same count, index and references. -/
structure Nexthop.Kept (o o' : Nexthop) : Prop where
  nhUsers : o'.nhUsers = o.nhUsers
  nhId : o'.nhId = o.nhId
  refs : o'.refs = o.refs

theorem Owning.edit (h : Owning s p o x) (hk : o.Kept o') : Owning (s.store p o') p o' x := by
  refine ⟨store_heap_same, ?_⟩
  rw [hk.refs]
  exact h.counted.edit List.mem_cons_self h.heap hk.nhUsers hk.nhId

theorem Owning.of_users {u : ℕ} (ho : s.heap p = some { o with nhUsers := u })
    (h : Counted s (o.refs ++ x) [p]) : Owning s p { o with nhUsers := u } x := ⟨ho, h⟩

/-- The request has left the table alone, and the nexthop at `p` has its old index. -/
structure Within (s : State) (p : ℕ) (o : Nexthop) (s' : State) (o' : Nexthop) : Prop where
  table : s'.table = s.table
  maxNexthops : s'.maxNexthops = s.maxNexthops
  nhId : o'.nhId = o.nhId

theorem Within.refl (s : State) (p : ℕ) (o : Nexthop) : Within s p o s o := ⟨rfl, rfl, rfl⟩

theorem Within.trans (h₁ : Within s p o s₁ o₁) (h₂ : Within s₁ p o₁ s' o') : Within s p o s' o' :=
  ⟨h₂.table.trans h₁.table, h₂.maxNexthops.trans h₁.maxNexthops, h₂.nhId.trans h₁.nhId⟩

/-! ### Composite nexthops -/

/-- A round of the loop that drops the old components. -/
structure Unloading (s : State) (p : ℕ) (o : Nexthop) (req : NhReq) (a : List ComponentNh)
    (y rest : List ℕ) (t : State) : Prop where
  nexthop : ∃ u, t.heap p = some { o with nhUsers := u }
  counted : Counted t (slotRefs a rest ++ y) [p]
  building : Building t p req .composite
  table : t.table = s.table
  maxNexthops : t.maxNexthops = s.maxNexthops

theorem dropSlot_counted {rest : List ℕ} {t : State} (hu : o.nhU = .composite c)
    (hrange : ∀ j ∈ i :: rest, j < c.cnt) (hcnt : c.cnt ≤ (c.component.getD []).length)
    (h : Unloading s p o req (c.component.getD []) y (i :: rest) t) :
    Returns (dropSlot p t i)
      (Unloading s p o req (c.component.getD []) y rest) := by
  obtain ⟨u, ho⟩ := h.nexthop
  have hi := hrange i List.mem_cons_self
  obtain ⟨z, hz⟩ : ∃ z, (c.component.getD [])[i]? = some z :=
    ⟨_, List.getElem?_eq_getElem (by omega)⟩
  unfold dropSlot
  refine .bind_ok (load_of ho) (.bind_ok (congrArg NhU.asComposite hu) ?_)
  change Ends _ (if i < c.cnt then c.slot i >>= _ else pure t) _
  rw [if_pos hi, slot_of hz]
  dsimp only [bind, Except.bind]
  cases hcnh : z.cnh with
  | none =>
    refine ⟨⟨u, ho⟩, ?_, h.building, h.table, h.maxNexthops⟩
    rw [← slotRefs_none hz hcnh]
    exact h.counted
  | some cnh =>
    have hcounted := h.counted
    rw [slotRefs_some hz hcnh] at hcounted
    apply (put_counted hcounted h.building.fit).mono
    rintro t' ⟨⟨hc', hafter⟩, hfit', hs'⟩
    obtain ⟨u', ho'⟩ := hafter.masked p List.mem_cons_self _ ho
    exact ⟨⟨u', ho'⟩, hc', h.building.shrunk hs' hfit', hafter.table.trans h.table,
      hafter.maxNexthops.trans h.maxNexthops⟩

/-- The old components are dropped; the other references of the nexthop stay. -/
theorem dropComponents_counted (hb : Building s p req .composite) (ho : s.heap p = some o)
    (h : Counted s (o.componentRefs ++ y) [p]) :
    Returns (dropComponents s p) (fun s' => ∃ o', s'.heap p = some o' ∧
      Counted s' y [p] ∧ o'.componentRefs = [] ∧ o'.directRefs = o.directRefs ∧
      Within s p o s' o') := by
  have ht := (hb.is o ho).nhType
  unfold dropComponents
  refine .bind_ok (load_of ho) ?_
  rcases (hb.fit.agrees p o ho).asComposite ht with ⟨hblank, hc⟩ | ⟨c, hu, hc⟩
  · refine .bind_ok hc ?_
    have hnil : o.componentRefs = [] := by
      rw [Nexthop.componentRefs, ht, hblank]
    rw [hnil] at h
    exact ⟨o, ho, h, hnil, rfl, .refl s p o⟩
  · have hrefs : o.componentRefs = slotRefs (c.component.getD []) (List.range c.cnt) := by
      rw [Nexthop.componentRefs, ht, hu, slotRefs_range]
    have hcnt := hb.fit.bounded p o ho c hu
    refine .bind_ok hc ?_
    refine .ite (fun _ => ?_) fun hnone => ?_
    · have hstart : Unloading s p o req (c.component.getD []) y (List.range c.cnt) s :=
        ⟨⟨o.nhUsers, ho⟩, hrefs ▸ h, hb, rfl, rfl⟩
      have hloop : Returns ((List.range c.cnt).foldlM (dropSlot p) s)
          (Unloading s p o req (c.component.getD []) y []) := by
        refine (Ends.foldlM (I := fun rest t => (∀ j ∈ rest, j < c.cnt) ∧
          Unloading s p o req (c.component.getD []) y rest t) ?_ _ _
          ⟨fun j hj => List.mem_range.mp hj, hstart⟩).mono fun _ h => h.2
        intro i rest t h
        exact (dropSlot_counted hu h.1 hcnt h.2).mono fun _ ht =>
          ⟨fun j hj => h.1 j (List.mem_cons_of_mem i hj), ht⟩
      refine .bind hloop fun s₁ h₁ => ?_
      obtain ⟨u, ho₁⟩ := h₁.nexthop
      refine .bind_ok (load_of ho₁) (.bind_ok hc ?_)
      refine ⟨_, store_heap_same, h₁.counted.edit List.mem_cons_self ho₁ rfl rfl, ?_, rfl,
        h₁.table, h₁.maxNexthops, rfl⟩
      simp [Nexthop.componentRefs, ht, Composite.emptied]
    · have hnil : o.componentRefs = [] := by
        rw [hrefs, slotRefs_range]
        by_cases hzero : c.cnt = 0
        · rw [hzero]
          rfl
        · have hcomp : c.component = none := by
            cases hcomp : c.component with
            | none => rfl
            | some l => exact absurd ⟨hzero, by rw [hcomp]; rfl⟩ hnone
          rw [hcomp]
          simp
      rw [hnil] at h
      exact ⟨o, ho, h, hnil, rfl, .refl s p o⟩

theorem setComponents_counted (hb : Building s p req .composite) (ho : s.heap p = some o)
    (h : Counted s (g.component.filterMap (·.cnh) ++ o.directRefs) [p])
    (hnil : o.componentRefs = []) (hg : g.Sound req) (hreq : req.nhrNhList.length < 2 ^ 16) :
    Returns (setComponents s p g)
      (fun s' => ∃ o', Owning s' p o' [] ∧ o'.nhType = .composite ∧ Within s p o s' o') := by
  have ht := (hb.is o ho).nhType
  have hmod : g.component.length % 2 ^ 16 = g.component.length :=
    Nat.mod_eq_of_lt (lt_of_le_of_lt hg.length hreq)
  obtain ⟨c, hc, -⟩ := hb.composite ho
  unfold setComponents
  refine .bind_ok (load_of ho) (.bind_ok hc ?_)
  refine .ite (fun hempty => ?_) fun _ => ?_
  · refine ⟨o, ⟨ho, ?_⟩, ht, .refl s p o⟩
    rw [hempty] at h
    rw [Nexthop.refs, hnil, List.append_nil, List.append_nil]
    exact h
  · refine ⟨_, ⟨store_heap_same, ?_⟩, ht, rfl, rfl, rfl⟩
    refine (h.perm ?_).edit List.mem_cons_self ho rfl rfl
    rw [List.append_nil]
    have hcomponents : Nexthop.componentRefs { o with nhU := .composite { c with
        component := some g.component
        ecmpActive := if g.ecmp.isSome then g.ecmp else c.ecmpActive
        cnt := g.component.length % 2 ^ 16 } } = g.component.filterMap (·.cnh) := by
      unfold Nexthop.componentRefs
      dsimp only
      rw [ht]
      dsimp only
      rw [Option.getD_some, hmod, List.take_length]
    rw [Nexthop.refs, hcomponents]
    exact List.perm_append_comm

theorem compositeExit_kept (ho : s.heap p = some o) (ha : o.Agrees) (ht : o.nhType = .composite) :
    Returns (compositeExit s p req g) (fun s' => ∃ o', s' = s.store p o' ∧
      o.Kept o' ∧ o'.nhType = .composite) := by
  have hsame : ∀ y, s.heap p = some y → y = o := fun y hy => Option.some.inj (hy.symm.trans ho)
  refine compositeExit_ends (by rw [load_of ho]; exact ho) (fun y hy _ reach validate => ?_)
    fun y hy _ _ => ?_
  · obtain rfl := hsame y hy
    exact ⟨_, rfl, ⟨rfl, rfl, rfl⟩, ht⟩
  obtain rfl := hsame y hy
  rcases ha.asComposite ht with ⟨hblank, hc⟩ | ⟨c, hu, hc⟩
  · rw [hc]
    refine ⟨_, rfl, ⟨rfl, rfl, ?_⟩, ht⟩
    simp [Nexthop.refs, Nexthop.directRefs, Nexthop.componentRefs, ht, hblank]
  · rw [hc]
    refine ⟨_, rfl, ⟨rfl, rfl, ?_⟩, ht⟩
    simp [Nexthop.refs, Nexthop.directRefs, Nexthop.componentRefs, ht, hu]

theorem putAll_counted : ∀ (l : List ℕ) (s₁ : State), Fit s₁ D →
    Counted s₁ (l ++ x) M → After s s₁ M →
    Returns (l.foldlM State.put s₁) (fun s' => Counted s' x M ∧ After s s' M)
  | [], _, _, h, ha => ⟨h, ha⟩
  | _ :: l, _, hfit₁, h, ha =>
    .bind (put_counted h hfit₁) fun s₂ ⟨⟨h₂, ha₂⟩, hfit₂, _⟩ =>
      putAll_counted l s₂ hfit₂ h₂ (ha.trans ha₂)

/-- What building leaves: the nexthop owns the loose references. -/
def Built (s : State) (p : ℕ) (o : Nexthop) (r : Ret × State) : Prop :=
  ∃ o', Owning r.2 p o' [] ∧ Within s p o r.2 o'

theorem replaceComponents_counted (hb : Building s p req .composite) (ho : s.heap p = some o)
    (h : Counted s (g.component.filterMap (·.cnh) ++ o.refs) [p]) (hg : g.Sound req)
    (hreq : req.nhrNhList.length < 2 ^ 16) :
    Returns (replaceComponents s p g) (fun s' =>
      (∃ o', Owning s' p o' [] ∧ o'.nhType = .composite ∧ Within s p o s' o') ∧
        Loaded s' p req g) := by
  unfold replaceComponents
  rw [load_of ho]
  change Ends _ (dropComponents (s.store p { o with nhValidateSrc := none }) p >>= _) _
  have hb₁ := hb.handlers ho o.nhReachNh none o.nhDirectNh
  have hc₁ : Counted (s.store p { o with nhValidateSrc := none })
      (o.componentRefs ++ (g.component.filterMap (·.cnh) ++ o.directRefs)) [p] := by
    refine (h.perm ?_).edit List.mem_cons_self ho rfl rfl
    rw [Nexthop.refs, ← List.append_assoc]
    exact List.perm_append_comm
  refine .bind ((dropComponents_counted hb₁ store_heap_same hc₁).and (dropComponents_fit hb₁))
    ?_
  rintro s₂ ⟨⟨o₂, ho₂, hc₂, hnil, hdirect, hwithin₂⟩, hb₂, hclear⟩
  have hc₂' : Counted s₂ (g.component.filterMap (·.cnh) ++ o₂.directRefs) [p] := by
    rw [hdirect]
    exact hc₂
  apply ((setComponents_counted hb₂ ho₂ hc₂' hnil hg hreq).and
    (setComponents_loaded hb₂ hclear hg hreq)).mono
  rintro s₃ ⟨⟨o₃, hown, ht, hwithin₃⟩, hloaded⟩
  exact ⟨⟨o₃, hown, ht, .trans ⟨hwithin₂.table, hwithin₂.maxNexthops, hwithin₂.nhId⟩ hwithin₃⟩,
    hloaded⟩

theorem nhCompositeAdd_built (hb : Building s p req .composite) (h : Owning s p o [])
    (hreq : req.Plain) (hroom : Room s req.nhrNhList.length) :
    Returns (nhCompositeAdd s p req) (Built s p o) := by
  have ht := (hb.is o h.heap).nhType
  unfold nhCompositeAdd
  refine .bind ((gatherComponents_counted (n := 0) h.counted hroom).and
    (gatherComponents_fit hb.fit)) fun ⟨g, s₁⟩ ⟨h₁, hg, hfit₁, hs₁⟩ => ?_
  have hb₁ := hb.shrunk hs₁ hfit₁
  obtain ⟨u, ho₁⟩ := h₁.frame.masked p List.mem_cons_self o h.heap
  have hwithin₁ : Within s p o s₁ { o with nhUsers := u } :=
    ⟨h₁.frame.table, h₁.frame.maxNexthops, rfl⟩
  have hc₁ : Counted s₁ (g.component.filterMap (·.cnh) ++ o.refs) [p] := by
    have := h₁.counted
    rwa [List.append_nil] at this
  refine .ite (fun _ => ?_) fun hret => ?_
  · refine .bind (replaceComponents_counted hb₁ ho₁ hc₁ hg hreq.size)
      fun s₂ ⟨⟨o₂, hown, ht₂, hwithin⟩, hloaded⟩ => ?_
    refine .bind (compositeExit_kept hown.heap (hloaded.fit.agrees p o₂ hown.heap) ht₂)
      fun s₃ ⟨o₃, heq, hkept, _⟩ => ?_
    subst heq
    exact ⟨o₃, hown.edit hkept, hwithin₁.trans ⟨hwithin.table, hwithin.maxNexthops,
      hkept.nhId.trans hwithin.nhId⟩⟩
  · -- the new components are dropped again
    have hown₁ : Owning s₁ p { o with nhUsers := u } (g.component.filterMap (·.cnh)) :=
      ⟨ho₁, hc₁.perm List.perm_append_comm⟩
    refine .bind ((compositeExit_kept ho₁ (hfit₁.agrees p _ ho₁) ht).and
      (compositeExit_refused hb₁ hret)) fun s₂ ⟨⟨o₂, heq, hkept, _⟩, hb₂⟩ => ?_
    subst heq
    have hown₂ := hown₁.edit hkept
    refine .bind (putAll_counted _ _ hb₂.fit (hown₂.counted.perm List.perm_append_comm)
      (.refl _ _)) fun s₃ ⟨hc₃, ha₃⟩ => ?_
    obtain ⟨u', ho₃⟩ := ha₃.masked p List.mem_cons_self o₂ hown₂.heap
    refine ⟨{ o₂ with nhUsers := u' }, .of_users ho₃ ?_, ha₃.table.trans hwithin₁.table,
      ha₃.maxNexthops.trans hwithin₁.maxNexthops, hkept.nhId⟩
    rw [List.append_nil]
    exact hc₃

/-! ### The other nexthops -/

theorem Nexthop.Rebuilt.kept (h : o.Rebuilt o' req t) (hi : o.Is req t) (ht : t ≠ .composite) :
    o.Kept o' := by
  have hnil : ∀ y : Nexthop, y.Is req t → y.componentRefs = [] := by
    intro y hy
    unfold Nexthop.componentRefs
    rw [hy.nhType]
    cases t <;> first | rfl | exact absurd rfl ht
  refine ⟨h.nhUsers, h.nhId, ?_⟩
  rw [Nexthop.refs, Nexthop.refs, hnil o' h.is, hnil o hi, Nexthop.directRefs, Nexthop.directRefs,
    h.nhDirectNh, h.is.nhFlags, hi.nhFlags]

theorem typeAdd_built (hb : Building s p req t) (h : Owning s p o []) (hreq : req.Plain)
    (hroom : t = .composite → Room s req.nhrNhList.length) :
    Returns (typeAdd s p env req t) (Built s p o) := by
  by_cases ht : t = .composite
  · subst ht
    exact nhCompositeAdd_built hb h hreq (hroom rfl)
  · have hi := hb.is o h.heap
    have ha := hb.fit.agrees p o h.heap
    apply (typeAdd_rebuilt ht h.heap hi ha).mono
    rintro ⟨ret, s'⟩ ⟨refs, allocs, o', rfl, hbuilt⟩
    have hown : Owning { s with vifRefs := refs, allocs := allocs } p o [] :=
      ⟨h.heap, SameNexthops.counted ⟨refs, allocs, rfl⟩ h.counted⟩
    exact ⟨o', hown.edit (hbuilt.kept hi ht), rfl, rfl, hbuilt.nhId⟩

theorem replaceDirect_built (direct : Option ℕ) (ho : s.heap p = some o)
    (h : Counted s (direct.toList ++ o.refs) [p]) (hdirect : o.nhDirectNh = none)
    (hindirect : o.nhFlags.indirect = true) :
    Returns (replaceDirect s p direct) (Built s p o) := by
  unfold replaceDirect
  rw [load_of ho]
  dsimp only [bind, Except.bind]
  rw [hdirect]
  refine ⟨{ o with nhDirectNh := direct }, ⟨store_heap_same, ?_⟩, rfl, rfl, rfl⟩
  have hrefs : Nexthop.refs { o with nhDirectNh := direct } = direct.toList ++ o.refs := by
    simp only [Nexthop.refs, Nexthop.directRefs, hindirect, hdirect, if_true, Option.toList_none,
      List.nil_append]
    rfl
  rw [hrefs, List.append_nil]
  exact h.edit List.mem_cons_self ho rfl rfl

section

variable (hb : Building s p req t) (h : Owning s p o []) (hdirect : o.nhDirectNh = none)
  (hroom : Room s req.nhrNhList.length)
include hb h hdirect hroom

theorem indirectAdd_built :
    Returns (indirectAdd s p req)
      (fun r => Built s p o r ∧ (r.1 = .ok → t = .composite → r.2 = s)) := by
  have hsame : Built s p o (.einval, s) := ⟨o, h, .refl s p o⟩
  have hi := hb.is o h.heap
  unfold indirectAdd
  refine .ite (fun hflag => ?_) fun _ => ⟨⟨o, h, .refl s p o⟩, fun _ _ => rfl⟩
  have hindirect : o.nhFlags.indirect = true := by
    rw [hi.nhFlags]
    exact hflag
  have hcounted := h.counted
  rw [List.append_nil] at hcounted
  unfold nhIndirectAdd
  rw [load_of h.heap]
  refine .ite (fun _ => ⟨hsame, nofun⟩) fun htunnel => ?_
  have ht : t ≠ .composite := by
    rintro rfl
    exact htunnel (.inl (by rw [hi.nhType]; decide))
  split
  · exact (replaceDirect_built none h.heap hcounted hdirect hindirect).mono fun r hr =>
      ⟨hr, fun _ hcomposite => absurd hcomposite ht⟩
  · rename_i index hlist
    rw [hlist] at hroom
    refine .bind (get_counted (n := 0) hcounted hroom index) fun ⟨direct, s₁⟩ h₁ => ?_
    obtain ⟨u, ho₁⟩ := h₁.frame.masked p List.mem_cons_self o h.heap
    have hwithin : Within s p o s₁ { o with nhUsers := u } :=
      ⟨h₁.frame.table, h₁.frame.maxNexthops, rfl⟩
    refine .ite (fun _ => ?_) fun hnone => ?_
    · apply (replaceDirect_built direct ho₁ h₁.counted hdirect hindirect).mono
      rintro r ⟨o₂, hown, hwithin₂⟩
      exact ⟨⟨o₂, hown, hwithin.trans hwithin₂⟩, fun _ hcomposite => absurd hcomposite ht⟩
    · have hdir : direct = none := Option.not_isSome_iff_eq_none.mp hnone
      have hc₁ := h₁.counted
      subst hdir
      refine ⟨⟨_, .of_users ho₁ ?_, hwithin⟩, nofun⟩
      rw [List.append_nil]
      exact hc₁
  · exact ⟨hsame, nofun⟩

theorem buildIfValid_built (hreq : req.Plain) :
    Returns (buildIfValid s p env req t) (Built s p o) := by
  have hfit : Ends Gone (indirectAdd s p req) (fun r => Building r.2 p req t) := by
    unfold indirectAdd
    exact .ite (fun _ => nhIndirectAdd_building hb) fun _ => hb
  unfold buildIfValid buildNexthop
  refine .ite (fun _ => ?_) fun _ => ⟨o, h, .refl s p o⟩
  refine .bind ((indirectAdd_built hb h hdirect hroom).and hfit)
    fun ⟨ret, s₁⟩ ⟨⟨⟨o₁, hown, hwithin⟩, hcomposite⟩, hb₁⟩ => ?_
  refine .ite (fun hok => ?_) fun _ => ⟨o₁, hown, hwithin⟩
  have hroom₁ : t = .composite → Room s₁ req.nhrNhList.length := by
    intro ht
    have hsame : s₁ = s := hcomposite hok ht
    rw [hsame]
    exact hroom
  apply (typeAdd_built hb₁ hown hreq hroom₁).mono
  rintro r ⟨o₂, hown₂, hwithin₂⟩
  exact ⟨o₂, hown₂, hwithin.trans hwithin₂⟩

end

/-! ### The table -/

/-- A nexthop leaves the table; the reference of the table is loose. -/
theorem Counted.uninstall (h : Counted s x []) (hi : s.table i = some p) :
    Counted { s with table := update s.table i none } (p :: x) [] := by
  obtain ⟨hlt, o, ho, hid⟩ := h.table i p hi
  have hsub : ∀ j q, update s.table i none j = some q → j ≠ i ∧ s.table j = some q := by
    intro j q hj
    by_cases hji : j = i
    · subst hji
      simp at hj
    · rw [update_of_ne hji] at hj
      exact ⟨hji, hj⟩
  have hout : ¬ State.Installed { s with table := update s.table i none } p := by
    rintro ⟨j, -, hj⟩
    obtain ⟨hji, hj⟩ := hsub j p hj
    obtain ⟨-, o', ho', hid'⟩ := h.table j p hj
    cases ho.symm.trans ho'
    exact hji (hid'.symm.trans hid)
  have hother : ∀ q, q ≠ p →
      (State.Installed { s with table := update s.table i none } q ↔ s.Installed q) := by
    intro q hq
    refine ⟨fun ⟨j, hlt, hj⟩ => ⟨j, hlt, (hsub j q hj).2⟩, fun ⟨j, hlt, hj⟩ => ⟨j, hlt, ?_⟩⟩
    have hji : j ≠ i := by
      rintro rfl
      exact hq (Option.some.inj (hj.symm.trans hi))
    exact (update_of_ne hji ..).trans hj
  refine ⟨h.balanced.moveRoots fun q => ?_, fun j q hj => h.table j q (hsub j q hj).2, nofun,
    h.deferred, h.nodup, h.positive⟩
  unfold State.roots
  by_cases hq : q = p
  · subst hq
    rw [if_neg hout, if_pos ⟨i, hlt, hi⟩, List.count_cons_self]
    change 0 + s.held.count q + (x.count q + 1) = 1 + s.held.count q + x.count q
    omega
  · rw [List.count_cons_of_ne (Ne.symm hq)]
    simp only [hother q hq]

/-- A new nexthop enters the table, with a count of one. -/
abbrev State.enter (s : State) (p : ℕ) (o : Nexthop) : State :=
  State.store { s with table := update s.table o.nhId (some p) } p { o with nhUsers := 1 }

theorem Owning.install (h : Owning s p o []) (hlt : p < s.next) (hu : o.nhUsers = 0)
    (hmax : o.nhId < s.maxNexthops) (hfree : s.table o.nhId = none) :
    Counted (s.enter p o) [] [] := by
  have hc := h.counted
  rw [List.append_nil] at hc
  have hout : ¬ s.Installed p := hc.not_installed ((users_of h.heap).trans hu)
  have hsub : ∀ j q, update s.table o.nhId (some p) j = some q →
      j = o.nhId ∧ q = p ∨ s.table j = some q := by
    intro j q hj
    by_cases hji : j = o.nhId
    · subst hji
      rw [update_self, Option.some.injEq] at hj
      exact .inl ⟨rfl, hj.symm⟩
    · rw [update_of_ne hji] at hj
      exact .inr hj
  have hin : (s.enter p o).Installed p := ⟨o.nhId, hmax, update_self ..⟩
  have hother : ∀ q, q ≠ p → ((s.enter p o).Installed q ↔ s.Installed q) := by
    intro q hq
    refine ⟨fun ⟨j, hlt, hj⟩ => ⟨j, hlt, ?_⟩, fun ⟨j, hlt, hj⟩ => ⟨j, hlt, ?_⟩⟩
    · rcases hsub j q hj with ⟨-, hqp⟩ | hj
      · exact absurd hqp hq
      · exact hj
    · have hji : j ≠ o.nhId := by
        rintro rfl
        rw [hfree] at hj
        simp at hj
      exact (update_of_ne hji ..).trans hj
  have hinstalled : Balanced (Finset.range s.next) (s.enter p o).users (s.enter p o).roots
      (s.owns [p]) o.refs := by
    refine (hc.balanced.take (p := p) ?_ fun r hr => users_store_ne hr).moveRoots fun q => ?_
    · rw [users_store_same, users_of h.heap, hu]
    · unfold State.roots
      by_cases hq : q = p
      · subst hq
        rw [if_pos hin, if_neg hout, List.count_cons_self]
        change 1 + s.held.count q + o.refs.count q = 0 + s.held.count q + (o.refs.count q + 1)
        omega
      · rw [List.count_cons_of_ne (Ne.symm hq)]
        simp only [hother q hq]
        rfl
  refine ⟨hinstalled.move (Finset.mem_range.mpr hlt)
    (fun r hr => ?_) fun q => ?_, fun j q hj => ?_, nofun, fun q hq => ?_, hc.nodup,
    fun q y hy hq _ => ?_⟩
  · rw [owns_store_ne hr]
    exact (owns_cons hr).symm
  · rw [owns_of store_heap_same (by simp), owns_masked List.mem_cons_self, List.count_nil]
    change o.refs.count q + 0 = 0 + o.refs.count q
    omega
  · rcases hsub j q hj with ⟨rfl, rfl⟩ | hj
    · exact ⟨hmax, _, store_heap_same, rfl⟩
    · obtain ⟨hjlt, o₂, ho₂, hid₂⟩ := hc.table j q hj
      have hqp : q ≠ p := fun hqp => hout ⟨j, hjlt, hqp ▸ hj⟩
      exact ⟨hjlt, o₂, (store_heap_ne hqp).trans ho₂, hid₂⟩
  · obtain ⟨o₂, ho₂, hdef⟩ := hc.deferred q hq
    have hqp : q ≠ p := fun hqp => (hc.masked p List.mem_cons_self).1 (hqp ▸ hq)
    exact ⟨o₂, (store_heap_ne hqp).trans ho₂, hdef⟩
  · rcases store_heap hy with ⟨-, rfl⟩ | ⟨hqp, hy⟩
    · exact Nat.one_pos
    · exact hc.positive q y hy hq (by simp [hqp])

theorem nhDel_counted (h : Counted s x []) (hfit : Fit s []) (ho : s.heap p = some o)
    (hid : s.table o.nhId = some p) :
    Returns (nhDel s p) (fun s' => Counted s' x []) := by
  obtain ⟨hlt, -⟩ := h.table o.nhId p hid
  unfold nhDel
  rw [load_of ho]
  refine .ite (fun hle => absurd hlt (Nat.not_lt.mpr hle)) fun _ => ?_
  exact (put_counted (h.uninstall hid) (hfit.congr rfl rfl rfl)).mono fun _ hs => hs.1.1

theorem nhDel_dying (h : Dying s p o [] []) (hfit : Fit s []) (hmax : o.nhId < s.maxNexthops)
    (hid : s.table o.nhId = none) :
    Returns (nhDel s p) (fun s' => Counted s' [] []) := by
  unfold nhDel
  rw [load_of h.heap]
  refine .ite (fun hle => absurd hmax (Nat.not_lt.mpr hle)) fun _ => ?_
  have hsame : { s with table := update s.table o.nhId none } = s := by
    rw [← hid, update_eq_self]
  rw [hsame]
  exact (put_dying h hfit).mono fun _ hs => hs.1.1

/-! ### Requests -/

/-- A nexthop that is being built was installed, or its index is free. -/
def Placed (s : State) (p : ℕ) (o : Nexthop) : Bool → Prop
  | true => s.table o.nhId = some p
  | false => s.table o.nhId = none ∧ ¬ s.Installed p

variable {change becomesValid : Bool} {maxNexthops : ℕ} {e : Event}

theorem Within.placed (h : Within s p o s' o') (hp : Placed s p o change) :
    Placed s' p o' change := by
  cases change with
  | true =>
    change s'.table o'.nhId = some p
    rw [h.table, h.nhId]
    exact hp
  | false =>
    refine ⟨by rw [h.table, h.nhId]; exact hp.1, ?_⟩
    unfold State.Installed
    rw [h.table, h.maxNexthops]
    exact hp.2

theorem Owning.unmask (h : Owning s p o []) (hfit : Fit s []) (hp : s.table o.nhId = some p) :
    Counted s [] [] := by
  obtain ⟨hlt, -⟩ := h.counted.table o.nhId p hp
  have hpos := h.counted.pos_of_installed ⟨o.nhId, hlt, hp⟩
  rw [users_of h.heap] at hpos
  exact h.counted.unmask h.heap (hfit.lt h.heap) (by simp) hpos

theorem Owning.dying (h : Owning s p o []) (hp : ¬ s.Installed p) : Dying s p o [] [] := by
  obtain ⟨-, o', ho', hinst | hzero⟩ := h.counted.masked p List.mem_cons_self
  · exact absurd hinst hp
  · cases h.heap.symm.trans ho'
    exact ⟨h.heap, hzero, by simp, h.counted⟩

theorem makeValid_owning (h : Owning s p o []) :
    Returns (makeValid s p becomesValid)
      (fun s' => ∃ o', Owning s' p o' [] ∧ Within s p o s' o') := by
  unfold makeValid
  rw [load_of h.heap]
  refine .ite (fun _ => ?_) fun _ => ⟨o, h, .refl s p o⟩
  exact ⟨_, h.edit ⟨rfl, rfl, rfl⟩, rfl, rfl, rfl⟩

theorem vrouterAddNexthop_counted (h : Owning s p o []) (hfit : Fit s [])
    (hmax : o.nhId < s.maxNexthops) (hp : Placed s p o change) :
    Returns (vrouterAddNexthop s p) (fun r => r.1 = .ok ∧ Counted r.2 [] [] ∧
      ∃ o', r.2.heap p = some o' ∧ r.2.table o'.nhId = some p) := by
  unfold vrouterAddNexthop
  rw [load_of h.heap]
  refine .ite (fun hle => absurd hmax (Nat.not_lt.mpr hle)) fun _ => ?_
  cases change with
  | true =>
    change s.table o.nhId = some p at hp
    rw [hp]
    exact ⟨rfl, h.unmask hfit hp, o, h.heap, hp⟩
  | false =>
    obtain ⟨hfree, hout⟩ := hp
    have hzero := (h.dying hout).users
    rw [hfree]
    change Ret.ok = .ok ∧ Counted (State.store { s with table := update s.table o.nhId (some p) } p
      { o with nhUsers := (o.nhUsers + 1) % 2 ^ 32 }) [] [] ∧ _
    have hone : (o.nhUsers + 1) % 2 ^ 32 = 1 := by rw [hzero]; rfl
    rw [hone]
    exact ⟨rfl, h.install (hfit.lt h.heap) hzero hmax hfree, _, store_heap_same, update_self ..⟩

theorem publish_counted (hb : Building s p req t) (h : Owning s p o [])
    (hmax : o.nhId < s.maxNexthops) (hp : Placed s p o change) :
    Returns (publish s p env becomesValid) (fun r => Counted r.2 [] []) := by
  unfold publish
  refine .bind ((makeValid_owning h).and (makeValid_fit hb)) fun s₁ ⟨⟨o₁, h₁, hwithin⟩, hfit₁⟩ => ?_
  have hmax₁ : o₁.nhId < s₁.maxNexthops := by
    rw [hwithin.nhId, hwithin.maxNexthops]
    exact hmax
  refine .bind ((vrouterAddNexthop_counted h₁ hfit₁ hmax₁ (hwithin.placed hp)).and
    (vrouterAddNexthop_fit hfit₁)) fun ⟨ret, s₂⟩ ⟨⟨_, hc₂, o₂, ho₂, hid₂⟩, hfit₂⟩ => ?_
  exact .ite (fun _ => hc₂) fun _ => .bind (nhDel_counted hc₂ hfit₂ ho₂ hid₂) fun _ h₃ => h₃

theorem memberOf_composite {f : NhFlags} {fam : NhFamily} (h : memberOf t f fam = some .composite) :
    t = .composite := by
  cases t with
  | composite => rfl
  | tunnel =>
    rw [memberOf] at h
    split_ifs at h <;> simp at h
  | _ => simp [memberOf] at h

/-- A request that keeps the kind keeps the references, if there is no direct nexthop. -/
theorem requested_refs (ha : o.Agrees) (hkind : req.KeepsKind t o) (hdirect : o.nhDirectNh = none) :
    (requested req t becomesValid o).refs = o.refs := by
  have hnone : ∀ y : Nexthop, y.nhDirectNh = none → y.directRefs = [] := by
    intro y hy
    rw [Nexthop.directRefs, hy]
    split_ifs <;> rfl
  rw [Nexthop.refs, Nexthop.refs, hnone o hdirect, hnone _ rfl]
  unfold Nexthop.componentRefs requested
  dsimp only
  cases hu : o.nhU with
  | composite c =>
    rcases hkind with hblank | hkeep
    · rw [hu] at hblank
      simp at hblank
    · have hmember : o.member = some .composite := by
        rcases ha.kind with hblank | hk
        · rw [hu] at hblank
          simp at hblank
        · rw [← hk, hu]
          rfl
      rw [memberOf_composite (hkeep.trans hmember), memberOf_composite hmember]
  | _ => simp

theorem cookNexthop_counted (hfit : Fit s []) (h : Owning s p o []) (hreq : req.Plain)
    (hkind : req.KeepsKind t o) (hdirect : o.nhDirectNh = none)
    (hroom : Room s req.nhrNhList.length) (hmax : req.nhrId < s.maxNexthops)
    (hid : s.Installed p → req.nhrId = o.nhId)
    (hp : Placed s p { o with nhId := req.nhrId } change) :
    Returns (cookNexthop s p env req t change becomesValid)
      (fun r => Counted r.2 [] []) := by
  have hown : Owning (s.store p (requested req t becomesValid o)) p
      (requested req t becomesValid o) [] := by
    refine ⟨store_heap_same, ?_⟩
    rw [requested_refs (hfit.agrees p o h.heap) hkind hdirect]
    exact h.counted.rewrite List.mem_cons_self h.heap rfl hid
  have hb : Building (s.store p (requested req t becomesValid o)) p req t :=
    hfit.requested h.heap hreq hkind
  have hlt := hroom p
  rw [users_of h.heap] at hlt
  have hroom' : Room (s.store p (requested req t becomesValid o)) req.nhrNhList.length :=
    hroom.store hlt
  unfold cookNexthop
  rw [load_of h.heap]
  change Ends _ (buildIfValid _ p env req t >>= _) _
  refine .bind ((buildIfValid_built hb hown rfl hroom' hreq).and (buildIfValid_building hb hreq))
    fun ⟨ret, s₁⟩ ⟨⟨o₁, hown₁, hwithin⟩, hb₁⟩ => ?_
  have hmax₁ : o₁.nhId < s₁.maxNexthops := by
    rw [hwithin.nhId, hwithin.maxNexthops]
    exact hmax
  have hplaced : Placed s₁ p o₁ change := hwithin.placed hp
  refine .ite (fun _ => publish_counted hb₁ hown₁ hmax₁ hplaced) fun _ => .ite (fun hchange => ?_)
    fun hchange => ?_
  · subst hchange
    exact hown₁.unmask hb₁.fit hplaced
  · have hfalse : change = false := by simpa using hchange
    subst hfalse
    exact .bind (nhDel_dying (hown₁.dying hplaced.2) hb₁.fit hmax₁ hplaced.1) fun _ h₂ => h₂

section

variable (h : Counted s [] [])
include h

theorem Counted.alloc (hfit : Fit s []) (allocs : List Bool) (size : ℕ) :
    Owning (s.fresh allocs size) s.next { nhDataSize := size } [] := by
  have hnone := hfit.fresh s.next le_rfl
  have hne : ∀ q o, s.heap q = some o → q ≠ s.next := by
    rintro q o ho rfl
    rw [hnone] at ho
    simp at ho
  refine ⟨store_heap_same, ?_, fun i q hq => ?_, fun m hm => ?_, fun q hq => ?_, h.nodup,
    fun q y hy hq hm => ?_⟩
  · intro r
    have hbal := h.balanced r
    have husers : (s.fresh allocs size).users r = s.users r := by
      by_cases hr : r = s.next
      · subst hr
        rw [users_store_same, State.users, hnone]
        rfl
      · exact users_store_ne hr
    have howns : ∀ q ∈ Finset.range s.next,
        (s.fresh allocs size).owns [s.next] q = s.owns [] q := by
      intro q hq
      have hqn : q ≠ s.next := (Finset.mem_range.mp hq).ne
      rw [owns_store_ne hqn, owns_cons hqn]
      rfl
    rw [husers]
    change s.users r = s.roots r + ownedRefs (Finset.range (s.next + 1)) _ r + _
    rw [ownedRefs, Finset.sum_range_succ, owns_masked List.mem_cons_self,
      Finset.sum_congr rfl fun q hq => by rw [howns q hq]]
    exact hbal
  · obtain ⟨hi, o, ho, hid⟩ := h.table i q hq
    exact ⟨hi, o, (store_heap_ne (hne q o ho)).trans ho, hid⟩
  · obtain rfl := List.mem_singleton.mp hm
    refine ⟨fun hd => ?_, _, store_heap_same, .inr rfl⟩
    obtain ⟨o, ho, -⟩ := h.deferred _ hd
    exact hne _ o ho rfl
  · obtain ⟨o, ho, hdef⟩ := h.deferred q hq
    exact ⟨o, (store_heap_ne (hne q o ho)).trans ho, hdef⟩
  · rcases store_heap hy with ⟨rfl, -⟩ | ⟨-, hy⟩
    · exact absurd List.mem_cons_self hm
    · exact h.positive q y hy hq (by simp)

theorem addNexthop_counted (hfit : Fit s []) (hreq : req.Plain)
    (hroom : Room s req.nhrNhList.length) (hmax : req.nhrId < s.maxNexthops)
    (hfree : s.table req.nhrId = none) :
    Returns (addNexthop s env req t) (fun r => Counted r.2 [] []) := by
  have hout : ¬ s.Installed s.next := by
    rintro ⟨i, -, hi⟩
    obtain ⟨-, o, ho, -⟩ := h.table i _ hi
    rw [hfit.fresh s.next le_rfl] at ho
    simp at ho
  unfold addNexthop State.alloc
  refine .ite (fun _ => ?_) fun _ => SameNexthops.counted ⟨_, _, rfl⟩ h
  have hlt := hroom s.next
  refine cookNexthop_counted (hfit.alloc _ _) (h.alloc hfit _ _) hreq (.inl rfl) rfl
    (Room.store hroom ?_) hmax (fun hin => absurd hin hout) ⟨hfree, hout⟩
  change 0 + _ < 2 ^ 32
  omega

theorem changeNexthop_counted (hfit : Fit s []) (hreq : req.Plain)
    (hroom : Room s req.nhrNhList.length) (hp : s.table req.nhrId = some p)
    (hkind : ∀ o, s.heap p = some o → req.KeepsKind t o ∧ o.nhDirectNh = none) :
    Returns (changeNexthop s p env req t) (fun r => Counted r.2 [] []) := by
  obtain ⟨hmax, o, ho, hid⟩ := h.table req.nhrId p hp
  obtain ⟨hkeep, hdirect⟩ := hkind o ho
  unfold changeNexthop
  rw [load_of ho]
  refine .ite (fun _ => ?_) fun _ => h
  exact cookNexthop_counted hfit ⟨ho, h.mask ho (hfit.lt ho) (by simp) ⟨_, hmax, hp⟩⟩ hreq hkeep
    hdirect hroom hmax (fun _ => hid.symm) hp

end

/-! ### The references as the tables show them -/

/-- The nexthops that are not freed and do not wait for it. -/
def State.live (s : State) : Finset ℕ := (Finset.range s.next).filter (· ∉ s.deferred)

/-- The number of component slots of live composite nexthops that point to a nexthop. -/
def State.componentSlots (s : State) (p : ℕ) : ℕ :=
  ∑ q ∈ s.live, (((s.heap q).map Nexthop.componentRefs).getD []).count p

/-- The number of live indirect nexthops that point to a nexthop. -/
def State.indirects (s : State) (p : ℕ) : ℕ :=
  ∑ q ∈ s.live, (((s.heap q).map Nexthop.directRefs).getD []).count p

/-- All references to a nexthop: of the table, of nexthops, and those held elsewhere. -/
def State.references (s : State) (p : ℕ) : ℕ :=
  (if s.Installed p then 1 else 0) + s.componentSlots p + s.indirects p + s.held.count p

/-- **Exact counts**: `nh_users` of every live nexthop is the number of references to it, and a
nexthop is freed, at once or by a callback that waits, exactly when there are none. -/
structure State.Exact (s : State) : Prop where
  users : ∀ p o, s.heap p = some o → p ∉ s.deferred → o.nhUsers = s.references p
  freed : ∀ p < s.next, (s.heap p = none ∨ p ∈ s.deferred) ↔ s.references p = 0

theorem Counted.users_eq (h : Counted s [] []) (p : ℕ) : s.users p = s.references p := by
  have hdead : ∀ q ∈ s.deferred, s.owns [] q = [] := by
    intro q hq
    obtain ⟨o, ho, -, hrefs⟩ := h.deferred q hq
    rw [owns_of ho (by simp), hrefs]
  have hsplit : ∀ q, (s.owns [] q).count p =
      (((s.heap q).map Nexthop.componentRefs).getD []).count p +
        (((s.heap q).map Nexthop.directRefs).getD []).count p := by
    intro q
    unfold State.owns
    cases s.heap q with
    | none => rfl
    | some o => exact (List.count_append ..).trans (Nat.add_comm ..)
  have howned : ownedRefs (Finset.range s.next) (s.owns []) p =
      s.componentSlots p + s.indirects p := by
    unfold ownedRefs State.componentSlots State.indirects
    rw [← Finset.sum_add_distrib, ← Finset.sum_congr rfl fun q _ => hsplit q]
    refine (Finset.sum_filter_of_ne (p := fun q => q ∉ s.deferred) fun q _ hne hq => hne ?_).symm
    rw [hdead q hq]
    rfl
  have hbal := h.balanced p
  rw [howned, List.count_nil] at hbal
  unfold State.references
  unfold State.roots at hbal
  omega

theorem Counted.exact (h : Counted s [] []) : s.Exact where
  users p o ho _ := (users_of ho).symm.trans (h.users_eq p)
  freed p hp := by
    rw [← h.users_eq p]
    constructor
    · rintro (hnone | hd)
      · rw [State.users, hnone]
        rfl
      · obtain ⟨o, ho, hzero, -⟩ := h.deferred p hd
        exact (users_of ho).trans hzero
    · intro hzero
      by_contra hlive
      rw [not_or] at hlive
      obtain ⟨o, ho⟩ := Option.ne_none_iff_exists'.mp hlive.1
      have hpos := h.positive p o ho hlive.2 (by simp)
      rw [users_of ho] at hzero
      omega

/-! ### Events -/

/-- No count reaches its 32 bits when it grows by `n`. -/
def State.Fits (s : State) (n : ℕ) : Prop := ∀ p < s.next, s.references p + n < 2 ^ 32

/-- **The condition on runs**: changes keep the kind and meet no nexthop that has a direct nexthop,
and no count outgrows its 32 bits. -/
def Careful (s : State) : Event → Prop
  | .add env req => KeepsKind s (.add env req) ∧
      (∀ o ∈ s.installed req.nhrId, o.nhDirectNh = none) ∧ s.Fits req.nhrNhList.length
  | .delete .. => s.Fits 1
  | .hold _ => s.Fits 1
  | _ => True

theorem State.Fits.room (h : s.Fits n) (hn : n < 2 ^ 32) (hc : Counted s [] []) (hfit : Fit s []) :
    Room s n := by
  intro q
  by_cases hq : q < s.next
  · rw [hc.users_eq q]
    exact h q hq
  · rw [State.users, hfit.fresh q (by omega)]
    change 0 + n < 2 ^ 32
    omega

theorem Careful.keepsKind (h : Careful s e) : KeepsKind s e := by
  cases e with
  | add env req => exact h.1
  | _ => trivial

theorem vrNexthopAdd_counted (h : Counted s [] []) (hfit : Fit s [])
    (hcare : Careful s (.add env req)) :
    Returns (vrNexthopAdd s env req) (fun r => Counted r.2 [] []) := by
  obtain ⟨⟨hreq, hkind⟩, hdirect, hfits⟩ := hcare
  have hsame : SameNexthops s { s with allocs := env.allocs } := ⟨_, _, rfl⟩
  have hroom : Room s req.nhrNhList.length :=
    hfits.room (lt_trans hreq.size (by decide)) h hfit
  unfold vrNexthopAdd
  split
  · exact h
  · rename_i t ht
    refine .ite (fun _ => h) fun hmax => ?_
    split
    · rename_i hfree
      exact addNexthop_counted (hsame.counted h) (hsame.fit hfit) hreq hroom
        (Nat.lt_of_not_le hmax) hfree
    · rename_i p hp
      refine changeNexthop_counted (hsame.counted h) (hsame.fit hfit) hreq hroom hp fun o ho => ?_
      have hmem : o ∈ s.installed req.nhrId := by
        rw [State.installed, hp]
        exact ho
      exact ⟨hkind o hmem t ht, hdirect o hmem⟩

theorem get_installed (s : State) (id : ℕ) :
    Ends (fun _ => True) (vrouterGetNexthop s id) (fun r => ∀ p ∈ r.1, s.table id = some p) := by
  unfold vrouterGetNexthop
  refine .ite (fun _ => nofun) fun _ => ?_
  cases hp : s.table id with
  | none => exact nofun
  | some q =>
    refine .bind (Q := fun _ => True) ?_ fun o _ p hp' => hp'
    cases s.load q <;> trivial

theorem vrNexthopDelete_counted {id : ℕ} (h : Counted s [] []) (hfit : Fit s [])
    (hroom : Room s 1) :
    Returns (vrNexthopDelete s env id) (fun r => Counted r.2 [] []) := by
  have hsame : SameNexthops s { s with allocs := env.allocs } := ⟨_, _, rfl⟩
  unfold vrNexthopDelete
  refine .bind (((get_counted (n := 0) (hsame.counted h) hroom id).and
    (get_fit (hsame.fit hfit) id)).and (get_installed _ id))
    fun ⟨nh, s₁⟩ ⟨⟨h₁, hfit₁, _⟩, htable⟩ => ?_
  dsimp only
  cases nh with
  | none => exact h₁.counted
  | some p =>
    refine .bind (put_counted h₁.counted hfit₁) fun s₂ ⟨⟨h₂, hafter⟩, hfit₂, _⟩ => ?_
    have hp : s₂.table id = some p := by
      rw [hafter.table, h₁.frame.table]
      exact htable p rfl
    obtain ⟨-, o, ho, rfl⟩ := h₂.table id p hp
    exact .bind (nhDel_counted h₂ hfit₂ ho hp) fun _ h₃ => h₃

theorem Counted.setHeld {held : List ℕ} {allocs : List Bool} (h : Counted s x [])
    (hperm : (held ++ y).Perm (s.held ++ x)) :
    Counted { s with held := held, allocs := allocs } y [] := by
  refine ⟨h.balanced.moveRoots fun q => ?_, h.table, nofun, h.deferred, h.nodup, h.positive⟩
  have hcount := hperm.count_eq q
  rw [List.count_append, List.count_append] at hcount
  change (if s.Installed q then 1 else 0) + held.count q + y.count q =
    (if s.Installed q then 1 else 0) + s.held.count q + x.count q
  omega

theorem callback_counted (h : Counted s [] []) (hfit : Fit s []) (hp : p ∈ s.deferred) :
    Returns (vrouterFreeNexthop { s with deferred := s.deferred.erase p } p)
      (fun s' => Counted s' [] []) := by
  obtain ⟨o, ho, hzero, hrefs⟩ := h.deferred p hp
  have hmasked : Counted { s with deferred := s.deferred.erase p } [] [p] := by
    refine ⟨h.balanced.congr (fun _ => rfl) fun r _ => ?_, h.table, fun m hm => ?_,
      fun q hq => h.deferred q (List.mem_of_mem_erase hq), h.nodup.erase p, fun q y hy hq hm => ?_⟩
    · by_cases hr : r = p
      · subst hr
        rw [owns_masked List.mem_cons_self, owns_of ho (by simp), hrefs]
      · rw [owns_cons hr]
        rfl
    · obtain rfl := List.mem_singleton.mp hm
      exact ⟨h.nodup.not_mem_erase, o, ho, .inr hzero⟩
    · rw [List.mem_singleton] at hm
      exact h.positive q y hy (fun hd => hq ((List.mem_erase_of_ne hm).mpr hd)) (by simp)
  apply (free_of (s := { s with deferred := s.deferred.erase p }) ho (hfit.agrees p o ho)).mono
  rintro s' ⟨refs, rfl⟩
  exact hmasked.free (by exact ho) (by simp) hzero

theorem step_counted (h : Counted s [] []) (hfit : Fit s []) (hcare : Careful s e) :
    Returns (step s e) (fun s' => Counted s' [] []) := by
  cases e with
  | add env req => exact .bind (vrNexthopAdd_counted h hfit hcare) fun _ h₁ => h₁
  | delete env id =>
    exact .bind (vrNexthopDelete_counted h hfit (hcare.room (by decide) h hfit)) fun _ h₁ => h₁
  | hold id =>
    have hroom : Room s (0 + 1) := State.Fits.room hcare (by decide) h hfit
    refine .bind (get_counted h hroom id) fun ⟨nh, s₁⟩ h₁ => ?_
    have hperm : ((nh.toList ++ s₁.held) ++ []).Perm (s₁.held ++ (nh.toList ++ [])) := by
      rw [List.append_nil, List.append_nil]
      exact List.perm_append_comm
    exact h₁.counted.setHeld hperm
  | drop env p =>
    refine .ite (fun hp => ?_) fun _ => h
    have hloose : Counted { s with held := s.held.erase p, allocs := env.allocs } [p] [] := by
      apply h.setHeld
      rw [List.append_nil]
      exact (List.perm_append_singleton ..).trans (List.perm_cons_erase hp).symm
    exact (put_counted hloose (hfit.congr rfl rfl rfl)).mono fun _ hs' => hs'.1.1
  | callback p => exact .ite (fun hp => callback_counted h hfit hp) fun _ => h

theorem init_counted (hmax : 0 < maxNexthops) (notReady : Bool) :
    Counted (State.init maxNexthops notReady) [] [] := by
  have htable : ∀ i q, (State.init maxNexthops notReady).table i = some q → i = 0 ∧ q = 0 := by
    intro i q hq
    change update (fun _ => none) 0 (some 0) i = some q at hq
    by_cases hi : i = 0
    · subst hi
      rw [update_self, Option.some.injEq] at hq
      exact ⟨rfl, hq.symm⟩
    · rw [update_of_ne hi] at hq
      simp at hq
  have hin : (State.init maxNexthops notReady).Installed 0 := ⟨0, hmax, rfl⟩
  have hout : ∀ q, q ≠ 0 → ¬ (State.init maxNexthops notReady).Installed q :=
    fun q hq ⟨i, _, hi⟩ => hq (htable i q hi).2
  refine ⟨fun r => ?_, fun i q hq => ?_, nofun, nofun, List.nodup_nil, fun q o ho _ _ => ?_⟩
  · have howned : ownedRefs (Finset.range 1) ((State.init maxNexthops notReady).owns []) r = 0 := by
      rw [ownedRefs, Finset.sum_range_one]
      rfl
    change (State.init maxNexthops notReady).users r = _ + ownedRefs (Finset.range 1) _ r + 0
    rw [howned, State.roots]
    by_cases hr : r = 0
    · subst hr
      rw [if_pos hin]
      rfl
    · rw [if_neg (hout r hr), State.users]
      change ((update (fun _ => none) 0 _ r).map _).getD 0 = _
      rw [update_of_ne hr]
      rfl
  · obtain ⟨rfl, rfl⟩ := htable i q hq
    exact ⟨hmax, _, rfl, rfl⟩
  · obtain ⟨-, rfl⟩ := init_heap ho
    exact Nat.one_pos

theorem reach_counted {notReady : Bool} (hmax : 0 < maxNexthops)
    (h : Reach stepTo Careful (State.init maxNexthops notReady) s) :
    Counted s [] [] ∧ Fit s [] := by
  apply reach_of_ends (I := fun s => Counted s [] [] ∧ Fit s []) h
    ⟨init_counted hmax notReady, init_fit maxNexthops notReady⟩
  rintro s e ⟨hc, hfit⟩ hcare
  exact (step_counted hc hfit hcare).and (step_fit hfit hcare.keepsKind)

/-- **Reference counts are exact** in every run that meets the condition, and no event of it touches
a nexthop that is freed. -/
theorem runs_exact (maxNexthops : ℕ) (hmax : 0 < maxNexthops) (notReady : Bool) (s : State)
    (h : Reach stepTo Careful (State.init maxNexthops notReady) s) :
    s.Exact ∧ ∀ e, Careful s e → ∃ s', step s e = .ok s' ∧ s'.Exact := by
  obtain ⟨hc, hfit⟩ := reach_counted hmax h
  refine ⟨hc.exact, fun e hcare => ?_⟩
  obtain ⟨s', hs', hc'⟩ := (step_counted hc hfit hcare).exists_ok
  exact ⟨s', hs', hc'.exact⟩

instance (s : State) (n : ℕ) : Decidable (s.Fits n) :=
  inferInstanceAs (Decidable (∀ p < s.next, s.references p + n < 2 ^ 32))

instance (s : State) : (e : Event) → Decidable (Careful s e)
  | .add env req => inferInstanceAs (Decidable (KeepsKind s (.add env req) ∧
      (∀ o ∈ s.installed req.nhrId, o.nhDirectNh = none) ∧ s.Fits req.nhrNhList.length))
  | .delete .. => inferInstanceAs (Decidable (s.Fits 1))
  | .hold _ => inferInstanceAs (Decidable (s.Fits 1))
  | .drop .. => isTrue trivial
  | .callback _ => isTrue trivial

/-- A discard nexthop. -/
def discardReq : NhReq where
  nhrType := 5
  nhrFlags := { valid := true }
  nhrId := 1

/-- A PBB tunnel whose direct nexthop is the first one. -/
def pbbReq : NhReq where
  nhrType := 3
  nhrFamily := .bridge
  nhrFlags := { valid := true, tunnelPbb := true, indirect := true }
  nhrId := 3
  nhrNhList := [1]
  nhrPbbMac := [2, 0, 0, 0, 0, 1]

/-- A nexthop under an ECMP nexthop, whose members change, and under an indirect one; it is held
elsewhere, deleted, and freed with its last reference. -/
def countRun : List Event :=
  [.add {} discardReq, .add {} (ecmpReq [1, 1, 3]), .add {} pbbReq, .hold 1,
    .add {} (ecmpReq [1, 0]), .delete {} 1, .delete {} 3, .drop {} 1, .delete {} 2, .callback 1]

theorem runs_exact_countRun :
    ∃ s, runWhen stepTo Careful countRun (State.init 4 false) = some s ∧ s.Exact := by
  have hsome : (runWhen stepTo Careful countRun (State.init 4 false)).isSome = true := by
    decide +kernel
  obtain ⟨s, hs⟩ := Option.isSome_iff_exists.mp hsome
  exact ⟨s, hs, (runs_exact 4 (by decide) false s (Reach.init.of_runWhen hs)).1⟩

/-- **A leak**: the indirect nexthop is changed, by the request that made it, and the count of its
direct nexthop is one too high. -/
theorem changedIndirect_leaks :
    ∃ s, runWhen stepTo (fun _ _ => True) [.add {} discardReq, .add {} pbbReq, .add {} pbbReq]
        (State.init 4 false) = some s ∧
      s.users 1 = 3 ∧ s.references 1 = 2 ∧ ¬ s.Exact := by
  obtain ⟨s, hs, husers, hrefs, hlive⟩ : ∃ s, runWhen stepTo (fun _ _ => True)
      [.add {} discardReq, .add {} pbbReq, .add {} pbbReq] (State.init 4 false) = some s ∧
      s.users 1 = 3 ∧ s.references 1 = 2 ∧ 1 ∉ s.deferred := exists_of_decide (by decide +kernel)
  refine ⟨s, hs, husers, hrefs, fun hexact => ?_⟩
  obtain ⟨o, ho⟩ := Counted.exists_of_pos (s := s) (p := 1) (by omega)
  have hcount := hexact.users 1 o ho hlive
  rw [users_of ho] at husers
  omega

end Vrouter.Nh
