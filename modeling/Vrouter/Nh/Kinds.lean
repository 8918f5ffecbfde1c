import Mathlib.Algebra.Order.BigOperators.Group.Finset
import Vrouter.Lib.Reach
import Vrouter.Lib.Sum
import Vrouter.Nh.Model

/-! # Nexthops and the kinds of their payloads

The type, the flags and the family of a nexthop say which member of the union it uses
(`memberOf`).  `Nexthop.Agrees` says that the union is blank or was last written as that member, and
`Composite.Sized` that a composite nexthop has component arrays of the sizes it notes.  Dropping
references keeps this, however the references of the nexthops are connected, and needs no more
depth than there are references (`put_fit`); so do the functions that build nexthops, as long as a
change keeps the kind of a nexthop. -/

namespace Vrouter.Nh

open Vrouter.Lib Function

/-! ### Kinds -/

/-- The members of the union. -/
inductive Kind
  | encap
  | greTun
  | udpTun
  | vxlanTun
  | pbbTun
  | udpTun6
  | composite
  deriving DecidableEq, Repr

/-- The member last written. -/
def NhU.kind : NhU → Option Kind
  | .blank => none
  | .encap .. => some .encap
  | .greTun .. => some .greTun
  | .udpTun .. => some .udpTun
  | .vxlanTun .. => some .vxlanTun
  | .pbbTun .. => some .pbbTun
  | .udpTun6 .. => some .udpTun6
  | .composite _ => some .composite

/-- The member that a nexthop of this type, with these flags and of this family, uses. -/
def memberOf : NhType → NhFlags → NhFamily → Option Kind
  | .composite, _, _ => some .composite
  | .encap, _, _ => some .encap
  | .tunnel, f, fam =>
    if f.tunnelGre then some .greTun
    else if f.tunnelUdp then if fam = .inet6 then some .udpTun6 else some .udpTun
    else if f.tunnelUdpMpls then some .udpTun
    else if f.tunnelVxlan then some .vxlanTun
    else if f.tunnelPbb then some .pbbTun
    else none
  | _, _, _ => none

def Nexthop.member (o : Nexthop) : Option Kind := memberOf o.nhType o.nhFlags o.nhFamily

/-- The union is blank or holds the member that the nexthop uses. -/
structure Nexthop.Agrees (o : Nexthop) : Prop where
  kind : o.nhU = .blank ∨ o.nhU.kind = o.member
  single : ¬ (o.nhFlags.tunnelGre = true ∧ o.nhFlags.tunnelUdp = true)

/-- The component arrays have the sizes that are noted. -/
structure Composite.Sized (c : Composite) : Prop where
  cnt : c.cnt = (c.component.getD []).length
  ecmpCnt : c.ecmpCnt = (c.ecmpActive.getD []).length
  active : c.ecmpActive.isSome → c.cnt ≠ 0

def Nexthop.Sized (o : Nexthop) : Prop := ∀ c, o.nhU = .composite c → c.Sized

/-- No more components are noted than the array has. -/
def Nexthop.Bounded (o : Nexthop) : Prop :=
  ∀ c, o.nhU = .composite c → c.cnt ≤ (c.component.getD []).length

variable {s s' s₁ s₂ : State} {p q n : ℕ} {o o' o₁ o₂ : Nexthop} {c : Composite}
  {D : List ℕ}

theorem Composite.sized_empty : ({} : Composite).Sized := ⟨rfl, rfl, nofun⟩

theorem Nexthop.Sized.bounded (h : o.Sized) : o.Bounded := fun c hc => (h c hc).cnt.le

theorem Nexthop.Agrees.asComposite (h : o.Agrees) (ht : o.nhType = .composite) :
    (o.nhU = .blank ∧ o.nhU.asComposite = .ok {}) ∨
      ∃ c, o.nhU = .composite c ∧ o.nhU.asComposite = .ok c := by
  rcases h.kind with hblank | hkind
  · exact .inl ⟨hblank, by rw [hblank]; rfl⟩
  · rw [Nexthop.member, ht] at hkind
    revert hkind
    cases hu : o.nhU <;> simp [NhU.kind, memberOf, NhU.asComposite]

theorem Nexthop.Agrees.asUdpTun6 (h : o.Agrees) (ht : o.nhType = .tunnel)
    (hudp : o.nhFlags.tunnelUdp = true) (hfam : o.nhFamily = .inet6) :
    ∃ r, o.nhU.asUdpTun6 = .ok r := by
  rcases h.kind with hblank | hkind
  · exact ⟨_, by rw [hblank]; rfl⟩
  · have hgre : ¬ o.nhFlags.tunnelGre = true := fun hgre => h.single ⟨hgre, hudp⟩
    rw [Nexthop.member, ht, memberOf, if_neg hgre, if_pos hudp, if_pos hfam] at hkind
    revert hkind
    cases hu : o.nhU <;> simp [NhU.kind, NhU.asUdpTun6]

/-! ### States -/

/-- Every nexthop agrees with its kind, and all arrays have their sizes but for those of nexthops
that are being given up. -/
structure Fit (s : State) (D : List ℕ) : Prop where
  fresh : ∀ q, s.next ≤ q → s.heap q = none
  agrees : ∀ q o, s.heap q = some o → o.Agrees
  bounded : ∀ q o, s.heap q = some o → o.Bounded
  sized : ∀ q o, s.heap q = some o → q ∉ s.deferred → q ∉ D → o.Sized

/-- The size of the component array. -/
def Nexthop.arrayLen (o : Nexthop) : ℕ :=
  match o.nhU with
  | .composite c => (c.component.getD []).length
  | _ => 0

/-- Two versions of a nexthop that differ in counts and references at most. -/
structure Nexthop.Like (o' o : Nexthop) : Prop where
  nhType : o'.nhType = o.nhType
  nhFlags : o'.nhFlags = o.nhFlags
  nhFamily : o'.nhFamily = o.nhFamily
  nhId : o'.nhId = o.nhId
  arrayLen : o'.arrayLen = o.arrayLen

theorem Nexthop.Like.refl (o : Nexthop) : o.Like o := ⟨rfl, rfl, rfl, rfl, rfl⟩

theorem Nexthop.Like.trans (h₁ : o₁.Like o) (h₂ : o₂.Like o₁) : o₂.Like o where
  nhType := h₂.nhType.trans h₁.nhType
  nhFlags := h₂.nhFlags.trans h₁.nhFlags
  nhFamily := h₂.nhFamily.trans h₁.nhFamily
  nhId := h₂.nhId.trans h₁.nhId
  arrayLen := h₂.arrayLen.trans h₁.arrayLen

/-- Nexthops are dropped or stay what they are, and there are no more references than before. -/
structure Shrunk (s s' : State) : Prop where
  total : s'.total ≤ s.total
  like : ∀ q o', s'.heap q = some o' → ∃ o, s.heap q = some o ∧ o'.Like o

theorem Shrunk.refl (s : State) : Shrunk s s := ⟨le_rfl, fun _ o ho => ⟨o, ho, .refl o⟩⟩

theorem Shrunk.trans (h₁ : Shrunk s s₁) (h₂ : Shrunk s₁ s₂) : Shrunk s s₂ where
  total := h₂.total.trans h₁.total
  like q o₂ ho₂ := by
    obtain ⟨o₁, ho₁, hlike₁⟩ := h₂.like q o₂ ho₂
    obtain ⟨o, ho, hlike⟩ := h₁.like q o₁ ho₁
    exact ⟨o, ho, hlike.trans hlike₁⟩

theorem Fit.congr (h : Fit s D) (hheap : s'.heap = s.heap) (hnext : s'.next = s.next)
    (hdeferred : s'.deferred = s.deferred) : Fit s' D :=
  ⟨by rw [hheap, hnext]; exact h.fresh, by rw [hheap]; exact h.agrees,
    by rw [hheap]; exact h.bounded, by rw [hheap, hdeferred]; exact h.sized⟩

theorem Fit.lt (h : Fit s D) (hp : s.heap p = some o) : p < s.next := by
  by_contra hge
  rw [h.fresh p (by omega)] at hp
  simp at hp

@[simp] theorem store_heap_same : (s.store p o).heap p = some o := update_self ..

theorem store_heap_ne (h : q ≠ p) : (s.store p o).heap q = s.heap q := update_of_ne h ..

theorem forall_store {Q : Nexthop → Prop} (h : Q o) (y : Nexthop)
    (hy : (s.store p o).heap p = some y) : Q y := by
  cases store_heap_same.symm.trans hy
  exact h

theorem store_heap (h : (s.store p o).heap q = some o') :
    q = p ∧ o' = o ∨ q ≠ p ∧ s.heap q = some o' := by
  by_cases hq : q = p
  · subst hq
    rw [store_heap_same, Option.some.injEq] at h
    exact .inl ⟨rfl, h.symm⟩
  · exact .inr ⟨hq, by rwa [store_heap_ne hq] at h⟩

/-- What holds of all nexthops holds of all when one of which it holds is stored. -/
theorem forall_heap_store {P : ℕ → Nexthop → Prop} (hp : P p o')
    (h : ∀ q x, s.heap q = some x → P q x) :
    ∀ q x, (s.store p o').heap q = some x → P q x := by
  intro q x hx
  rcases store_heap hx with ⟨rfl, rfl⟩ | ⟨-, hx⟩
  · exact hp
  · exact h q x hx

theorem total_store (o' : Nexthop) (hlt : p < s.next) (hp : s.heap p = some o) :
    (s.store p o').total + o.weight = s.total + o'.weight := by
  have h := sum_change (fun q => ((s.heap q).map Nexthop.weight).getD 0)
    (fun q => (((s.store p o').heap q).map Nexthop.weight).getD 0) (Finset.mem_range.mpr hlt)
    (fun j hj => by rw [store_heap_ne hj])
  rw [store_heap_same, hp] at h
  exact h

theorem Fit.store (h : Fit s D) (hp : s.heap p = some o) (ha : o'.Agrees) (hb : o'.Bounded)
    (hs : p ∉ s.deferred → p ∉ D → o'.Sized) : Fit (s.store p o') D where
  fresh q hq := by
    have hlt := h.lt hp
    have hne : q ≠ p := fun hq' => by
      subst hq'
      change s.next ≤ q at hq
      omega
    rw [store_heap_ne hne]
    exact h.fresh q hq
  agrees := forall_heap_store ha h.agrees
  bounded := forall_heap_store hb h.bounded
  sized := forall_heap_store hs h.sized

theorem Shrunk.store (hlt : p < s.next) (hp : s.heap p = some o) (hl : o'.Like o)
    (hw : o'.weight ≤ o.weight) : Shrunk s (s.store p o') where
  total := by
    have := total_store o' hlt hp
    omega
  like := forall_heap_store ⟨o, hp, hl⟩ fun _ x hx => ⟨x, hx, .refl x⟩

/-! ### Slots -/

variable {i : ℕ} {x : ComponentNh}

/-- Clearing a slot takes the reference in it out of the array. -/
theorem filterMap_clear_perm {l : List ComponentNh} (hx : l[i]? = some x) (hq : x.cnh = some q) :
    (l.filterMap (·.cnh)).Perm
      (q :: (l.modify i fun x => { x with cnh := none }).filterMap (·.cnh)) := by
  obtain ⟨hi, rfl⟩ := List.getElem?_eq_some_iff.mp hx
  have hl : l = l.take i ++ l[i] :: l.drop (i + 1) := by simp
  rw [List.modify_eq_take_cons_drop hi, List.filterMap_append, List.filterMap_cons_none rfl]
  conv_lhs => rw [hl, List.filterMap_append, List.filterMap_cons_some hq]
  exact List.perm_middle

theorem clearSlot_slots (hu : o.nhU = .composite c) (hx : c.slot i = .ok x) (hq : x.cnh = some q) :
    o.slots.Perm (q :: Nexthop.slots { o with nhU := .composite (c.clearSlot i) }) := by
  cases hc : c.component with
  | none => simp [Composite.slot, hc] at hx
  | some l =>
    have hx' : l[i]? = some x := by
      unfold Composite.slot at hx
      rw [hc] at hx
      cases hl : l[i]? with
      | none => simp [hl] at hx
      | some y =>
        rw [Option.getD_some, hl] at hx
        exact congrArg some (Except.ok.inj hx)
    simp only [Nexthop.slots, hu, Composite.clearSlot, hc, Option.map_some, Option.getD_some]
    exact filterMap_clear_perm hx' hq

theorem slot_of (h : (c.component.getD [])[i]? = some x) : c.slot i = .ok x := by
  rw [Composite.slot, h]

theorem clearSlot_length (c : Composite) (i : ℕ) :
    ((c.clearSlot i).component.getD []).length = (c.component.getD []).length := by
  cases hc : c.component <;> simp [Composite.clearSlot, hc]

/-! ### Dropping references -/

/-- A use of freed memory, which is no misreading. -/
def Gone (e : Fault) : Prop := e = .freed

theorem ends_load (s : State) (p : ℕ) : Ends Gone (s.load p) (fun o => s.heap p = some o) := by
  unfold State.load
  cases h : s.heap p with
  | none => exact (rfl : Fault.freed = .freed)
  | some o => exact rfl

theorem ends_freeUnion (h : o.Agrees) : Returns (freeUnion o) (fun _ => True) := by
  unfold freeUnion
  refine .ite (fun ht => ?_) fun _ => .ite (fun ht => ?_) fun _ => trivial
  · rcases h.asComposite ht with ⟨-, hc⟩ | ⟨c, -, hc⟩ <;> rw [hc] <;> trivial
  · obtain ⟨r, hr⟩ := h.asUdpTun6 ht.1 ht.2.1 ht.2.2
    rw [hr]
    trivial

theorem free_heap (h : update s.heap p none q = some o) : q ≠ p ∧ s.heap q = some o := by
  by_cases hq : q = p
  · subst hq
    simp at h
  · rw [update_of_ne hq] at h
    exact ⟨hq, h⟩

theorem ends_free (h : ∀ o, s.heap p = some o → o.Agrees) :
    Ends Gone (vrouterFreeNexthop s p) (fun s' =>
      ∃ o refs, s.heap p = some o ∧ s' = { s with heap := update s.heap p none, vifRefs := refs }) :=
  .bind (ends_load s p) fun o ho =>
    .bind (ends_freeUnion (h o ho)).weaken fun _ _ => ⟨o, _, ho, rfl⟩

theorem Fit.erase {refs : VifPtr → ℤ} (h : Fit s (p :: D)) :
    Fit { s with heap := update s.heap p none, vifRefs := refs } D where
  fresh q hq := by
    by_cases hqp : q = p
    · subst hqp
      exact update_self ..
    · change update s.heap p none q = none
      rw [update_of_ne hqp]
      exact h.fresh q hq
  agrees q x hx := h.agrees q x (free_heap hx).2
  bounded q x hx := h.bounded q x (free_heap hx).2
  sized q x hx hd hq := by
    obtain ⟨hne, hx⟩ := free_heap hx
    exact h.sized q x hx hd (by simp [hne, hq])

theorem Shrunk.erase {refs : VifPtr → ℤ} {deferred : List ℕ} :
    Shrunk s { s with heap := update s.heap p none, vifRefs := refs, deferred := deferred } where
  total := by
    apply Finset.sum_le_sum
    intro q _
    by_cases hq : q = p
    · subst hq
      simp
    · simp [update_of_ne hq]
  like q x hx := ⟨x, (free_heap hx).2, .refl x⟩

theorem freeOrDefer_fit (h : Fit s (p :: D)) :
    Ends Gone (freeOrDefer s p) (fun s' => Fit s' D ∧ Shrunk s s') := by
  have hfree : ∀ t : State, t.heap = s.heap → Fit t (p :: D) → Shrunk s t →
      Ends Gone (vrouterFreeNexthop t p) (fun s' => Fit s' D ∧ Shrunk s s') := by
    intro t ht hfit hs
    apply (ends_free (hfit.agrees p)).mono
    rintro s' ⟨o, refs, -, rfl⟩
    exact ⟨hfit.erase, hs.trans .erase⟩
  unfold freeOrDefer State.alloc
  refine .ite (fun _ => hfree s rfl h (.refl s)) fun _ => .ite (fun _ => ?_) fun _ => ?_
  · refine ⟨⟨h.fresh, h.agrees, h.bounded, fun q o ho hd hq => ?_⟩, ⟨le_rfl, (Shrunk.refl s).like⟩⟩
    rw [List.mem_cons, not_or] at hd
    exact h.sized q o ho hd.2 (by simp [hd.1, hq])
  · exact hfree _ rfl (h.congr rfl rfl rfl) ⟨le_rfl, (Shrunk.refl s).like⟩

theorem Shrunk.after {r : Run State} (hs : Shrunk s s₁)
    (h : Ends Gone r (fun s' => Fit s' D ∧ Shrunk s₁ s')) :
    Ends Gone r (fun s' => Fit s' D ∧ Shrunk s s') :=
  h.mono fun _ ⟨hfit, hs'⟩ => ⟨hfit, hs.trans hs'⟩

/-- What is asked of the function that drops the references of a nexthop: that it keeps what fits,
in a state with fewer than `n` references. -/
def KeepsFit (put : State → ℕ → Run State) (n : ℕ) : Prop :=
  ∀ s q D, Fit s D → s.total < n → Ends Gone (put s q) (fun s' => Fit s' D ∧ Shrunk s s')

variable {put : State → ℕ → Run State}

theorem Fit.clearDirect (h : Fit s D) (ho : s.heap p = some o) (hq : o.nhDirectNh = some q) :
    Fit (s.store p { o with nhDirectNh := none }) D ∧
      Shrunk s (s.store p { o with nhDirectNh := none }) ∧
      (s.store p { o with nhDirectNh := none }).total + 1 = s.total := by
  have hweight : o.weight = Nexthop.weight { o with nhDirectNh := none } + 1 := by
    simp only [Nexthop.weight, hq, Option.toList, List.length_singleton, List.length_nil,
      Nexthop.slots]
    omega
  have htotal := total_store { o with nhDirectNh := none } (h.lt ho) ho
  have hlike : Nexthop.Like { o with nhDirectNh := none } o := ⟨rfl, rfl, rfl, rfl, rfl⟩
  exact ⟨h.store ho ⟨(h.agrees p o ho).kind, (h.agrees p o ho).single⟩ (h.bounded p o ho)
    (h.sized p o ho), .store (h.lt ho) ho hlike (by omega), by omega⟩

theorem putDirect_fit (hput : KeepsFit put n) (h : Fit s D) (hn : s.total ≤ n) :
    Ends Gone (putDirect put s p) (fun s' => Fit s' D ∧ Shrunk s s') := by
  unfold putDirect
  refine .bind (ends_load s p) fun o ho => ?_
  split
  · rename_i cnh _ hdirect
    obtain ⟨hfit, hs, htotal⟩ := h.clearDirect ho hdirect
    exact hs.after (hput _ cnh D hfit (by omega))
  · exact ⟨h, .refl s⟩

theorem Nexthop.Agrees.composite (h : o.Agrees) (ht : o.nhType = .composite) (c : Composite) :
    Nexthop.Agrees { o with nhU := .composite c } :=
  ⟨.inr (by rw [Nexthop.member, ht]; rfl), h.single⟩

/-- The nexthop at `p` is composite with a component array of this size, unless it is freed. -/
def HasArray (s : State) (p len : ℕ) : Prop :=
  ∀ o, s.heap p = some o → o.nhType = .composite ∧ o.arrayLen = len

theorem HasArray.shrunk {len : ℕ} (h : HasArray s p len) (hs : Shrunk s s') :
    HasArray s' p len := by
  intro o' ho'
  obtain ⟨o, ho, hlike⟩ := hs.like p o' ho'
  obtain ⟨ht, hlen⟩ := h o ho
  exact ⟨hlike.nhType.trans ht, hlike.arrayLen.trans hlen⟩

theorem Nexthop.Agrees.slot (h : o.Agrees) (ht : o.nhType = .composite) (hi : i < o.arrayLen) :
    ∃ c x, o.nhU = .composite c ∧ c.slot i = .ok x := by
  rcases h.asComposite ht with ⟨hblank, -⟩ | ⟨c, hu, -⟩
  · simp [Nexthop.arrayLen, hblank] at hi
  · rw [Nexthop.arrayLen, hu] at hi
    dsimp only at hi
    exact ⟨c, _, hu, slot_of (List.getElem?_eq_getElem hi)⟩

theorem Fit.clearSlot (h : Fit s (p :: D)) (ho : s.heap p = some o) (ht : o.nhType = .composite)
    (hu : o.nhU = .composite c) (hx : c.slot i = .ok x) (hq : x.cnh = some q) :
    Fit (s.store p { o with nhU := .composite (c.clearSlot i) }) (p :: D) ∧
      Shrunk s (s.store p { o with nhU := .composite (c.clearSlot i) }) ∧
      (s.store p { o with nhU := .composite (c.clearSlot i) }).total + 1 = s.total := by
  have hbounded : Nexthop.Bounded { o with nhU := .composite (c.clearSlot i) } := by
    intro c' hc'
    cases hc'
    rw [clearSlot_length]
    exact h.bounded p o ho c hu
  have hweight : o.weight = Nexthop.weight { o with nhU := .composite (c.clearSlot i) } + 1 := by
    unfold Nexthop.weight
    rw [(clearSlot_slots hu hx hq).length_eq, List.length_cons]
    rfl
  have htotal := total_store { o with nhU := .composite (c.clearSlot i) } (h.lt ho) ho
  have hlike : Nexthop.Like { o with nhU := .composite (c.clearSlot i) } o := by
    refine ⟨rfl, rfl, rfl, rfl, ?_⟩
    simp only [Nexthop.arrayLen, hu, clearSlot_length]
  exact ⟨h.store ho ((h.agrees p o ho).composite ht _) hbounded (fun _ hD => by simp at hD),
    .store (h.lt ho) ho hlike (by omega), by omega⟩

theorem putSlot_fit (hput : KeepsFit put n) (h : Fit s (p :: D)) (hn : s.total ≤ n) {len : ℕ}
    (hi : i < len) (hp : HasArray s p len) :
    Ends Gone (putSlot put p s i) (fun s' => Fit s' (p :: D) ∧ Shrunk s s') := by
  unfold putSlot
  refine .bind (ends_load s p) fun o ho => ?_
  obtain ⟨ht, hlen⟩ := hp o ho
  obtain ⟨c, x, hu, hx⟩ := (h.agrees p o ho).slot ht (hlen ▸ hi)
  rw [hu]
  change Ends Gone (c.slot i >>= _) _
  rw [hx]
  dsimp only [bind, Except.bind]
  cases hcnh : x.cnh with
  | none => exact ⟨h, .refl s⟩
  | some cnh =>
    obtain ⟨hfit, hs, htotal⟩ := h.clearSlot ho ht hu hx hcnh
    exact hs.after (hput _ cnh (p :: D) hfit (by omega))

theorem Fit.mask (h : Fit s D) (p : ℕ) : Fit s (p :: D) :=
  ⟨h.fresh, h.agrees, h.bounded, fun q o ho hd hq => h.sized q o ho hd fun hq' =>
    hq (List.mem_cons_of_mem p hq')⟩

/-- What the loop over the components keeps, with the slots that are left. -/
structure Dropping (n len p : ℕ) (D : List ℕ) (s : State) (rest : List ℕ) (t : State) : Prop where
  fit : Fit t (p :: D)
  shrunk : Shrunk s t
  array : HasArray t p len
  slots : ∀ i ∈ rest, i < len
  total : t.total ≤ n

theorem Fit.clearCnt (h : Fit s (p :: D)) (ho : s.heap p = some o) (ht : o.nhType = .composite) :
    ∃ c, o.nhU.asComposite = .ok c ∧
      (c.component.getD []).length = o.arrayLen ∧ c.cnt ≤ o.arrayLen ∧
      Fit (s.store p { o with nhU := .composite { c with cnt := 0 } }) (p :: D) ∧
      Shrunk s (s.store p { o with nhU := .composite { c with cnt := 0 } }) := by
  have hread : ∃ c, o.nhU.asComposite = .ok c ∧
      (c.component.getD []).length = o.arrayLen ∧ c.cnt ≤ o.arrayLen ∧
      Nexthop.slots { o with nhU := .composite { c with cnt := 0 } } = o.slots := by
    rcases (h.agrees p o ho).asComposite ht with ⟨hblank, hc⟩ | ⟨c, hu, hc⟩
    · exact ⟨{}, hc, by simp [Nexthop.arrayLen, Nexthop.slots, hblank]⟩
    · refine ⟨c, hc, ?_⟩
      simp only [Nexthop.arrayLen, Nexthop.slots, hu, true_and, and_true]
      exact h.bounded p o ho c hu
  obtain ⟨c, hc, hlen, hcnt, hslots⟩ := hread
  refine ⟨c, hc, hlen, hcnt, h.store ho ((h.agrees p o ho).composite ht _)
    (fun c' hc' => by cases hc'; exact Nat.zero_le _)
    (fun _ hD => by simp at hD), .store (h.lt ho) ho ⟨rfl, rfl, rfl, rfl, hlen⟩ ?_⟩
  unfold Nexthop.weight
  rw [hslots]

theorem putComponents_fit (hput : KeepsFit put n) (h : Fit s (p :: D)) (hn : s.total ≤ n) :
    Ends Gone (putComponents put s p) (fun s' => Fit s' (p :: D) ∧ Shrunk s s') := by
  unfold putComponents
  refine .bind (ends_load s p) fun o ho => .ite (fun ht => ?_) fun _ => ⟨h, .refl s⟩
  obtain ⟨c, hc, hlen, hcnt, hfit, hshrunk⟩ := h.clearCnt ho ht
  rw [hc]
  change Ends Gone ((List.range c.cnt).foldlM (putSlot put p)
    (s.store p { o with nhU := .composite { c with cnt := 0 } })) _
  have hstart : Dropping n o.arrayLen p D s (List.range c.cnt)
      (s.store p { o with nhU := .composite { c with cnt := 0 } }) := by
    refine ⟨hfit, hshrunk, forall_store ⟨ht, hlen⟩, fun i hi => ?_, hshrunk.total.trans hn⟩
    rw [List.mem_range] at hi
    omega
  apply (Ends.foldlM (I := Dropping n o.arrayLen p D s) ?_ _ _ hstart).mono
  · intro s' hend
    exact ⟨hend.fit, hend.shrunk⟩
  · intro i rest t ht
    apply (putSlot_fit hput ht.fit ht.total (ht.slots i (by simp)) ht.array).mono
    rintro t' ⟨hfit', hs'⟩
    exact ⟨hfit', ht.shrunk.trans hs', ht.array.shrunk hs',
      fun j hj => ht.slots j (by simp [hj]), hs'.total.trans ht.total⟩

theorem giveUp_fit (hput : KeepsFit put n) (h : Fit s D) (hn : s.total ≤ n) :
    Ends Gone (giveUp put s p) (fun s' => Fit s' D ∧ Shrunk s s') := by
  unfold giveUp
  refine .bind (putDirect_fit hput h hn) fun s₁ ⟨hfit₁, hs₁⟩ => ?_
  have hn₁ := hs₁.total.trans hn
  refine .bind (putComponents_fit hput (hfit₁.mask p) hn₁) fun s₂ ⟨hfit₂, hs₂⟩ => ?_
  exact (hs₁.trans hs₂).after (freeOrDefer_fit hfit₂)

theorem Fit.setUsers (h : Fit s D) (ho : s.heap p = some o) (users : ℕ) :
    Fit (s.store p { o with nhUsers := users }) D ∧
      Shrunk s (s.store p { o with nhUsers := users }) :=
  ⟨h.store ho ⟨(h.agrees p o ho).kind, (h.agrees p o ho).single⟩ (h.bounded p o ho)
    (h.sized p o ho), .store (h.lt ho) ho ⟨rfl, rfl, rfl, rfl, rfl⟩ le_rfl⟩

/-- **Dropping a reference** keeps every nexthop in agreement with its kind, and the recursion is
never deeper than there are references. -/
theorem vrouterPutNexthop_fit : ∀ n, KeepsFit (vrouterPutNexthop n) n
  | 0, _, _, _, _, hn => absurd hn (Nat.not_lt_zero _)
  | n + 1, s, p, D, h, hn => by
    unfold vrouterPutNexthop
    refine .bind (ends_load s p) fun o ho => ?_
    obtain ⟨hfit, hs⟩ := h.setUsers ho (o.nhUsers - 1)
    have hle : (s.store p { o with nhUsers := o.nhUsers - 1 }).total ≤ n := by
      have := hs.total
      omega
    refine .ite (fun _ => ?_) fun _ => ⟨hfit, hs⟩
    exact hs.after (giveUp_fit (vrouterPutNexthop_fit n) hfit hle)

theorem put_fit (h : Fit s D) (p : ℕ) :
    Ends Gone (s.put p) (fun s' => Fit s' D ∧ Shrunk s s') :=
  vrouterPutNexthop_fit _ s p D h (Nat.lt_succ_self _)

end Vrouter.Nh
