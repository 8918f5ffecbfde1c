import Vrouter.Lib.Ledger
import Vrouter.Nh.KindRuns

/-! # Reference counts of nexthops

`Counted s x M` says that the counts of all nexthops are exact when one adds to the references that
lie in the table, in other nexthops and elsewhere the loose ones of `x`.  The nexthops of `M` are
*masked*: a nexthop that is given up, or that a request is rebuilding, has handed its references over
to `x`.  Dropping a loose reference takes it off the list, however many nexthops are given up on the
way (`put_counted`). -/

namespace Vrouter.Nh

open Vrouter.Lib Function

/-! ### References -/

/-- The references in the component slots of a composite nexthop. -/
def Nexthop.componentRefs (o : Nexthop) : List ℕ :=
  match o.nhType, o.nhU with
  | .composite, .composite c => ((c.component.getD []).take c.cnt).filterMap (·.cnh)
  | _, _ => []

/-- The reference of an indirect nexthop. -/
def Nexthop.directRefs (o : Nexthop) : List ℕ :=
  if o.nhFlags.indirect then o.nhDirectNh.toList else []

def Nexthop.refs (o : Nexthop) : List ℕ := o.directRefs ++ o.componentRefs

/-- The count of a nexthop; a freed one has none. -/
def State.users (s : State) (p : ℕ) : ℕ := ((s.heap p).map (·.nhUsers)).getD 0

def State.Installed (s : State) (p : ℕ) : Prop := ∃ i < s.maxNexthops, s.table i = some p

instance (s : State) (p : ℕ) : Decidable (s.Installed p) :=
  inferInstanceAs (Decidable (∃ i < s.maxNexthops, s.table i = some p))

/-- The references that do not come from nexthops. -/
def State.roots (s : State) (p : ℕ) : ℕ := (if s.Installed p then 1 else 0) + s.held.count p

/-- The references of a nexthop, unless it is masked. -/
def State.owns (s : State) (M : List ℕ) (q : ℕ) : List ℕ :=
  if q ∈ M then [] else ((s.heap q).map Nexthop.refs).getD []

/-- The counts are exact, up to the loose references `x`. -/
structure Counted (s : State) (x M : List ℕ) : Prop where
  balanced : Balanced (Finset.range s.next) s.users s.roots (s.owns M) x
  table : ∀ i p, s.table i = some p → i < s.maxNexthops ∧ ∃ o, s.heap p = some o ∧ o.nhId = i
  masked : ∀ m ∈ M, m ∉ s.deferred ∧ ∃ o, s.heap m = some o ∧ (s.Installed m ∨ o.nhUsers = 0)
  deferred : ∀ q ∈ s.deferred, ∃ o, s.heap q = some o ∧ o.nhUsers = 0 ∧ o.refs = []
  nodup : s.deferred.Nodup
  positive : ∀ q o, s.heap q = some o → q ∉ s.deferred → q ∉ M → 0 < o.nhUsers

variable {s s' s₁ s₂ : State} {p q n : ℕ} {o o' : Nexthop} {c : Composite} {D M x y : List ℕ}

theorem users_of (ho : s.heap p = some o) : s.users p = o.nhUsers := by
  rw [State.users, ho]
  rfl

@[simp] theorem users_store_same : (s.store p o).users p = o.nhUsers := users_of store_heap_same

theorem users_store_ne (h : q ≠ p) : (s.store p o).users q = s.users q := by
  rw [State.users, State.users, store_heap_ne h]

theorem owns_store_ne (h : q ≠ p) : (s.store p o).owns M q = s.owns M q := by
  rw [State.owns, State.owns, store_heap_ne h]

theorem owns_of (ho : s.heap p = some o) (hp : p ∉ M) : s.owns M p = o.refs := by
  rw [State.owns, if_neg hp, ho]
  rfl

theorem owns_masked (hp : p ∈ M) : s.owns M p = [] := if_pos hp

theorem owns_cons (hq : q ≠ p) : s.owns (p :: M) q = s.owns M q := by
  simp only [State.owns, List.mem_cons, hq, false_or]

namespace Counted

theorem exists_of_pos (hp : 0 < s.users p) : ∃ o, s.heap p = some o := by
  cases h : s.heap p with
  | none =>
    rw [State.users, h] at hp
    simp at hp
  | some o => exact ⟨o, rfl⟩

section

variable (h : Counted s x M)
include h

theorem exists_of_mem (hp : p ∈ x) : ∃ o, s.heap p = some o :=
  exists_of_pos (h.balanced.pos hp)

/-- Only the number of loose references to each nexthop matters. -/
theorem perm (hxy : x.Perm y) : Counted s y M :=
  ⟨h.balanced.moveRoots fun p => by rw [hxy.count_eq], h.table, h.masked, h.deferred, h.nodup,
    h.positive⟩

theorem not_installed (hp : s.users p = 0) : ¬ s.Installed p := by
  intro hinst
  have hroot := h.balanced.root_le p
  rw [State.roots, if_pos hinst] at hroot
  omega

theorem pos_of_installed (hp : s.Installed p) : 0 < s.users p := by
  by_contra hzero
  exact h.not_installed (by omega) hp

theorem not_deferred (ho : s.heap p = some o) (hpos : 0 < o.nhUsers) : p ∉ s.deferred := by
  intro hd
  obtain ⟨o', ho', hzero, -⟩ := h.deferred p hd
  cases ho.symm.trans ho'
  omega

/-- A nexthop that is not deferred is stored over: it keeps its index if it is installed, and has
users unless it is masked. -/
theorem store (ho : s.heap p = some o) (hd : p ∉ s.deferred)
    (hid : s.Installed p → o'.nhId = o.nhId) (hmask : p ∈ M → s.Installed p ∨ o'.nhUsers = 0)
    (hpos : p ∉ M → 0 < o'.nhUsers) (hrefs : p ∉ M → o'.refs = o.refs)
    (hbal : Balanced (Finset.range s.next) (s.store p o').users s.roots (s.owns M) y) :
    Counted (s.store p o') y M := by
  refine ⟨hbal.congr (fun _ => rfl) fun r _ => ?_, fun i q hq => ?_, fun m hm => ?_,
    fun q hq => ?_, h.nodup, forall_heap_store (fun _ => hpos) h.positive⟩
  · by_cases hr : r = p
    · subst hr
      by_cases hM : r ∈ M
      · rw [owns_masked hM, owns_masked hM]
      · rw [owns_of store_heap_same hM, owns_of ho hM, hrefs hM]
    · exact owns_store_ne hr
  · obtain ⟨hi, o₂, ho₂, hid₂⟩ := h.table i q hq
    refine ⟨hi, ?_⟩
    by_cases hqp : q = p
    · subst hqp
      cases ho.symm.trans ho₂
      exact ⟨o', store_heap_same, (hid ⟨i, hi, hq⟩).trans hid₂⟩
    · exact ⟨o₂, by rwa [store_heap_ne hqp], hid₂⟩
  · obtain ⟨hmd, o₂, ho₂, hm₂⟩ := h.masked m hm
    refine ⟨hmd, ?_⟩
    by_cases hmp : m = p
    · subst hmp
      exact ⟨o', store_heap_same, hmask hm⟩
    · exact ⟨o₂, by rwa [store_heap_ne hmp], hm₂⟩
  · obtain ⟨o₂, ho₂, hdef⟩ := h.deferred q hq
    have hqp : q ≠ p := fun hqp => hd (hqp ▸ hq)
    exact ⟨o₂, by rwa [store_heap_ne hqp], hdef⟩

theorem rewrite (hp : p ∈ M) (ho : s.heap p = some o)
    (hu : o'.nhUsers = o.nhUsers) (hid : s.Installed p → o'.nhId = o.nhId) :
    Counted (s.store p o') x M := by
  obtain ⟨hd, o₁, ho₁, hinst⟩ := h.masked p hp
  cases ho.symm.trans ho₁
  refine h.store ho hd hid (fun _ => hinst.imp id fun hzero => hu.trans hzero)
    (fun hM => absurd hp hM) (fun hM => absurd hp hM) (h.balanced.congr (fun r => ?_) fun _ _ => rfl)
  by_cases hr : r = p
  · subst hr
    rw [users_store_same, users_of ho, hu]
  · exact users_store_ne hr

theorem edit (hp : p ∈ M) (ho : s.heap p = some o)
    (hu : o'.nhUsers = o.nhUsers) (hid : o'.nhId = o.nhId) : Counted (s.store p o') x M :=
  h.rewrite hp ho hu fun _ => hid

theorem setUsers {u : ℕ} (ho : s.heap p = some o) (hpos : 0 < o.nhUsers)
    (hu : 0 < u)
    (hbal : Balanced (Finset.range s.next) (s.store p { o with nhUsers := u }).users s.roots
      (s.owns M) y) : Counted (s.store p { o with nhUsers := u }) y M := by
  refine h.store ho (h.not_deferred ho hpos) (fun _ => rfl) (fun hM => .inl ?_) (fun _ => hu)
    (fun _ => rfl) hbal
  obtain ⟨-, o₂, ho₂, hm₂⟩ := h.masked p hM
  cases ho.symm.trans ho₂
  exact hm₂.resolve_right (by omega)

end

variable (ho : s.heap p = some o)
include ho

theorem dropOne (h : Counted s (p :: x) M) (hu : o.nhUsers - 1 ≠ 0) :
    Counted (s.store p { o with nhUsers := o.nhUsers - 1 }) x M := by
  refine h.setUsers ho (by omega) (by omega) (h.balanced.drop ?_ fun r hr => users_store_ne hr)
  rw [users_store_same, users_of ho]

theorem takeOne (h : Counted s x M) (hpos : 0 < o.nhUsers) :
    Counted (s.store p { o with nhUsers := o.nhUsers + 1 }) (p :: x) M := by
  refine h.setUsers ho hpos (by omega) (h.balanced.take ?_ fun r hr => users_store_ne hr)
  rw [users_store_same, users_of ho]

/-- The last reference is dropped: nothing refers to the nexthop, and its own references are
loose. -/
theorem die (h : Counted s (p :: x) M) (hlt : p < s.next) (hu : o.nhUsers - 1 = 0) : p ∉ M ∧
      Counted (s.store p { o with nhUsers := o.nhUsers - 1 }) (o.refs ++ x) (p :: M) := by
  have hpos := h.balanced.pos (List.mem_cons_self (a := p) (l := x))
  have hbal := h.balanced p
  rw [List.count_cons_self, users_of ho] at hbal
  rw [users_of ho] at hpos
  have hroot : ¬ s.Installed p := by
    intro hinst
    rw [State.roots, if_pos hinst] at hbal
    omega
  have hM : p ∉ M := by
    intro hM
    obtain ⟨-, o₁, ho₁, hinst | hzero⟩ := h.masked p hM
    · exact hroot hinst
    · cases ho.symm.trans ho₁
      omega
  have hd := h.not_deferred ho hpos
  refine ⟨hM, ?_, fun i q hq => ?_, fun m hm => ?_, fun q hq => ?_, h.nodup, fun q x hx hq hm => ?_⟩
  · have hdrop : Balanced (Finset.range s.next)
        (s.store p { o with nhUsers := o.nhUsers - 1 }).users s.roots (s.owns M) x :=
      h.balanced.drop (by rw [users_store_same, users_of ho]) fun r hr => users_store_ne hr
    refine hdrop.move (Finset.mem_range.mpr hlt) (fun r hr => ?_) fun r => ?_
    · rw [owns_store_ne hr, owns_cons hr]
    · rw [owns_masked List.mem_cons_self, owns_of ho hM, List.count_append, List.count_nil]
      omega
  · obtain ⟨hi, o₂, ho₂, hid₂⟩ := h.table i q hq
    have hqp : q ≠ p := fun hqp => hroot ⟨i, hi, hqp ▸ hq⟩
    exact ⟨hi, o₂, by rwa [store_heap_ne hqp], hid₂⟩
  · rcases List.mem_cons.mp hm with rfl | hm
    · exact ⟨hd, _, store_heap_same, .inr hu⟩
    · obtain ⟨hmd, o₂, ho₂, hm₂⟩ := h.masked m hm
      have hmp : m ≠ p := fun hmp => hM (hmp ▸ hm)
      exact ⟨hmd, o₂, by rwa [store_heap_ne hmp], hm₂⟩
  · obtain ⟨o₂, ho₂, hdef⟩ := h.deferred q hq
    have hqp : q ≠ p := fun hqp => hd (hqp ▸ hq)
    exact ⟨o₂, by rwa [store_heap_ne hqp], hdef⟩
  · rw [List.mem_cons, not_or] at hm
    rw [store_heap_ne hm.1] at hx
    exact h.positive q x hx hq hm.2

theorem free {refs : VifPtr → ℤ} (h : Counted s x (p :: M)) (hp : p ∉ M) (hu : o.nhUsers = 0) :
    Counted { s with heap := update s.heap p none, vifRefs := refs } x M := by
  have hroot := h.not_installed ((users_of ho).trans hu)
  obtain ⟨hd, -⟩ := h.masked p List.mem_cons_self
  have hne : ∀ q, q ≠ p → update s.heap p none q = s.heap q := fun q hq => update_of_ne hq ..
  refine ⟨h.balanced.congr (fun r => ?_) fun r _ => ?_, fun i q hq => ?_, fun m hm => ?_,
    fun q hq => ?_, h.nodup, fun q x hx hq hm => ?_⟩
  · by_cases hr : r = p
    · subst hr
      rw [users_of ho, hu, State.users]
      simp
    · simp only [State.users, hne r hr]
  · by_cases hr : r = p
    · subst hr
      rw [owns_masked List.mem_cons_self]
      simp [State.owns]
    · rw [owns_cons hr]
      simp only [State.owns, hne r hr]
  · obtain ⟨hi, o₂, ho₂, hid₂⟩ := h.table i q hq
    have hqp : q ≠ p := fun hqp => hroot ⟨i, hi, hqp ▸ hq⟩
    exact ⟨hi, o₂, (hne q hqp).trans ho₂, hid₂⟩
  · obtain ⟨hmd, o₂, ho₂, hm₂⟩ := h.masked m (List.mem_cons_of_mem p hm)
    have hmp : m ≠ p := fun hmp => hp (hmp ▸ hm)
    exact ⟨hmd, o₂, (hne m hmp).trans ho₂, hm₂⟩
  · obtain ⟨o₂, ho₂, hdef⟩ := h.deferred q hq
    have hqp : q ≠ p := fun hqp => hd (hqp ▸ hq)
    exact ⟨o₂, (hne q hqp).trans ho₂, hdef⟩
  · obtain ⟨hqp, hx⟩ := free_heap hx
    exact h.positive q x hx hq (by simp [hqp, hm])

/-- A nexthop that nothing refers to, and that has no references left, waits to be freed. -/
theorem defer (h : Counted s x (p :: M)) (hp : p ∉ M) (hu : o.nhUsers = 0) (hrefs : o.refs = [])
    (allocs : List Bool) :
    Counted { s with allocs := allocs, deferred := p :: s.deferred } x M := by
  obtain ⟨hd, -⟩ := h.masked p List.mem_cons_self
  refine ⟨h.balanced.congr (fun _ => rfl) fun r _ => ?_, h.table, fun m hm => ?_, fun q hq => ?_,
    List.nodup_cons.mpr ⟨hd, h.nodup⟩, fun q x hx hq hm => ?_⟩
  · change s.owns M r = s.owns (p :: M) r
    by_cases hr : r = p
    · subst hr
      rw [owns_masked List.mem_cons_self, owns_of ho hp, hrefs]
    · rw [owns_cons hr]
  · obtain ⟨hmd, hm₂⟩ := h.masked m (List.mem_cons_of_mem p hm)
    have hmp : m ≠ p := fun hmp => hp (hmp ▸ hm)
    exact ⟨by simp [hmp, hmd], hm₂⟩
  · rcases List.mem_cons.mp hq with rfl | hq
    · exact ⟨o, ho, hu, hrefs⟩
    · exact h.deferred q hq
  · rw [List.mem_cons, not_or] at hq
    exact h.positive q x hx hq.2 (by simp [hq.1, hm])

theorem unmask (h : Counted s (o.refs ++ x) (p :: M)) (hlt : p < s.next) (hp : p ∉ M)
    (hu : 0 < o.nhUsers) : Counted s x M := by
  refine ⟨h.balanced.move (Finset.mem_range.mpr hlt) (fun r hr => (owns_cons hr).symm) fun r => ?_,
    h.table, fun m hm => h.masked m (List.mem_cons_of_mem p hm), h.deferred, h.nodup,
    fun q x hx hq hm => ?_⟩
  · rw [owns_masked List.mem_cons_self, owns_of ho hp, List.count_append, List.count_nil]
    omega
  · by_cases hqp : q = p
    · subst hqp
      cases ho.symm.trans hx
      exact hu
    · exact h.positive q x hx hq (by simp [hqp, hm])

theorem mask (h : Counted s x M) (hlt : p < s.next) (hp : p ∉ M)
    (hinst : s.Installed p) : Counted s (o.refs ++ x) (p :: M) := by
  have hpos := h.pos_of_installed hinst
  rw [users_of ho] at hpos
  refine ⟨h.balanced.move (Finset.mem_range.mpr hlt) (fun r hr => owns_cons hr) fun r => ?_,
    h.table, fun m hm => ?_, h.deferred, h.nodup, fun q x hx hq hm => ?_⟩
  · rw [owns_masked List.mem_cons_self, owns_of ho hp, List.count_append, List.count_nil]
    omega
  · rcases List.mem_cons.mp hm with rfl | hm
    · exact ⟨h.not_deferred ho hpos, o, ho, .inl hinst⟩
    · exact h.masked m hm
  · rw [List.mem_cons, not_or] at hm
    exact h.positive q x hx hq hm.2

end Counted

/-! ### What an operation leaves alone -/

/-- The table and the references elsewhere are what they were, and of the masked nexthops at most
the counts have changed. -/
structure Frame (s s' : State) (M : List ℕ) : Prop where
  table : s'.table = s.table
  maxNexthops : s'.maxNexthops = s.maxNexthops
  next : s'.next = s.next
  held : s'.held = s.held
  masked : ∀ m ∈ M, ∀ o, s.heap m = some o → ∃ u, s'.heap m = some { o with nhUsers := u }

/-- No count has grown either. -/
structure After (s s' : State) (M : List ℕ) : Prop extends Frame s s' M where
  users : ∀ q, s'.users q ≤ s.users q

theorem Frame.refl (s : State) (M : List ℕ) : Frame s s M :=
  ⟨rfl, rfl, rfl, rfl, fun _ _ o ho => ⟨o.nhUsers, ho⟩⟩

theorem Frame.trans (h₁ : Frame s s₁ M) (h₂ : Frame s₁ s₂ M) : Frame s s₂ M where
  table := h₂.table.trans h₁.table
  maxNexthops := h₂.maxNexthops.trans h₁.maxNexthops
  next := h₂.next.trans h₁.next
  held := h₂.held.trans h₁.held
  masked m hm o ho := by
    obtain ⟨u₁, hu₁⟩ := h₁.masked m hm o ho
    obtain ⟨u₂, hu₂⟩ := h₂.masked m hm _ hu₁
    exact ⟨u₂, hu₂⟩

theorem After.refl (s : State) (M : List ℕ) : After s s M := ⟨.refl s M, fun _ => le_rfl⟩

theorem After.trans (h₁ : After s s₁ M) (h₂ : After s₁ s₂ M) : After s s₂ M :=
  ⟨h₁.toFrame.trans h₂.toFrame, fun q => (h₂.users q).trans (h₁.users q)⟩

theorem After.mono (h : After s s' (p :: M)) : After s s' M :=
  ⟨⟨h.table, h.maxNexthops, h.next, h.held, fun m hm => h.masked m (List.mem_cons_of_mem p hm)⟩,
    h.users⟩

/-- A nexthop that is not masked is stored, or a masked one with another count. -/
theorem After.store (ho : s.heap p = some o) (hu : o'.nhUsers ≤ o.nhUsers)
    (hM : p ∈ M → o' = { o with nhUsers := o'.nhUsers }) : After s (s.store p o') M := by
  refine ⟨⟨rfl, rfl, rfl, rfl, fun m hm x hx => ?_⟩, fun q => ?_⟩
  · by_cases hmp : m = p
    · subst hmp
      cases ho.symm.trans hx
      exact ⟨o'.nhUsers, by rw [store_heap_same]; exact congrArg some (hM hm)⟩
    · exact ⟨x.nhUsers, by rwa [store_heap_ne hmp]⟩
  · by_cases hq : q = p
    · subst hq
      rw [users_store_same, users_of ho]
      exact hu
    · rw [users_store_ne hq]

theorem SameNexthops.counted (hs : SameNexthops s s') (h : Counted s x M) : Counted s' x M := by
  obtain ⟨refs, allocs, rfl⟩ := hs
  exact ⟨h.balanced, h.table, h.masked, h.deferred, h.nodup, h.positive⟩

/-! ### Dropping references -/

/-- What is asked of the function that drops the references of a nexthop. -/
def KeepsCount (put : State → ℕ → Run State) (n : ℕ) : Prop :=
  ∀ s q x M D, Fit s D → Counted s (q :: x) M → s.total < n →
    Ends (fun _ => False) (put s q)
      (fun s' => (Counted s' x M ∧ After s s' M) ∧ Fit s' D ∧ Shrunk s s')

variable {put : State → ℕ → Run State}

/-- A nexthop that is given up: masked, without users, and with the references it still has. -/
structure Dying (s : State) (p : ℕ) (o : Nexthop) (x M : List ℕ) : Prop where
  heap : s.heap p = some o
  users : o.nhUsers = 0
  unmasked : p ∉ M
  counted : Counted s (o.refs ++ x) (p :: M)

/-- What is done to other nexthops leaves a nexthop that is given up as it is. -/
theorem After.dying (hs : After s s' (p :: M)) (ho : s.heap p = some o) (hu : o.nhUsers = 0) :
    s'.heap p = some o := by
  obtain ⟨u, hheap⟩ := hs.masked p List.mem_cons_self o ho
  have hle := hs.users p
  rw [users_of hheap, users_of ho, hu] at hle
  have hzero : u = o.nhUsers := by
    rw [hu]
    exact Nat.le_zero.mp hle
  rw [hheap, hzero]

theorem putDirect_counted (hput : KeepsCount put n) (h : Dying s p o x M) (hfit : Fit s D)
    (hn : s.total ≤ n) :
    Returns (putDirect put s p) (fun s' => (∃ o', Dying s' p o' x M ∧
      o'.directRefs = [] ∧ After s s' M) ∧ Fit s' D ∧ Shrunk s s') := by
  unfold putDirect
  rw [load_of h.heap]
  dsimp only [bind, Except.bind]
  split
  · rename_i cnh hindirect hdirect
    obtain ⟨hfit₁, hs₁, htotal⟩ := hfit.clearDirect h.heap hdirect
    have hrefs : o.refs ++ x = cnh :: (o.componentRefs ++ x) := by
      rw [Nexthop.refs, Nexthop.directRefs, if_pos hindirect, hdirect]
      rfl
    have hnil : Nexthop.directRefs { o with nhDirectNh := none } = [] := by
      simp [Nexthop.directRefs]
    have hedit : Counted (s.store p { o with nhDirectNh := none })
        (cnh :: (o.componentRefs ++ x)) (p :: M) := by
      rw [← hrefs]
      exact h.counted.edit List.mem_cons_self h.heap rfl rfl
    have hstore : After s (s.store p { o with nhDirectNh := none }) M :=
      .store h.heap le_rfl fun hM => absurd hM h.unmasked
    apply (hput _ cnh _ (p :: M) D hfit₁ hedit (by omega)).mono
    rintro s' ⟨⟨hcounted, hafter⟩, hfit', hs'⟩
    refine ⟨⟨{ o with nhDirectNh := none }, ⟨hafter.dying store_heap_same h.users, h.users,
      h.unmasked, ?_⟩, hnil, hstore.trans hafter.mono⟩, hfit', hs₁.trans hs'⟩
    rw [Nexthop.refs, hnil, List.nil_append]
    exact hcounted
  · rename_i hno
    refine ⟨⟨o, h, ?_, .refl s M⟩, hfit, .refl s⟩
    unfold Nexthop.directRefs
    split_ifs with hindirect
    · cases hdirect : o.nhDirectNh with
      | none => rfl
      | some cnh => exact absurd hdirect (hno cnh hindirect)
    · rfl

/-- The references in the slots of a list. -/
def slotRefs (a : List ComponentNh) (l : List ℕ) : List ℕ :=
  l.filterMap fun i => a[i]?.bind (·.cnh)

theorem slotRefs_range (a : List ComponentNh) (n : ℕ) :
    slotRefs a (List.range n) = (a.take n).filterMap (·.cnh) := by
  induction n with
  | zero => rfl
  | succ n ih =>
    rw [List.range_succ, List.take_add_one, List.filterMap_append, ← ih, slotRefs,
      List.filterMap_append]
    congr 1
    cases hn : a[n]? with
    | none => simp [hn]
    | some y => cases hy : y.cnh <;> simp [hn, hy]

variable {a : List ComponentNh} {i : ℕ} {l : List ℕ}

theorem slotRefs_none {y : ComponentNh} (hi : a[i]? = some y) (hy : y.cnh = none) :
    slotRefs a (i :: l) = slotRefs a l := by
  simp [slotRefs, hi, hy]

theorem slotRefs_some {y : ComponentNh} (hi : a[i]? = some y) (hy : y.cnh = some q) :
    slotRefs a (i :: l) = q :: slotRefs a l := by
  simp [slotRefs, hi, hy]

theorem clearSlot_getElem? {j : ℕ} (h : i ≠ j) :
    ((c.clearSlot i).component.getD [])[j]? = (c.component.getD [])[j]? := by
  cases hc : c.component with
  | none => simp [Composite.clearSlot, hc]
  | some l =>
    simp only [Composite.clearSlot, hc, Option.map_some, Option.getD_some]
    exact List.getElem?_modify_ne _ l h

/-- The loop over the components of a nexthop that is given up, with the slots that are left: they
are those of the array `a` before the loop, and the references in them are loose. -/
structure Emptying (s : State) (n p : ℕ) (a : List ComponentNh) (x M D rest : List ℕ) (t : State) :
    Prop where
  nexthop : ∃ o c, t.heap p = some o ∧ o.nhUsers = 0 ∧ o.nhType = .composite ∧
    o.directRefs = [] ∧ o.nhU = .composite c ∧ c.cnt = 0 ∧
    ∀ i ∈ rest, (c.component.getD [])[i]? = a[i]?
  slots : ∀ i ∈ rest, i < a.length
  nodup : rest.Nodup
  counted : Counted t (slotRefs a rest ++ x) (p :: M)
  after : After s t M
  fit : Fit t (p :: D)
  shrunk : Shrunk s t
  total : t.total ≤ n

theorem putSlot_counted {rest : List ℕ} {t : State} (hput : KeepsCount put n) (hp : p ∉ M)
    (h : Emptying s n p a x M D (i :: rest) t) :
    Returns (putSlot put p t i) (Emptying s n p a x M D rest) := by
  obtain ⟨o, c, ho, hu, ht, hdirect, hcomp, hcnt, hsame⟩ := h.nexthop
  have hi : a[i]? = some (a.get ⟨i, h.slots i List.mem_cons_self⟩) :=
    List.getElem?_eq_getElem (h.slots i List.mem_cons_self)
  generalize a.get ⟨i, h.slots i List.mem_cons_self⟩ = y at hi
  have hslot : c.slot i = .ok y := slot_of ((hsame i List.mem_cons_self).trans hi)
  obtain ⟨hnot, hnodup⟩ := List.nodup_cons.mp h.nodup
  have hrest : ∀ j ∈ rest, j ∈ i :: rest := fun j hj => List.mem_cons_of_mem i hj
  unfold putSlot
  refine .bind_ok (load_of ho) (.bind_ok (congrArg NhU.asComposite hcomp)
    (.bind_ok hslot ?_))
  cases hy : y.cnh with
  | none =>
    refine ⟨⟨o, c, ho, hu, ht, hdirect, hcomp, hcnt, fun j hj => hsame j (hrest j hj)⟩,
      fun j hj => h.slots j (hrest j hj), hnodup, ?_, h.after, h.fit, h.shrunk, h.total⟩
    rw [← slotRefs_none hi hy]
    exact h.counted
  | some cnh =>
    obtain ⟨hfit, hs, htotal⟩ := h.fit.clearSlot ho ht hcomp hslot hy
    have hedit : Counted (t.store p { o with nhU := .composite (c.clearSlot i) })
        (cnh :: (slotRefs a rest ++ x)) (p :: M) := by
      have hcounted := h.counted
      rw [slotRefs_some hi hy] at hcounted
      exact hcounted.edit List.mem_cons_self ho rfl rfl
    have hstore : After t (t.store p { o with nhU := .composite (c.clearSlot i) }) M :=
      .store ho le_rfl fun hM => absurd hM hp
    have hle := h.total
    apply (hput _ cnh _ (p :: M) (p :: D) hfit hedit (by omega)).mono
    rintro t' ⟨⟨hcounted, hafter⟩, hfit', hs'⟩
    refine ⟨⟨_, _, hafter.dying store_heap_same hu, hu, ht, hdirect, rfl, hcnt, fun j hj => ?_⟩,
      fun j hj => h.slots j (hrest j hj), hnodup, hcounted,
      (h.after.trans hstore).trans hafter.mono, hfit', (h.shrunk.trans hs).trans hs', ?_⟩
    · have hij : i ≠ j := fun hij => hnot (hij ▸ hj)
      rw [clearSlot_getElem? hij]
      exact hsame j (hrest j hj)
    · have := hs'.total
      omega

theorem putComponents_counted (hput : KeepsCount put n) (h : Dying s p o x M)
    (hdirect : o.directRefs = []) (hfit : Fit s (p :: D)) (hn : s.total ≤ n) :
    Returns (putComponents put s p) (fun s' => (∃ o', Dying s' p o' x M ∧
      o'.refs = [] ∧ After s s' M) ∧ Fit s' (p :: D) ∧ Shrunk s s') := by
  have hcounted := h.counted
  rw [Nexthop.refs, hdirect, List.nil_append] at hcounted
  unfold putComponents
  rw [load_of h.heap]
  refine .ite (fun ht => ?_) fun ht => ?_
  · obtain ⟨c, hc, hlen, hcnt, hfit', hshrunk⟩ := hfit.clearCnt h.heap ht
    have hrefs : o.componentRefs = slotRefs (c.component.getD []) (List.range c.cnt) := by
      rw [Nexthop.componentRefs, ht]
      -- a blank union is an empty array
      cases hu : o.nhU <;> rw [hu] at hc <;> cases hc
      · rfl
      · rw [slotRefs_range]
    refine .bind_ok hc ?_
    change Ends _ ((List.range c.cnt).foldlM (putSlot put p)
      (s.store p { o with nhU := .composite { c with cnt := 0 } })) _
    have hstart : Emptying s n p (c.component.getD []) x M D (List.range c.cnt)
        (s.store p { o with nhU := .composite { c with cnt := 0 } }) := by
      refine ⟨⟨_, _, store_heap_same, h.users, ht, hdirect, rfl, rfl, fun _ _ => rfl⟩,
        fun i hi => ?_, List.nodup_range, ?_, .store h.heap le_rfl fun hM => absurd hM h.unmasked,
        hfit', hshrunk, hshrunk.total.trans hn⟩
      · rw [List.mem_range] at hi
        omega
      · rw [hrefs] at hcounted
        exact hcounted.edit List.mem_cons_self h.heap rfl rfl
    apply (Ends.foldlM (I := Emptying s n p (c.component.getD []) x M D)
      (fun i rest t => putSlot_counted hput h.unmasked) _ _ hstart).mono
    intro s' hend
    obtain ⟨o', c', ho', hu', ht', hdirect', hcomp', hcnt', -⟩ := hend.nexthop
    have hnil : o'.refs = [] := by
      rw [Nexthop.refs, hdirect', Nexthop.componentRefs, ht', hcomp']
      simp [hcnt']
    refine ⟨⟨o', ⟨ho', hu', h.unmasked, ?_⟩, hnil, hend.after⟩, hend.fit, hend.shrunk⟩
    rw [hnil]
    exact hend.counted
  · have hnil : o.refs = [] := by
      rw [Nexthop.refs, hdirect, Nexthop.componentRefs]
      cases htype : o.nhType <;> first | rfl | exact absurd htype ht
    exact ⟨⟨o, h, hnil, .refl s M⟩, hfit, .refl s⟩

theorem free_of (ho : s.heap p = some o) (ha : o.Agrees) :
    Returns (vrouterFreeNexthop s p)
      (fun s' => ∃ refs, s' = { s with heap := update s.heap p none, vifRefs := refs }) := by
  unfold vrouterFreeNexthop
  rw [load_of ho]
  change Ends _ (freeUnion o >>= _) _
  exact .bind (ends_freeUnion ha) fun _ _ => ⟨_, rfl⟩

theorem freeOrDefer_counted (h : Dying s p o x M) (hrefs : o.refs = []) (hfit : Fit s (p :: D)) :
    Returns (freeOrDefer s p) (fun s' => Counted s' x M ∧ After s s' M) := by
  have hcounted := h.counted
  rw [hrefs, List.nil_append] at hcounted
  have hfree : ∀ allocs, Returns
      (vrouterFreeNexthop { s with allocs := allocs } p)
      (fun s' => Counted s' x M ∧ After s s' M) := by
    intro allocs
    have hc := SameNexthops.counted ⟨s.vifRefs, allocs, rfl⟩ hcounted
    apply (free_of (s := { s with allocs := allocs }) h.heap (hfit.agrees p o h.heap)).mono
    rintro s' ⟨refs, rfl⟩
    refine ⟨hc.free (by exact h.heap) h.unmasked h.users, ⟨rfl, rfl, rfl, rfl, fun m hm x hx => ?_⟩,
      fun q => ?_⟩
    · have hmp : m ≠ p := fun hmp => h.unmasked (hmp ▸ hm)
      exact ⟨x.nhUsers, (update_of_ne hmp ..).trans hx⟩
    · by_cases hq : q = p
      · subst hq
        simp [State.users]
      · simp [State.users, update_of_ne hq]
  unfold freeOrDefer State.alloc
  refine .ite (fun _ => hfree s.allocs) fun _ => .ite (fun _ => ?_) fun _ => hfree _
  exact ⟨hcounted.defer h.heap h.unmasked h.users hrefs _, ⟨rfl, rfl, rfl, rfl,
    fun _ _ o ho => ⟨o.nhUsers, ho⟩⟩, fun _ => le_rfl⟩

theorem giveUp_counted (hput : KeepsCount put n) (h : Dying s p o x M) (hfit : Fit s D)
    (hn : s.total ≤ n) :
    Returns (giveUp put s p)
      (fun s' => (Counted s' x M ∧ After s s' M) ∧ Fit s' D ∧ Shrunk s s') := by
  unfold giveUp
  refine .bind (putDirect_counted hput h hfit hn) fun s₁ ⟨⟨o₁, h₁, hdirect, ha₁⟩, hfit₁, hs₁⟩ => ?_
  refine .bind (putComponents_counted hput h₁ hdirect (hfit₁.mask p) (hs₁.total.trans hn))
    fun s₂ ⟨⟨o₂, h₂, hrefs, ha₂⟩, hfit₂, hs₂⟩ => ?_
  apply ((freeOrDefer_counted h₂ hrefs hfit₂).and (freeOrDefer_fit hfit₂)).mono
  rintro s₃ ⟨⟨hcounted, ha₃⟩, hfit₃, hs₃⟩
  exact ⟨⟨hcounted, (ha₁.trans ha₂).trans ha₃⟩, hfit₃, (hs₁.trans hs₂).trans hs₃⟩

/-- **Dropping a reference** takes it off the loose ones and keeps all counts exact. -/
theorem vrouterPutNexthop_counted : ∀ n, KeepsCount (vrouterPutNexthop n) n
  | 0, _, _, _, _, _, _, _, hn => absurd hn (Nat.not_lt_zero _)
  | n + 1, s, p, x, M, D, hfit, h, hn => by
    obtain ⟨o, ho⟩ := h.exists_of_mem List.mem_cons_self
    obtain ⟨hfit₁, hs₁⟩ := hfit.setUsers ho (o.nhUsers - 1)
    have hle : (s.store p { o with nhUsers := o.nhUsers - 1 }).total ≤ n := by
      have := hs₁.total
      omega
    have hstore : After s (s.store p { o with nhUsers := o.nhUsers - 1 }) M :=
      .store ho (Nat.sub_le _ _) fun _ => rfl
    unfold vrouterPutNexthop
    rw [load_of ho]
    refine .ite (fun hzero => ?_) fun hpos => ⟨⟨h.dropOne ho hpos, hstore⟩, hfit₁, hs₁⟩
    obtain ⟨hp, hdie⟩ := h.die ho (hfit.lt ho) hzero
    have hdying : Dying (s.store p { o with nhUsers := o.nhUsers - 1 }) p
        { o with nhUsers := o.nhUsers - 1 } x M := ⟨store_heap_same, hzero, hp, hdie⟩
    apply (giveUp_counted (vrouterPutNexthop_counted n) hdying hfit₁ hle).mono
    rintro s' ⟨⟨hcounted, hafter⟩, hfit', hs'⟩
    exact ⟨⟨hcounted, hstore.trans hafter⟩, hfit', hs₁.trans hs'⟩

theorem put_counted (h : Counted s (p :: x) M) (hfit : Fit s D) :
    Returns (s.put p)
      (fun s' => (Counted s' x M ∧ After s s' M) ∧ Fit s' D ∧ Shrunk s s') :=
  vrouterPutNexthop_counted _ s p x M D hfit h (Nat.lt_succ_self _)

theorem put_dying (h : Dying s p o x M) (hfit : Fit s D) :
    Returns (s.put p)
      (fun s' => (Counted s' x M ∧ After s s' M) ∧ Fit s' D ∧ Shrunk s s') := by
  unfold State.put vrouterPutNexthop
  have hsame : { o with nhUsers := o.nhUsers - 1 } = o := by
    rw [h.users, Nat.zero_sub, ← h.users]
  rw [load_of h.heap]
  change Ends _ (if o.nhUsers - 1 = 0 then
    giveUp _ (s.store p { o with nhUsers := o.nhUsers - 1 }) p else pure _) _
  rw [hsame, store_self h.heap, if_pos (by rw [h.users])]
  exact giveUp_counted (vrouterPutNexthop_counted _) h hfit le_rfl

end Vrouter.Nh
