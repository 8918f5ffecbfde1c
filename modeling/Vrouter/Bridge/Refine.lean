import Vrouter.Bridge.Model
import Vrouter.Lib.Reach
import Vrouter.Lib.Sum

/-! # The bridge table as a map

What the bridge table is for is a map: each key has the nexthop and the label of its last addition, or
nothing (`Sys.expected`).  The system of the events is run beside it, with the references to nexthops
that others hold, so that every reference to a nexthop has an owner: its slot in the table of nexthops,
somebody else, or one entry of the bridge table that points to it.

An addition compares the id of the nexthop with the one that the entry was given last.  If they are the
same it leaves the nexthop alone, although another object may be installed under that id by now
(`staleNexthop_kept`).  Apart from this the table is the map (`bridge_refines`). -/

namespace Vrouter.Bridge

open Vrouter.Lib Function

variable {n q : ℕ} {s s' : State n} {i j : Fin n} {key k : Key} {nhId : ℤ} {rt : RouteReq}
  {others : ℕ → ℕ} {loose loose' : List ℕ} {maxVrfs : ℕ} {e : BridgeEntry}

/-! ### References -/

/-- How many entries point to an object. -/
def pointing (entry : Fin n → BridgeEntry) (p : ℕ) : ℕ := ∑ i, (entry i).beNh.toList.count p

/-- Every count is the number of references: those of others, those of entries, and the loose ones
that a running operation holds. -/
def Counted (s : State n) (others : ℕ → ℕ) (loose : List ℕ) : Prop :=
  ∀ p, s.nhUsers p = others p + pointing s.entry p + loose.count p

namespace Counted

variable {p : ℕ}

theorem hold (h : Counted s others loose) (p : ℕ) : Counted (s.hold p) others (p :: loose) := by
  intro q
  have hq := h q
  by_cases hqp : q = p
  · subst hqp
    simp only [State.hold, update_self, List.count_cons_self]
    omega
  · simp only [State.hold, update_of_ne hqp, List.count_cons_of_ne (Ne.symm hqp)]
    exact hq

theorem put (h : Counted s others (p :: loose)) : Counted (s.put p) others loose := by
  intro q
  have hq := h q
  by_cases hqp : q = p
  · subst hqp
    rw [List.count_cons_self] at hq
    simp only [State.put, update_self]
    omega
  · rw [List.count_cons_of_ne (Ne.symm hqp)] at hq
    simp only [State.put, update_of_ne hqp]
    exact hq

/-- References move between an entry and the loose ones. -/
theorem setEntry (h : Counted s others loose) (i : Fin n) (e : BridgeEntry)
    (hmove : ∀ p, e.beNh.toList.count p + loose'.count p =
      (s.entry i).beNh.toList.count p + loose.count p) : Counted (s.setEntry i e) others loose' := by
  intro q
  have hq := h q
  have hm := hmove q
  have hsum := sum_change (fun j => (s.entry j).beNh.toList.count q)
    (fun j => (update s.entry i e j).beNh.toList.count q) (Finset.mem_univ i)
    (fun j hj => by rw [update_of_ne hj])
  rw [update_self] at hsum
  simp only [State.setEntry, pointing] at hq ⊢
  omega

theorem setEntry_same (h : Counted s others loose) (he : e.beNh = (s.entry i).beNh) :
    Counted (s.setEntry i e) others loose :=
  h.setEntry i e fun p => by rw [he]

theorem replaceNexthop (h : Counted s others loose) (i : Fin n) (nhId : ℤ) :
    Counted (replaceNexthop s i nhId) others loose := by
  unfold Bridge.replaceNexthop
  split_ifs with hid
  · have hget : Counted (s.get nhId).2 others ((s.get nhId).1.toList ++ loose) ∧
        (s.get nhId).2.entry = s.entry := by
      unfold State.get
      cases s.nexthop nhId with
      | none => exact ⟨h, rfl⟩
      | some p => exact ⟨h.hold p, rfl⟩
    generalize s.get nhId = g at hget
    obtain ⟨nh, t⟩ := g
    dsimp only at hget ⊢
    have hset : Counted (t.setEntry i { t.entry i with
        beNh := nh
        beNhId := if nh.isSome then nhId else -1
        beFlags := { (t.entry i).beFlags with macMoved := false } }) others
        ((s.entry i).beNh.toList ++ loose) :=
      hget.1.setEntry i _ fun p => by
        dsimp only
        rw [hget.2, List.count_append, List.count_append]
        omega
    cases hold : (s.entry i).beNh with
    | none =>
      rw [hold] at hset
      exact hset
    | some p =>
      rw [hold] at hset
      exact hset.put
  · exact h

end Counted

/-! ### What an addition does to the table -/

theorem replaceNexthop_index (s : State n) (i : Fin n) (nhId : ℤ) :
    (replaceNexthop s i nhId).index = s.index ∧ (replaceNexthop s i nhId).used = s.used ∧
      (replaceNexthop s i nhId).nexthops = s.nexthops := by
  unfold replaceNexthop State.get
  split_ifs
  · cases s.nexthop nhId <;> cases (s.entry i).beNh <;> exact ⟨rfl, rfl, rfl⟩
  · exact ⟨rfl, rfl, rfl⟩

theorem replaceNexthop_ne (h : j ≠ i) :
    (replaceNexthop s i nhId).entry j = s.entry j := by
  unfold replaceNexthop State.get
  split_ifs
  · cases s.nexthop nhId <;> cases (s.entry i).beNh <;> exact update_of_ne h _ _
  · rfl

/-- The entry points to the object that is installed under the id, unless it has had that id. -/
theorem replaceNexthop_self (hq : s.nexthop nhId = some q)
    (hsame : (s.entry i).beNhId = nhId → (s.entry i).beNh = some q) :
    ((replaceNexthop s i nhId).entry i).beNh = some q := by
  unfold replaceNexthop State.get
  split_ifs with hid
  · rw [hq]
    cases (s.entry i).beNh <;>
      simp only [State.setEntry, State.put, State.hold, update_self]
  · exact hsame (not_not.mp hid)

/-- An entry was added or updated: the key has it, and all other entries are what they were. -/
structure Added (s s' : State n) (key : Key) (i : Fin n) (answer : ℕ × Option ℕ) : Prop where
  index : s'.index = update s.index key (some i)
  used : s'.used = update s.used i true
  entry : ∀ j, j ≠ i → s'.entry j = s.entry j
  answer : (s'.entry i).answer = some answer
  nexthops : s'.nexthops = s.nexthops

theorem labelled_answer (h : e.beNh = some q) :
    (labelled rt e).answer =
      some (q, if rt.rtrLabelFlags.labelValid then some rt.rtrLabel else none) := by
  unfold labelled BridgeEntry.answer
  rw [h]
  cases rt.rtrLabelFlags.labelValid <;> rfl

/-- The entry of a key before an addition, if it has the same id, has the object that is installed
under it. -/
def SameObject (s : State n) (rt : RouteReq) : Prop :=
  ∀ i, s.index rt.key = some i → (s.entry i).beNhId = rt.rtrNhId →
    (s.entry i).beNh = s.nexthop rt.rtrNhId

instance (s : State n) (rt : RouteReq) : Decidable (SameObject s rt) :=
  inferInstanceAs (Decidable (∀ _, _))

/-- **An addition**: it fails and changes nothing, or the key has an entry with the nexthop and the
label of the request. -/
theorem bridgeTableAddEntry_cases (free : Option (Fin n)) (hq : s.nexthop rt.rtrNhId = some q)
    (hsame : SameObject s rt) (hused : ∀ i, s.index rt.key = some i → s.used i = true) :
    ((bridgeTableAddEntry s free rt).1 = -enomem ∧ (bridgeTableAddEntry s free rt).2 = s) ∨
      ((bridgeTableAddEntry s free rt).1 = 0 ∧ ∃ i,
        (s.index rt.key = some i ∨ (s.index rt.key = none ∧ free = some i)) ∧
        Added s (bridgeTableAddEntry s free rt).2 rt.key i
          (q, if rt.rtrLabelFlags.labelValid then some rt.rtrLabel else none)) := by
  have hid : rt.rtrNhId ≠ -1 := by
    rintro h
    rw [h] at hq
    cases hq
  unfold bridgeTableAddEntry bridgeAdd
  cases hidx : s.index rt.key with
  | some i =>
    have hself := replaceNexthop_self (i := i) hq fun h => (hsame i hidx h).trans hq
    obtain ⟨hindex, husd, hnhs⟩ := replaceNexthop_index s i rt.rtrNhId
    refine .inr ⟨rfl, i, .inl rfl, ?_, ?_, ?_, ?_, hnhs⟩
    · exact hindex.trans (by rw [← hidx, update_eq_self])
    · exact husd.trans (by rw [← hused i hidx, update_eq_self])
    · intro j hj
      exact (update_of_ne hj _ _).trans (replaceNexthop_ne hj)
    · exact (congrArg BridgeEntry.answer (update_self _ _ _)).trans (labelled_answer hself)
  | none =>
    cases free with
    | none => exact .inl ⟨rfl, rfl⟩
    | some i =>
      have hself : ((replaceNexthop (takeEntry s i rt.key) i rt.rtrNhId).entry i).beNh = some q :=
        replaceNexthop_self hq fun h => absurd (h.symm.trans
          (congrArg BridgeEntry.beNhId (update_self _ _ _))) hid
      obtain ⟨hindex, husd, hnhs⟩ := replaceNexthop_index (takeEntry s i rt.key) i rt.rtrNhId
      refine .inr ⟨rfl, i, .inr ⟨rfl, rfl⟩, hindex, husd, ?_, ?_, hnhs⟩
      · intro j hj
        exact (update_of_ne hj _ _).trans ((replaceNexthop_ne hj).trans (update_of_ne hj _ _))
      · exact (congrArg BridgeEntry.answer (update_self _ _ _)).trans (labelled_answer hself)

theorem Counted.addEntry (h : Counted s others loose)
    (free : Option (Fin n)) (rt : RouteReq) :
    Counted (bridgeTableAddEntry s free rt).2 others loose := by
  unfold bridgeTableAddEntry bridgeAdd
  cases s.index rt.key with
  | some i => exact (h.replaceNexthop i _).setEntry_same rfl
  | none =>
    cases free with
    | none => exact h
    | some i =>
      have htake : Counted (takeEntry s i rt.key) others loose :=
        h.setEntry_same (i := i)
          (e := { s.entry i with beFlags := { valid := true }, beNhId := -1 }) rfl
      exact (htake.replaceNexthop i _).setEntry_same rfl

/-- The states have the same table. -/
structure SameTable (s s' : State n) : Prop where
  index : s'.index = s.index
  used : s'.used = s.used
  entry : s'.entry = s.entry
  nexthops : s'.nexthops = s.nexthops

/-- What a request with a nexthop adds to the table. -/
def RouteReq.wanted (s : State n) (rt : RouteReq) : Option (ℕ × Option ℕ) :=
  (s.nexthop rt.rtrNhId).map
    fun q => (q, if rt.rtrLabelFlags.labelValid then some rt.rtrLabel else none)

theorem bridgeEntryAdd_cases (maxVrfs : ℕ) (free : Option (Fin n)) (hsame : SameObject s rt)
    (hused : ∀ i, s.index rt.key = some i → s.used i = true) :
    ((bridgeEntryAdd maxVrfs s free rt).1 ≠ 0 ∧
        SameTable s (bridgeEntryAdd maxVrfs s free rt).2) ∨
      ((bridgeEntryAdd maxVrfs s free rt).1 = 0 ∧ ∃ i answer,
        (s.index rt.key = some i ∨ (s.index rt.key = none ∧ free = some i)) ∧
        rt.wanted s = some answer ∧
        Added s (bridgeEntryAdd maxVrfs s free rt).2 rt.key i answer) := by
  have hinval : (-einval : ℤ) ≠ 0 := by decide
  unfold bridgeEntryAdd
  split_ifs with hvrf
  · exact .inl ⟨hinval, rfl, rfl, rfl, rfl⟩
  unfold bridgeTableAdd
  split_ifs with hlen hzero
  · exact .inl ⟨hinval, rfl, rfl, rfl, rfl⟩
  · exact .inl ⟨hinval, rfl, rfl, rfl, rfl⟩
  cases hq : s.nexthop rt.rtrNhId with
  | none =>
    simp only [State.get, hq]
    exact .inl ⟨by decide, rfl, rfl, rfl, rfl⟩
  | some q =>
    simp only [State.get, hq]
    obtain ⟨hret, hsame'⟩ | ⟨hret, i, hslot, hadd⟩ :=
      bridgeTableAddEntry_cases (s := s.hold q) free hq hsame hused
    · refine .inl ⟨by rw [hret]; decide, ?_⟩
      rw [hsame']
      exact ⟨rfl, rfl, rfl, rfl⟩
    · exact .inr ⟨hret, i, _, hslot, congrArg (Option.map _) hq, hadd.index, hadd.used,
        hadd.entry, hadd.answer, hadd.nexthops⟩

theorem Counted.entryAdd (h : Counted s others []) (maxVrfs : ℕ)
    (free : Option (Fin n)) (rt : RouteReq) :
    Counted (bridgeEntryAdd maxVrfs s free rt).2 others [] := by
  unfold bridgeEntryAdd bridgeTableAdd
  split_ifs
  · exact h
  · exact h
  · exact h
  · unfold State.get
    cases s.nexthop rt.rtrNhId with
    | none => exact h
    -- The reference of the request itself is held during the addition and dropped after it.
    | some q => exact ((h.hold q).addEntry free rt).put

theorem bridgeEntryAdd_failed {free : Option (Fin n)}
    (h : (bridgeEntryAdd maxVrfs s free rt).1 ≠ 0) :
    SameTable s (bridgeEntryAdd maxVrfs s free rt).2 := by
  unfold bridgeEntryAdd at h ⊢
  split_ifs at h ⊢
  · exact ⟨rfl, rfl, rfl, rfl⟩
  unfold bridgeTableAdd at h ⊢
  split_ifs at h ⊢
  · exact ⟨rfl, rfl, rfl, rfl⟩
  · exact ⟨rfl, rfl, rfl, rfl⟩
  unfold State.get at h ⊢
  cases hq : s.nexthop rt.rtrNhId with
  | none => exact ⟨rfl, rfl, rfl, rfl⟩
  | some q =>
    -- Only an addition for a new key can fail now, before it writes anything.
    simp only [hq, bridgeTableAddEntry, bridgeAdd] at h ⊢
    cases hidx : (s.hold q).index rt.key with
    | some i =>
      simp only [hidx] at h
      exact absurd rfl h
    | none =>
      cases free with
      | none => exact ⟨rfl, rfl, rfl, rfl⟩
      | some i =>
        simp only [hidx] at h
        exact absurd rfl h

theorem bridgeEntryAdd_accepted {free : Option (Fin n)}
    (h : (bridgeEntryAdd maxVrfs s free rt).1 = 0) :
    rt.rtrVrfId < maxVrfs ∧ rt.rtrMac.length = vrEtherAlen := by
  unfold bridgeEntryAdd at h
  split_ifs at h with hvrf
  · exact absurd h (show (-einval : ℤ) ≠ 0 by decide)
  · rw [not_or, not_not] at hvrf
    exact ⟨Nat.not_le.mp hvrf.1, hvrf.2⟩

/-! ### What a deletion does to the table -/

/-- The entry of a key was given up. -/
structure Removed (s s' : State n) (key : Key) (i : Fin n) : Prop where
  index : s'.index = update s.index key none
  used : s'.used = update s.used i false
  entry : ∀ j, j ≠ i → s'.entry j = s.entry j
  empty : (s'.entry i).beNh = none
  nexthops : s'.nexthops = s.nexthops

theorem bridgeTableEntryFree_removed (s : State n) (key : Key) (i : Fin n) :
    Removed s (bridgeTableEntryFree s key i) key i := by
  unfold bridgeTableEntryFree
  dsimp only
  cases hnh : (s.entry i).beNh with
  | none =>
    refine ⟨rfl, rfl, fun j hj => update_of_ne hj _ _, ?_, rfl⟩
    simp only [State.setEntry, update_self]
  | some p =>
    refine ⟨rfl, rfl, fun j hj => update_of_ne hj _ _, ?_, rfl⟩
    simp only [State.setEntry, State.put, update_self]

theorem Counted.free (h : Counted s others []) (key : Key) (i : Fin n) :
    Counted (bridgeTableEntryFree s key i) others [] := by
  unfold bridgeTableEntryFree
  dsimp only
  cases hnh : (s.entry i).beNh with
  | none =>
    exact h.setEntry_same (i := i)
      (e := { s.entry i with
        beFlags := { (s.entry i).beFlags with valid := false }
        beNh := none }) hnh.symm
  | some p =>
    -- The reference of the entry is loose between the two writes.
    have hset : Counted (s.setEntry i { s.entry i with
        beFlags := { (s.entry i).beFlags with valid := false }
        beNh := none
        beNhId := -1 }) others [p] :=
      h.setEntry i _ fun q => by
        dsimp only
        rw [hnh]
        exact Nat.add_comm _ _
    exact hset.put

theorem bridgeEntryDel_cases (s : State n) (maxVrfs : ℕ) (rt : RouteReq) :
    ((bridgeEntryDel maxVrfs s rt).1 ≠ 0 ∧ (bridgeEntryDel maxVrfs s rt).2 = s) ∨
      ((bridgeEntryDel maxVrfs s rt).1 = 0 ∧ ∃ i, s.index rt.key = some i ∧
        (bridgeEntryDel maxVrfs s rt).2 = bridgeTableEntryFree s rt.key i) := by
  have hinval : (-einval : ℤ) ≠ 0 := by decide
  unfold bridgeEntryDel
  split_ifs with hvrf
  · exact .inl ⟨hinval, rfl⟩
  unfold bridgeTableDelete
  split_ifs with hlen
  · exact .inl ⟨hinval, rfl⟩
  cases hidx : s.index rt.key with
  | none => exact .inl ⟨show (-enoent : ℤ) ≠ 0 by decide, rfl⟩
  | some i => exact .inr ⟨rfl, i, rfl, rfl⟩

theorem bridgeEntryDel_of_index (hvrf : rt.rtrVrfId < maxVrfs)
    (hlen : rt.rtrMac.length = vrEtherAlen) (hidx : s.index rt.key = some i) :
    (bridgeEntryDel maxVrfs s rt).2 = bridgeTableEntryFree s rt.key i := by
  have hsix : ¬ (rt.rtrMac.length > 6 ∨ rt.rtrVrfId ≥ maxVrfs) := by
    rw [hlen, not_or, vrEtherAlen]
    omega
  rw [bridgeEntryDel, if_neg hsix, bridgeTableDelete, if_neg (not_not.mpr hlen), hidx]

theorem bridgeEntryDel_vrf (hmax : maxVrfs ≤ vrMaxVrfs)
    (h : (bridgeEntryDel maxVrfs s rt).1 = 0) : rt.rtrVrfId < vrMaxVrfs := by
  unfold bridgeEntryDel at h
  split_ifs at h with hvrf
  · exact absurd h (show (-einval : ℤ) ≠ 0 by decide)
  · have := not_le.mp fun hle => hvrf (.inr hle)
    omega

/-! ### The table as a whole -/

/-- Every key has an entry in use, and no two keys have the same. -/
structure Wf (s : State n) : Prop where
  used : ∀ k i, s.index k = some i → s.used i = true
  unique : ∀ k k' i, s.index k = some i → s.index k' = some i → k = k'

/-- The entry of another key is not the one that an addition writes. -/
theorem Wf.ne_of_slot (h : Wf s) (hk : k ≠ key) (hj : s.index k = some j)
    (hslot : s.index key = some i ∨ s.used i = false) : j ≠ i := by
  rintro rfl
  obtain hkey | hfree := hslot
  · exact hk (h.unique k key j hj hkey)
  · exact absurd (h.used k j hj) (by rw [hfree]; decide)

/-- The answers for other keys do not depend on the entry and the key that change. -/
theorem answer_of_ne {o : Option (Fin n)} (hk : k ≠ key) (hindex : s'.index = update s.index key o)
    (hentry : ∀ j, j ≠ i → s'.entry j = s.entry j) (hne : ∀ j, s.index k = some j → j ≠ i) :
    s'.answer k = s.answer k := by
  unfold State.answer
  rw [hindex, update_of_ne hk]
  cases hj : s.index k with
  | none => rfl
  | some j => exact congrArg BridgeEntry.answer (hentry j (hne j hj))

variable {answer : ℕ × Option ℕ}

theorem Added.answer_eq (h : Added s s' key i answer) (hw : Wf s)
    (hslot : s.index key = some i ∨ s.used i = false) (k : Key) :
    s'.answer k = if k = key then some answer else s.answer k := by
  split_ifs with hk
  · unfold State.answer
    rw [hk, h.index, update_self]
    exact h.answer
  · exact answer_of_ne hk h.index h.entry fun j hj => hw.ne_of_slot hk hj hslot

theorem Wf.enter (hw : Wf s) (hindex : s'.index = update s.index key (some i))
    (hused : s'.used = update s.used i true) (hslot : s.index key = some i ∨ s.used i = false) :
    Wf s' := by
  have hkey : ∀ k j, s'.index k = some j → (k = key ∧ j = i) ∨
      (k ≠ key ∧ s.index k = some j ∧ j ≠ i) := by
    intro k j hj
    rw [hindex] at hj
    by_cases hk : k = key
    · rw [hk, update_self] at hj
      exact .inl ⟨hk, (Option.some.inj hj).symm⟩
    · rw [update_of_ne hk] at hj
      exact .inr ⟨hk, hj, hw.ne_of_slot hk hj hslot⟩
  constructor
  · intro k j hj
    rw [hused]
    obtain ⟨-, rfl⟩ | ⟨-, hj, hne⟩ := hkey k j hj
    · exact update_self _ _ _
    · rw [update_of_ne hne]
      exact hw.used k j hj
  · intro k k' j hj hj'
    obtain ⟨hk, hji⟩ | ⟨-, hj, hne⟩ := hkey k j hj <;>
      obtain ⟨hk', hji'⟩ | ⟨-, hj', hne'⟩ := hkey k' j hj'
    · rw [hk, hk']
    · exact absurd hji hne'
    · exact absurd hji' hne
    · exact hw.unique k k' j hj hj'

theorem Removed.answer_eq (h : Removed s s' key i) (hw : Wf s) (hidx : s.index key = some i)
    (k : Key) : s'.answer k = if k = key then none else s.answer k := by
  split_ifs with hk
  · unfold State.answer
    rw [hk, h.index, update_self]
    rfl
  · exact answer_of_ne hk h.index h.entry fun j hj => hw.ne_of_slot hk hj (.inl hidx)

theorem of_update_none {α β : Type} [DecidableEq α] {f : α → Option β} {a b : α} {x : β}
    (h : update f a none b = some x) : b ≠ a ∧ f b = some x := by
  by_cases hb : b = a
  · rw [hb, update_self] at h
    cases h
  · exact ⟨hb, by rwa [update_of_ne hb] at h⟩

theorem Removed.wf (h : Removed s s' key i) (hw : Wf s) (hidx : s.index key = some i) : Wf s' := by
  have hkey : ∀ k j, s'.index k = some j → s.index k = some j ∧ j ≠ i := by
    intro k j hj
    rw [h.index] at hj
    obtain ⟨hk, hj⟩ := of_update_none hj
    exact ⟨hj, hw.ne_of_slot hk hj (.inl hidx)⟩
  constructor
  · intro k j hj
    obtain ⟨hj, hne⟩ := hkey k j hj
    rw [h.used, update_of_ne hne]
    exact hw.used k j hj
  · intro k k' j hj hj'
    exact hw.unique k k' j (hkey k j hj).1 (hkey k' j hj').1

theorem SameTable.answer_eq (h : SameTable s s') (k : Key) : s'.answer k = s.answer k := by
  unfold State.answer
  rw [h.index, h.entry]

theorem SameTable.wf (h : SameTable s s') (hw : Wf s) : Wf s' := by
  constructor
  · rw [h.index, h.used]
    exact hw.used
  · rw [h.index]
    exact hw.unique

/-! ### The references of others -/

open Classical in
/-- The reference that the table of nexthops has to an object. -/
noncomputable def installed (nexthops : ℕ → Option ℕ) (p : ℕ) : ℕ :=
  if ∃ id, nexthops id = some p then 1 else 0

theorem installed_update {nexthops : ℕ → Option ℕ} {id p : ℕ} (hid : nexthops id = none)
    (hp : ∀ j, nexthops j ≠ some p) :
    installed (update nexthops id (some p)) = installed nexthops + Pi.single p 1 := by
  classical
  funext q
  rw [Pi.add_apply]
  by_cases hq : q = p
  · subst hq
    rw [Pi.single_eq_same, installed, installed, if_pos ⟨id, update_self _ _ _⟩,
      if_neg (not_exists.mpr hp)]
  · rw [Pi.single_eq_of_ne hq, installed, installed]
    refine if_congr ⟨?_, ?_⟩ rfl rfl
    · rintro ⟨j, hj⟩
      by_cases hji : j = id
      · rw [hji, update_self] at hj
        exact absurd (Option.some.inj hj).symm hq
      · exact ⟨j, by rwa [update_of_ne hji] at hj⟩
    · rintro ⟨j, hj⟩
      refine ⟨j, ?_⟩
      rwa [update_of_ne]
      rintro rfl
      exact absurd (hid.symm.trans hj) nofun

theorem counted_cons {p : ℕ} :
    Counted s others (p :: loose) ↔ Counted s (others + Pi.single p 1) loose := by
  unfold Counted
  refine forall_congr' fun q => ?_
  by_cases hq : q = p
  · subst hq
    rw [List.count_cons_self, Pi.add_apply, Pi.single_eq_same]
    omega
  · rw [List.count_cons_of_ne (Ne.symm hq), Pi.add_apply, Pi.single_eq_of_ne hq, Nat.add_zero]

/-! ### Runs -/

/-- The bridge table with its nexthops, beside the map that it is expected to be, the references that
others hold, and the last return value. -/
structure Sys (n : ℕ) where
  st : State n
  expected : ℕ × List Byte → Option (ℕ × Option ℕ)
  held : ℕ → ℕ
  ret : ℤ

/-- What happens: bridge routes are added, with the entry that the hash table would give, and deleted;
nexthops are created at an address and deleted; and others take and drop references. -/
inductive Event (n : ℕ)
  | add (free : Option (Fin n)) (rt : RouteReq)
  | delete (rt : RouteReq)
  | nhCreate (id p : ℕ)
  | nhDelete (id : ℕ)
  | hold (p : ℕ)
  | release (p : ℕ)

/-- The outcome of a request: if it succeeds, it is in the map. -/
def Sys.after (s : Sys n) (rt : RouteReq) (o : Option (ℕ × Option ℕ)) (r : ℤ × State n) : Sys n :=
  { s with
    st := r.2
    ret := r.1
    expected := if r.1 = 0 then update s.expected (rt.rtrVrfId, rt.rtrMac) o else s.expected }

/-- One event.  The hash table gives only unused entries, a nexthop is created in memory to which
nothing refers, and only references that are held are dropped. -/
def step (maxVrfs : ℕ) (s : Sys n) : Event n → Option (Sys n)
  | .add free rt =>
    if ∀ i, free = some i → s.st.used i = false then
      some (s.after rt (rt.wanted s.st) (bridgeEntryAdd maxVrfs s.st free rt))
    else none
  | .delete rt => some (s.after rt none (bridgeEntryDel maxVrfs s.st rt))
  | .nhCreate id p =>
    if s.st.nexthops id = none ∧ s.st.nhUsers p = 0 then
      some { s with
        st := { s.st.hold p with nexthops := update s.st.nexthops id (some p) }
        ret := 0 }
    else none
  | .nhDelete id =>
    match s.st.nexthops id with
    | none => some { s with ret := -enoent }
    | some p => some { s with
        st := { s.st.put p with nexthops := update s.st.nexthops id none }
        ret := 0 }
  | .hold p =>
    if 0 < s.st.nhUsers p then
      some { s with st := s.st.hold p, held := s.held + Pi.single p 1, ret := 0 }
    else none
  | .release p =>
    if 0 < s.held p then
      some { s with st := s.st.put p, held := s.held - Pi.single p 1, ret := 0 }
    else none

/-- An addition that repeats an id finds the object that the entry has. -/
def SameId (s : Sys n) : Event n → Prop
  | .add _ rt => SameObject s.st rt
  | _ => True

/-- The empty table. -/
def Sys.init (n : ℕ) : Sys n where
  st :=
    { index := fun _ => none
      used := fun _ => false
      entry := fun _ => ⟨none, 0, 0, {}⟩
      nexthops := fun _ => none
      nhUsers := fun _ => 0 }
  expected := fun _ => none
  held := fun _ => 0
  ret := 0

/-- What holds along every run. -/
structure Inv (s : Sys n) : Prop where
  wf : Wf s.st
  expected : ∀ vrf mac, vrf < vrMaxVrfs → bridgeTableLookup s.st vrf mac = s.expected (vrf, mac)
  counted : Counted s.st (installed s.st.nexthops + s.held) []
  once : ∀ id id' p, s.st.nexthops id = some p → s.st.nexthops id' = some p → id = id'

theorem inv_init : Inv (Sys.init n) := by
  refine ⟨⟨nofun, nofun⟩, fun _ _ _ => rfl, ?_, nofun⟩
  intro p
  have hinst : installed (Sys.init n).st.nexthops p = 0 := if_neg fun ⟨_, h⟩ => absurd h nofun
  have hpoint : pointing (Sys.init n).st.entry p = 0 :=
    Finset.sum_eq_zero fun _ _ => rfl
  rw [Pi.add_apply, hinst, hpoint]
  rfl

theorem key_inj {vrf vrf' : ℕ} {mac mac' : List Byte} (h : vrf < vrMaxVrfs) (h' : vrf' < vrMaxVrfs) :
    (⟨BitVec.ofNat 16 vrf, mac⟩ : Key) = ⟨BitVec.ofNat 16 vrf', mac'⟩ ↔
      (vrf, mac) = (vrf', mac') := by
  have hmax : vrMaxVrfs = 2 ^ 16 := rfl
  rw [hmax] at h h'
  constructor
  · intro heq
    obtain ⟨hvrf, rfl⟩ := Key.mk.inj heq
    have hnat := congrArg BitVec.toNat hvrf
    rw [BitVec.toNat_ofNat, BitVec.toNat_ofNat, Nat.mod_eq_of_lt h, Nat.mod_eq_of_lt h'] at hnat
    rw [hnat]
  · intro heq
    cases heq
    rfl

variable {sys sys' : Sys n} {o : Option (ℕ × Option ℕ)} {r : ℤ × State n}

/-- The map changes where the table does. -/
theorem Inv.after (h : Inv sys) (hcount : Counted r.2 (installed sys.st.nexthops + sys.held) [])
    (hnhs : r.2.nexthops = sys.st.nexthops) (hwf : Wf r.2)
    (hans : (r.1 ≠ 0 ∧ ∀ k, r.2.answer k = sys.st.answer k) ∨
      (r.1 = 0 ∧ rt.rtrVrfId < vrMaxVrfs ∧
        ∀ k, r.2.answer k = if k = rt.key then o else sys.st.answer k)) :
    Inv (sys.after rt o r) := by
  refine ⟨hwf, ?_, by rwa [Sys.after, hnhs], by rw [Sys.after, hnhs]; exact h.once⟩
  intro vrf mac hv
  unfold Sys.after
  dsimp only
  obtain ⟨hret, hans⟩ | ⟨hret, hvrf, hans⟩ := hans
  · rw [if_neg hret]
    exact (hans _).trans (h.expected vrf mac hv)
  · rw [if_pos hret, bridgeTableLookup, hans, update_apply]
    exact if_congr (key_inj hv hvrf) rfl (h.expected vrf mac hv)

theorem inv_add (hmax : maxVrfs ≤ vrMaxVrfs) (h : Inv sys) {free : Option (Fin n)}
    (hsame : SameObject sys.st rt) (hs : step maxVrfs sys (.add free rt) = some sys') : Inv sys' := by
  unfold step at hs
  dsimp only at hs
  split_ifs at hs with hfree
  cases hs
  have hcount := h.counted.entryAdd maxVrfs free rt
  obtain ⟨hret, htable⟩ | ⟨hret, i, answer, hslot, hwant, hadd⟩ :=
    bridgeEntryAdd_cases maxVrfs free hsame (h.wf.used rt.key)
  · exact h.after hcount htable.nexthops (htable.wf h.wf) (.inl ⟨hret, htable.answer_eq⟩)
  · have hslot' : sys.st.index rt.key = some i ∨ sys.st.used i = false :=
      hslot.imp_right fun hs => hfree i hs.2
    rw [hwant]
    exact h.after hcount hadd.nexthops (h.wf.enter hadd.index hadd.used hslot')
      (.inr ⟨hret, (bridgeEntryAdd_accepted hret).1.trans_le hmax, hadd.answer_eq h.wf hslot'⟩)

theorem inv_delete (hmax : maxVrfs ≤ vrMaxVrfs) (h : Inv sys)
    (hs : step maxVrfs sys (.delete rt) = some sys') : Inv sys' := by
  cases hs
  obtain ⟨hret, hsame⟩ | ⟨hret, i, hidx, hfree⟩ := bridgeEntryDel_cases sys.st maxVrfs rt
  · refine h.after ?_ ?_ ?_ (.inl ⟨hret, ?_⟩)
    · rw [hsame]
      exact h.counted
    · rw [hsame]
    · rw [hsame]
      exact h.wf
    · rw [hsame]
      exact fun _ => rfl
  · have hrem := bridgeTableEntryFree_removed sys.st rt.key i
    rw [← hfree] at hrem
    refine h.after ?_ hrem.nexthops (hrem.wf h.wf hidx)
      (.inr ⟨hret, bridgeEntryDel_vrf hmax hret, hrem.answer_eq h.wf hidx⟩)
    rw [hfree]
    exact h.counted.free rt.key i

theorem inv_nhCreate (h : Inv sys) {id p : ℕ}
    (hs : step maxVrfs sys (.nhCreate id p) = some sys') : Inv sys' := by
  unfold step at hs
  dsimp only at hs
  split_ifs at hs with hnew
  cases hs
  -- Nothing refers to the memory, so no other id has it.
  have hfresh : ∀ j, sys.st.nexthops j ≠ some p := by
    intro j hj
    have hcount := h.counted p
    rw [hnew.2, Pi.add_apply, installed, if_pos ⟨j, hj⟩] at hcount
    omega
  refine ⟨⟨h.wf.used, h.wf.unique⟩, h.expected, ?_, ?_⟩
  · dsimp only
    rw [installed_update hnew.1 hfresh, add_right_comm]
    exact counted_cons.mp (h.counted.hold p)
  · intro j j' q hj hj'
    dsimp only at hj hj'
    by_cases hji : j = id <;> by_cases hji' : j' = id
    · rw [hji, hji']
    · rw [hji, update_self] at hj
      rw [update_of_ne hji', ← hj] at hj'
      exact absurd hj' (hfresh j')
    · rw [hji', update_self] at hj'
      rw [update_of_ne hji, ← hj'] at hj
      exact absurd hj (hfresh j)
    · rw [update_of_ne hji] at hj
      rw [update_of_ne hji'] at hj'
      exact h.once j j' q hj hj'

theorem inv_nhDelete (h : Inv sys) {id : ℕ}
    (hs : step maxVrfs sys (.nhDelete id) = some sys') : Inv sys' := by
  unfold step at hs
  dsimp only at hs
  cases hid : sys.st.nexthops id with
  | none =>
    rw [hid] at hs
    cases hs
    exact ⟨h.wf, h.expected, h.counted, h.once⟩
  | some p =>
    rw [hid] at hs
    cases hs
    -- The object is installed under no other id, so nothing of it is left in the table.
    have hgone : ∀ j, update sys.st.nexthops id none j ≠ some p := by
      intro j hj
      obtain ⟨hji, hj⟩ := of_update_none hj
      exact hji (h.once j id p hj hid)
    have hinst := installed_update (update_self id none sys.st.nexthops) hgone
    rw [update_idem, ← hid, update_eq_self] at hinst
    have hcount := h.counted
    rw [hinst, add_right_comm] at hcount
    refine ⟨⟨h.wf.used, h.wf.unique⟩, h.expected, (counted_cons.mpr hcount).put, ?_⟩
    exact fun j j' q hj hj' => h.once j j' q (of_update_none hj).2 (of_update_none hj').2

theorem inv_hold (h : Inv sys) {p : ℕ} (hs : step maxVrfs sys (.hold p) = some sys') : Inv sys' := by
  unfold step at hs
  dsimp only at hs
  split_ifs at hs
  cases hs
  refine ⟨⟨h.wf.used, h.wf.unique⟩, h.expected, ?_, h.once⟩
  have hcount := counted_cons.mp (h.counted.hold p)
  rwa [add_assoc] at hcount

theorem inv_release (h : Inv sys) {p : ℕ} (hs : step maxVrfs sys (.release p) = some sys') :
    Inv sys' := by
  unfold step at hs
  dsimp only at hs
  split_ifs at hs with hheld
  cases hs
  have hle : Pi.single p 1 ≤ sys.held := by
    intro q
    by_cases hq : q = p
    · subst hq
      rwa [Pi.single_eq_same]
    · rw [Pi.single_eq_of_ne hq]
      exact Nat.zero_le _
  have hcancel : sys.held - Pi.single p 1 + Pi.single p 1 = sys.held :=
    funext fun q => Nat.sub_add_cancel (hle q)
  have hcount := h.counted
  rw [← hcancel, ← add_assoc] at hcount
  exact ⟨⟨h.wf.used, h.wf.unique⟩, h.expected, (counted_cons.mpr hcount).put, h.once⟩

theorem inv_step (hmax : maxVrfs ≤ vrMaxVrfs) (e : Event n) (h : Inv sys) (hsame : SameId sys e)
    (hs : step maxVrfs sys e = some sys') : Inv sys' := by
  cases e with
  | add free rt => exact inv_add hmax h hsame hs
  | delete rt => exact inv_delete hmax h hs
  | nhCreate id p => exact inv_nhCreate h hs
  | nhDelete id => exact inv_nhDelete h hs
  | hold p => exact inv_hold h hs
  | release p => exact inv_release h hs

/-- **The bridge table is a map.**  In every run in which an addition that repeats the nexthop id of an
entry finds the object of the entry under it, a lookup gives what the last successful addition asked
for, or nothing after a deletion; an addition that fails changes no lookup; and a nexthop has one
reference for the table of nexthops, those that others hold, and one for each entry that points to it. -/
theorem bridge_refines (hmax : maxVrfs ≤ vrMaxVrfs)
    (h : Reach (step maxVrfs) SameId (Sys.init n) sys) :
    (∀ vrf mac, vrf < vrMaxVrfs → bridgeTableLookup sys.st vrf mac = sys.expected (vrf, mac)) ∧
      (∀ free rt, (bridgeEntryAdd maxVrfs sys.st free rt).1 ≠ 0 → ∀ vrf mac,
        bridgeTableLookup (bridgeEntryAdd maxVrfs sys.st free rt).2 vrf mac =
          bridgeTableLookup sys.st vrf mac) ∧
      ∀ p, sys.st.nhUsers p =
        installed sys.st.nexthops p + sys.held p + pointing sys.st.entry p := by
  have hinv : Inv sys := h.invariant inv_init fun _ e _ hi hp hs => inv_step hmax e hi hp hs
  refine ⟨hinv.expected, ?_, hinv.counted⟩
  intro free rt hret vrf mac
  exact (bridgeEntryAdd_failed hret).answer_eq _

instance (s : Sys n) : ∀ e, Decidable (SameId s e)
  | .add _ rt => inferInstanceAs (Decidable (SameObject s.st rt))
  | .delete _ | .nhCreate _ _ | .nhDelete _ | .hold _ | .release _ => .isTrue trivial

instance two_neZero : NeZero 2 := ⟨by decide⟩

/-- A bridge route of VRF 1 to nexthop 5. -/
def route (label : ℕ) : RouteReq where
  rtrVrfId := 1
  rtrMac := [2, 0, 0, 0, 0, 1]
  rtrNhId := 5
  rtrLabel := label
  rtrLabelFlags := { labelValid := true }

/-- A route is added and updated while somebody holds the nexthop. -/
def updated : List (Event 2) :=
  [.nhCreate 5 1, .add (some 0) (route 100), .hold 1, .add none (route 200)]

theorem bridge_refines_updated : ∃ sys, runWhen (step 4096) SameId updated (Sys.init 2) = some sys ∧
    bridgeTableLookup sys.st 1 (route 200).rtrMac = some (1, some 200) ∧
    sys.st.nhUsers 1 = installed sys.st.nexthops 1 + 1 + pointing sys.st.entry 1 := by
  have hrun : (runWhen (step 4096) SameId updated (Sys.init 2)).map
      (fun sys => (sys.expected (1, (route 200).rtrMac), sys.held 1)) =
        some (some (1, some 200), 1) := by decide
  obtain ⟨sys, hsys, hexp⟩ := Option.map_eq_some_iff.mp hrun
  obtain ⟨hexp, hheld⟩ := Prod.mk.inj hexp
  obtain ⟨hlookup, -, hcount⟩ := bridge_refines (by decide) (Reach.init.of_runWhen hsys)
  refine ⟨sys, hsys, (hlookup 1 _ (by decide)).trans hexp, ?_⟩
  have hcount₁ := hcount 1
  rwa [hheld] at hcount₁

/-- Nexthop 5 is deleted and created again, and then the route is added again. -/
def recreated : List (Event 2) :=
  [.nhCreate 5 1, .add (some 0) (route 100), .nhDelete 5, .nhCreate 5 2, .add none (route 100)]

/-- The last addition succeeds and keeps the object that was installed before: its id is the same. -/
theorem staleNexthop_kept : (runWhen (step 4096) (fun _ _ => True) recreated (Sys.init 2)).map
    (fun sys => (sys.ret, sys.expected (1, (route 100).rtrMac),
      bridgeTableLookup sys.st 1 (route 100).rtrMac)) =
      some (0, some (2, some 100), some (1, some 100)) := by decide

end Vrouter.Bridge
