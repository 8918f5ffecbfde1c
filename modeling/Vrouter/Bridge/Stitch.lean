import Vrouter.Bridge.Refine

/-! # The MAC addresses of inet routes

An inet route may name a MAC address.  `mtrie_add` looks it up in the bridge table and keeps the index
of its entry (`entry_bridge_index`); when the route is read, `vr_bridge_lookup` goes from the index to
the address.  Nothing tells the inet route that the entry was deleted.  So the index leads to the
address that was named, or to no valid entry, as long as an entry that a route names is given to no
other address (`stitched_mac`); if it is, the route shows that one (`reusedEntry_misleads`). -/

namespace Vrouter.Bridge

open Vrouter.Lib Function

variable {n maxVrfs : ℕ} {free : Option (Fin n)} {rt : RouteReq}

/-- An inet route that named a MAC address: its VRF, the address, and `entry_bridge_index`. -/
structure InetRoute (n : ℕ) where
  vrf : ℕ
  mac : List Byte
  entryBridgeIndex : Fin n
  deriving DecidableEq

def InetRoute.key (r : InetRoute n) : Key := ⟨BitVec.ofNat 16 r.vrf, r.mac⟩

/-- What `mtrie_add` does with a MAC address: without a bridge route that has a nexthop there is no inet
route. -/
def mtrieAddMac (maxVrfs : ℕ) (s : State n) (vrf : ℕ) (mac : List Byte) : Option (InetRoute n) :=
  if vrf ≥ maxVrfs ∨ mac.length ≠ vrEtherAlen ∨ isMacZero mac then none
  else
    match bridgeTableLookup s vrf mac with
    | none => none
    | some _ => (s.index ⟨BitVec.ofNat 16 vrf, mac⟩).map fun i => ⟨vrf, mac, i⟩

/-- `vr_bridge_lookup` of an index finds a valid entry with the key. -/
def State.LeadsTo (s : State n) (i : Fin n) (key : Key) : Prop := s.index key = some i

/-- The bridge table, and the inet routes that named a MAC address. -/
structure Stitches (n : ℕ) where
  st : State n
  routes : List (InetRoute n)

/-- Bridge routes are added, with the entry that the hash table would give, and deleted; nexthops change;
and inet routes come and go. -/
inductive StitchEvent (n : ℕ)
  | add (free : Option (Fin n)) (rt : RouteReq)
  | delete (rt : RouteReq)
  | nexthops (nhs : ℕ → Option ℕ)
  | addRoute (vrf : ℕ) (mac : List Byte)
  | dropRoute (r : InetRoute n)

/-- One event.  The hash table gives only unused entries. -/
def stitchStep (maxVrfs : ℕ) (s : Stitches n) : StitchEvent n → Option (Stitches n)
  | .add free rt =>
    if ∀ i, free = some i → s.st.used i = false then
      some { s with st := (bridgeEntryAdd maxVrfs s.st free rt).2 }
    else none
  | .delete rt => some { s with st := (bridgeEntryDel maxVrfs s.st rt).2 }
  | .nexthops nhs => some { s with st := { s.st with nexthops := nhs } }
  | .addRoute vrf mac =>
    some { s with routes := (mtrieAddMac maxVrfs s.st vrf mac).toList ++ s.routes }
  | .dropRoute r => some { s with routes := s.routes.erase r }

/-- **The condition on runs**: a new bridge route does not get an entry that an inet route names for
another MAC address or VRF. -/
def Spares (s : Stitches n) : StitchEvent n → Prop
  | .add (some i) rt => s.st.index rt.key = none →
      ∀ r ∈ s.routes, r.entryBridgeIndex = i → r.key = rt.key
  | _ => True

/-- An addition leaves the keys where they are, or brings a new one to the entry that it was given. -/
structure Enters (s s' : State n) (free : Option (Fin n)) (key : Key) : Prop where
  cases : (s'.index = s.index ∧ s'.used = s.used) ∨ ∃ i, s.index key = none ∧ free = some i ∧
    s'.index = update s.index key (some i) ∧ s'.used = update s.used i true

theorem bridgeTableAddEntry_enters (s : State n) :
    Enters s (bridgeTableAddEntry s free rt).2 free rt.key := by
  unfold bridgeTableAddEntry bridgeAdd
  cases hidx : s.index rt.key with
  | some i =>
    obtain ⟨hindex, hused, -⟩ := replaceNexthop_index s i rt.rtrNhId
    exact ⟨.inl ⟨hindex, hused⟩⟩
  | none =>
    cases free with
    | none => exact ⟨.inl ⟨rfl, rfl⟩⟩
    | some i =>
      obtain ⟨hindex, hused, -⟩ := replaceNexthop_index (takeEntry s i rt.key) i rt.rtrNhId
      exact ⟨.inr ⟨i, hidx, rfl, hindex, hused⟩⟩

theorem bridgeEntryAdd_enters (s : State n) :
    Enters s (bridgeEntryAdd maxVrfs s free rt).2 free rt.key := by
  unfold bridgeEntryAdd bridgeTableAdd State.get
  split_ifs
  · exact ⟨.inl ⟨rfl, rfl⟩⟩
  · exact ⟨.inl ⟨rfl, rfl⟩⟩
  · exact ⟨.inl ⟨rfl, rfl⟩⟩
  · cases s.nexthop rt.rtrNhId with
    | none => exact ⟨.inl ⟨rfl, rfl⟩⟩
    | some p => exact ⟨(bridgeTableAddEntry_enters (s.hold p)).cases⟩

/-- What holds along every run: an entry that an inet route names has the key that it was named for, or
none. -/
structure Stitched (maxVrfs : ℕ) (s : Stitches n) : Prop where
  wf : Wf s.st
  vrf : ∀ r ∈ s.routes, r.vrf < maxVrfs
  leads : ∀ r ∈ s.routes, ∀ k, s.st.LeadsTo r.entryBridgeIndex k → k = r.key

theorem mtrieAddMac_eq_some {s : State n} {vrf : ℕ} {mac : List Byte} {r : InetRoute n}
    (h : mtrieAddMac maxVrfs s vrf mac = some r) :
    r.vrf < maxVrfs ∧ s.LeadsTo r.entryBridgeIndex r.key := by
  unfold mtrieAddMac at h
  split_ifs at h with hbad
  split at h
  · cases h
  · obtain ⟨i, hi, rfl⟩ := Option.map_eq_some_iff.mp h
    exact ⟨Nat.lt_of_not_le fun hle => hbad (.inl hle), hi⟩

variable {s s' : Stitches n}

theorem Stitched.add (h : Stitched maxVrfs s) (hspare : Spares s (.add free rt))
    (hfree : ∀ i, free = some i → s.st.used i = false) :
    Stitched maxVrfs { s with st := (bridgeEntryAdd maxVrfs s.st free rt).2 } := by
  have henter : Enters s.st (bridgeEntryAdd maxVrfs s.st free rt).2 free rt.key :=
    bridgeEntryAdd_enters s.st
  obtain ⟨hindex, hused⟩ | ⟨i, hnone, rfl, hindex, hused⟩ := henter.cases
  · refine ⟨⟨?_, ?_⟩, h.vrf, fun r hr k hk => h.leads r hr k ?_⟩
    · rw [hindex, hused]
      exact h.wf.used
    · rw [hindex]
      exact h.wf.unique
    · exact (congrFun hindex k).symm.trans hk
  · refine ⟨h.wf.enter hindex hused (.inr (hfree i rfl)), h.vrf, fun r hr k hk => ?_⟩
    have hk := (congrFun hindex k).symm.trans hk
    by_cases hkey : k = rt.key
    · subst hkey
      rw [update_self] at hk
      exact (hspare hnone r hr (Option.some.inj hk).symm).symm
    · rw [update_of_ne hkey] at hk
      exact h.leads r hr k hk

theorem Stitched.delete (h : Stitched maxVrfs s) (rt : RouteReq) :
    Stitched maxVrfs { s with st := (bridgeEntryDel maxVrfs s.st rt).2 } := by
  obtain ⟨-, hdel⟩ | ⟨-, i, hidx, hdel⟩ := bridgeEntryDel_cases s.st maxVrfs rt
  · rw [hdel]
    exact h
  · have hrem := bridgeTableEntryFree_removed s.st rt.key i
    rw [hdel]
    refine ⟨hrem.wf h.wf hidx, h.vrf, fun r hr k hk => h.leads r hr k ?_⟩
    have hk := (congrFun hrem.index k).symm.trans hk
    by_cases hkey : k = rt.key
    · rw [hkey, update_self] at hk
      cases hk
    · rwa [update_of_ne hkey] at hk

theorem stitchStep_stitched {e : StitchEvent n} (h : Stitched maxVrfs s) (hspare : Spares s e)
    (hs : stitchStep maxVrfs s e = some s') : Stitched maxVrfs s' := by
  cases e with
  | add free rt =>
    simp only [stitchStep] at hs
    split_ifs at hs with hfree
    cases hs
    exact h.add hspare hfree
  | delete rt =>
    cases hs
    exact h.delete rt
  | nexthops nhs =>
    cases hs
    exact ⟨⟨h.wf.used, h.wf.unique⟩, h.vrf, h.leads⟩
  | addRoute vrf mac =>
    cases hs
    have hnew : ∀ r ∈ (mtrieAddMac maxVrfs s.st vrf mac).toList, r.vrf < maxVrfs ∧
        s.st.LeadsTo r.entryBridgeIndex r.key :=
      fun r hr => mtrieAddMac_eq_some (Option.mem_toList.mp hr)
    refine ⟨h.wf, fun r hr => ?_, fun r hr k hk => ?_⟩
    · exact (List.mem_append.mp hr).elim (fun hr => (hnew r hr).1) (h.vrf r)
    · exact (List.mem_append.mp hr).elim
        (fun hr => h.wf.unique k _ _ hk (hnew r hr).2) fun hr => h.leads r hr k hk
  | dropRoute r =>
    cases hs
    exact ⟨h.wf, fun r hr => h.vrf r (List.mem_of_mem_erase hr),
      fun r hr => h.leads r (List.mem_of_mem_erase hr)⟩

/-- An empty bridge table. -/
def Stitches.init (n : ℕ) : Stitches n := ⟨(Sys.init n).st, []⟩

/-- **A MAC address is never another one's**, in runs that give no entry away that an inet route names:
the entry that the index of a route leads to has the VRF and the MAC address that the route named. -/
theorem stitched_mac (hmax : maxVrfs ≤ vrMaxVrfs)
    (h : Reach (stitchStep maxVrfs) Spares (.init n) s) (r : InetRoute n) (hr : r ∈ s.routes)
    (k : Key) (hk : s.st.LeadsTo r.entryBridgeIndex k) :
    k.beVrfId.toNat = r.vrf ∧ k.beMac = r.mac := by
  have hinit : Stitched maxVrfs (.init n) :=
    ⟨inv_init.wf, (fun _ h => nomatch h), (fun _ h => nomatch h)⟩
  have hinv : Stitched maxVrfs s := h.invariant hinit fun _ _ _ hi hp hs =>
    stitchStep_stitched hi hp hs
  obtain rfl := hinv.leads r hr k hk
  refine ⟨?_, rfl⟩
  rw [InetRoute.key, BitVec.toNat_ofNat]
  exact Nat.mod_eq_of_lt ((hinv.vrf r hr).trans_le hmax)

instance (s : State n) (i : Fin n) (key : Key) : Decidable (s.LeadsTo i key) :=
  inferInstanceAs (Decidable (s.index key = some i))

instance (s : Stitches n) : ∀ e, Decidable (Spares s e)
  | .add (some _) _ => inferInstanceAs (Decidable (_ → ∀ r ∈ s.routes, _))
  | .add none _ | .delete _ | .nexthops _ | .addRoute .. | .dropRoute _ => .isTrue trivial

/-- A bridge route of VRF 2. -/
def otherRoute : RouteReq := { route 100 with rtrVrfId := 2, rtrMac := [2, 0, 0, 0, 0, 2] }

/-- An inet route names a MAC address, whose bridge route is deleted; then another one is added. -/
def renamed (i : Fin 2) : List (StitchEvent 2) :=
  [.nexthops fun _ => some 1, .add (some 0) (route 100), .addRoute 1 (route 100).rtrMac,
    .delete (route 100), .add (some i) otherRoute]

/-- The MAC address that the inet route named gets its entry back. -/
theorem stitched_mac_renamed :
    ∃ s, runWhen (stitchStep 4096) Spares (renamed 1 ++ [.add (some 0) (route 100)]) (.init 2) = some s ∧
      ∃ r ∈ s.routes, ∃ k, s.st.LeadsTo r.entryBridgeIndex k ∧ k.beVrfId.toNat = r.vrf ∧
        k.beMac = r.mac := by
  obtain ⟨s, hs, hr, hk⟩ : ∃ s, runWhen (stitchStep 4096) Spares
      (renamed 1 ++ [.add (some 0) (route 100)]) (.init 2) = some s ∧
      ⟨1, (route 100).rtrMac, 0⟩ ∈ s.routes ∧ s.st.LeadsTo 0 (route 100).key :=
    exists_of_decide (by decide)
  exact ⟨s, hs, _, hr, _, hk, stitched_mac (by decide) (Reach.init.of_runWhen hs) _ hr _ hk⟩

/-- **Someone else's address**: the entry of the deleted bridge route is given to the other one, and the
index of the inet route leads to a MAC address of another VRF. -/
theorem reusedEntry_misleads :
    ∃ s, runWhen (stitchStep 4096) (fun _ _ => True) (renamed 0) (.init 2) = some s ∧
      s.routes = [⟨1, (route 100).rtrMac, 0⟩] ∧ s.st.LeadsTo 0 otherRoute.key :=
  exists_of_decide (by decide)

end Vrouter.Bridge
