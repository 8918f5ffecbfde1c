import Vrouter.Mtrie.Lookup
import Vrouter.Mtrie.Mask

/-! # Route additions and the longest-prefix match

The routing tables as a whole: requests come in through `inet_route_add`, which checks them,
clears the bits beyond the prefix length and passes them to `mtrie_add`, and lookups of whole
addresses go through `mtrie_lookup`.  A request that is accepted adds one route (`addition`) to
the table of its VRF and family, and every other table stays as it is. -/

namespace Vrouter.Mtrie

open Vrouter.Lib

variable {δ : Type} {env : Env} {tbl : VnRtable} {vrf : ℕ} {fam : Family} {rt q : RouteReq}

/-- What a lookup reports of a route. -/
structure RouteData where
  nh : VoidPtr
  label : ℕ
  labelFlags : ℕ
  bridgeIndex : ℕ
  deriving DecidableEq, Repr

/-- The route that a leaf stands for. -/
def routeView (d : VoidPtr) (i : EntryInfo) : RouteData :=
  ⟨d, i.entryLabel, i.entryLabelFlags, i.entryBridgeIndex⟩

/-- The route of an empty table: the discard nexthop, without a label. -/
def discardRoute (env : Env) : RouteData := ⟨.nexthop env.ip4DefaultNh, 0xFFFFFF, 0, vrBeInvalidIndex⟩

/-- The outcome of a lookup whose longest match is `m`. -/
def answer (q : RouteReq) (m : ℕ × RouteData) : RouteReq × VoidPtr :=
  ({ q with
      rtrPrefixLen := m.1
      rtrLabel := m.2.label
      rtrLabelFlags := m.2.labelFlags
      rtrIndex := m.2.bridgeIndex
      rtrNh := m.2.nh }, m.2.nh)

theorem takeLeaf_eq_answer (d : VoidPtr) (i : EntryInfo) (q : RouteReq) :
    (takeLeaf d i q, d) = answer q (i.entryPrefixLen, routeView d i) := rfl

/-! ### The table of one VRF -/

/-- The trie of `vrf` and `fam` represents the table `T`, whose data are read off the routes by
`proj`. -/
def TableRepresents (env : Env) (proj : RouteData → δ) (tbl : VnRtable) (vrf : ℕ) (fam : Family)
    (T : List Bool → Option δ) : Prop :=
  ∃ root, vrfidToMtrie env tbl vrf fam = some root ∧
    Represents env .nexthop (8 * ipBktGetMaxLevel fam) (fun d i => proj (routeView d i)) T
      (proj (discardRoute env)) root []

/-- **A lookup of a whole address finds its longest-prefix match.** -/
theorem mtrieLookup_full {proj : RouteData → δ} {T : List Bool → Option δ}
    (h : TableRepresents env proj tbl vrf fam T) (hq : q.Full fam) :
    ∃ m : ℕ × RouteData, mtrieLookup env tbl vrf q = some (answer q m) ∧
      lpm T (proj (discardRoute env)) (bits q.rtrPrefix) (bits q.rtrPrefix).length =
        (m.1, proj m.2) := by
  obtain ⟨root, hroot, hrep⟩ := h
  cases root with
  | leaf t d i =>
    obtain ⟨rfl, hd, hm, hx⟩ := hrep
    refine ⟨(i.entryPrefixLen, routeView d i), ?_, ?_⟩
    · simp only [mtrieLookup, hq.family, hroot, if_neg hd.2, takeLeaf_eq_answer]
    · rw [lpm_of_isPrefix List.nil_prefix (fun x h1 _ h3 => hx x h1 h3), hm]
  | bucket i bkt =>
    obtain ⟨d, i', hres, hd, hm⟩ := mtrieLookupCore_full hq rfl 0 (by simpa using hrep)
    refine ⟨(i'.entryPrefixLen, routeView d i'), ?_, hm⟩
    simp only [mtrieLookup, hq.family, hroot, hres, if_neg hd]
    rfl

@[simp] theorem vrfidToMtrie_setMtrie (root : Entry) (h : vrf < env.vrVrfs) :
    vrfidToMtrie env (setMtrie tbl vrf fam root) vrf fam = some root := by
  simp [vrfidToMtrie, setMtrie, Nat.not_le.mpr h]

theorem vrfidToMtrie_setMtrie_ne {root : Entry} {vrf' : ℕ} {fam' : Family}
    (h : vrf' ≠ vrf ∨ rtableIndex fam' ≠ rtableIndex fam) :
    vrfidToMtrie env (setMtrie tbl vrf' fam' root) vrf fam = vrfidToMtrie env tbl vrf fam := by
  simp only [vrfidToMtrie, setMtrie]
  congr 1
  by_cases hf : rtableIndex fam = rtableIndex fam'
  · rw [hf, Function.update_self, Function.update_of_ne]
    rcases h with h | h
    · exact fun e => h e.symm
    · exact absurd hf.symm h
  · rw [Function.update_of_ne hf]

theorem fixed_nexthop {i : ℕ} {nh : Nexthop} (h : env.getNexthop i = some nh) :
    Fixed env .nexthop (.nexthop nh) := by
  have : env.getNexthop nh.nhId = some nh := by rw [env.getNexthop_id h, h]
  simp [Fixed, setEntryData, setEntryToNh, this]

theorem represents_mtrieAllocVrf (env : Env) (proj : RouteData → δ) (W : ℕ) :
    Represents env .nexthop W (fun d i => proj (routeView d i)) (fun _ => none)
      (proj (discardRoute env)) (mtrieAllocVrf env) [] := by
  have hd := fixed_nexthop env.getNexthop_discard
  rw [mtrieAllocVrf, env.getNexthop_discard]
  exact ⟨rfl, hd, rfl, fun _ _ _ => rfl⟩

/-! ### What an addition request adds -/

/-- The route of a request that `mtrie_add` accepts. -/
def acceptedRoute (env : Env) (rt : RouteReq) : Option RouteData :=
  match env.getNexthop rt.rtrNhId with
  | none => none
  | some nh =>
    if rt.rtrLabelFlags &&& vrRtLabelValidFlag = 0 ∧ nh.nhType = .tunnel then none
    else (reqBridgeIndex env rt).map fun index =>
      ⟨.nexthop nh, reqLabel rt, rt.rtrLabelFlags % 2 ^ 5, index⟩

theorem reqLabel_lt (rt : RouteReq) : reqLabel rt < 2 ^ 24 := by
  simp only [reqLabel]
  split_ifs
  · decide
  · exact lt_of_le_of_lt Nat.and_le_right (by decide)

/-- The table after an addition: the route is installed if the request carries one. -/
def addTo (proj : RouteData → δ) (env : Env) (rt : RouteReq) (T : List Bool → Option δ) :
    List Bool → Option δ :=
  match acceptedRoute env rt with
  | none => T
  | some r => install T (reqPrefix rt) (proj r)

/-- **One addition**: the trie of the request's VRF goes on to represent its table. -/
theorem mtrieAdd_represents {proj : RouteData → δ} {T : List Bool → Option δ}
    (hrt : rt.Masked) (hvrf : rt.rtrVrfId < env.vrVrfs)
    (h : TableRepresents env proj tbl rt.rtrVrfId rt.rtrFamily T) :
    TableRepresents env proj (mtrieAdd env tbl rt).2 rt.rtrVrfId rt.rtrFamily
      (addTo proj env rt T) := by
  obtain ⟨root, hroot, hrep⟩ := h
  simp only [mtrieAdd, hroot, Option.getD_some, addTo, acceptedRoute]
  have hkeep : TableRepresents env proj (setMtrie tbl rt.rtrVrfId rt.rtrFamily root) rt.rtrVrfId
      rt.rtrFamily T := ⟨root, vrfidToMtrie_setMtrie root hvrf, hrep⟩
  cases hnh : env.getNexthop rt.rtrNhId with
  | none => exact hkeep
  | some nh =>
    simp only
    split_ifs with htun
    · exact hkeep
    · cases hidx : reqBridgeIndex env rt with
      | none => exact hkeep
      | some index =>
        refine ⟨_, vrfidToMtrie_setMtrie _ hvrf, ?_⟩
        set rt' := { rt with rtrNh := .nexthop nh, rtrIndex := index, rtrLabel := reqLabel rt }
        have hready : rt'.Ready env (leafType true) :=
          ⟨⟨hrt.prefix_length, hrt.plen_le, hrt.masked⟩, fixed_nexthop hnh⟩
        have := mtrieAddCore_represents hready hrep
        have hdata : reqData (fun d i => proj (routeView d i)) rt' =
            proj ⟨.nexthop nh, reqLabel rt, rt.rtrLabelFlags % 2 ^ 5, index⟩ := by
          simp only [reqData, routeView, reqInfo, rt', Nat.mod_eq_of_lt (reqLabel_lt rt)]
        rw [hdata] at this
        exact this

theorem mtrieAdd_frame (h : rt.rtrVrfId ≠ vrf ∨ rtableIndex rt.rtrFamily ≠ rtableIndex fam) :
    vrfidToMtrie env (mtrieAdd env tbl rt).2 vrf fam = vrfidToMtrie env tbl vrf fam := by
  simp only [mtrieAdd]
  split
  · rw [vrfidToMtrie_setMtrie_ne h]
  · split_ifs
    · rw [vrfidToMtrie_setMtrie_ne h]
    · split
      · rw [vrfidToMtrie_setMtrie_ne h]
      · rw [vrfidToMtrie_setMtrie_ne h, vrfidToMtrie_setMtrie_ne h]

/-! ### Sequences of additions -/

/-- What a request to `inet_route_add` adds to the table of `vrf` and `fam`: its prefix and its
route, or nothing when it is for another table or is refused. -/
def addition (env : Env) (vrf : ℕ) (fam : Family) (rt : RouteReq) :
    Option (List Bool × RouteData) :=
  if rt.rtrVrfId = vrf ∧ rt.rtrFamily = fam ∧ rt.rtrPrefixLen ≤ 8 * rtIpAddrSize fam then
    (acceptedRoute env rt).map fun r => (reqPrefix rt, r)
  else none

/-- The tables after a sequence of requests to `inet_route_add`. -/
def addRoutes (env : Env) (tbl : VnRtable) (reqs : List RouteReq) : VnRtable :=
  reqs.foldl (fun tbl rt => (inetRouteAdd env tbl rt).2) tbl

theorem masked_maskPrefix (hlen : rt.rtrPrefix.length = rtIpAddrSize rt.rtrFamily)
    (hplen : rt.rtrPrefixLen ≤ 8 * rtIpAddrSize rt.rtrFamily) :
    RouteReq.Masked
      { rt with rtrPrefix := maskPrefix rt.rtrFamily rt.rtrPrefixLen rt.rtrPrefix } where
  prefix_length := by rw [maskPrefix_length _ _ hlen, hlen, rtIpAddrSize_eq]
  plen_le := by rw [← rtIpAddrSize_eq]; exact hplen
  masked := fun _ h1 h2 => maskPrefix_masked _ _ hlen hplen h1 h2

/-- One request to `inet_route_add`, seen from the table of `vrf` and `fam`. -/
theorem inetRouteAdd_represents {T : List Bool → Option RouteData} (hfam : fam ≠ .other)
    (hvrf : vrf < env.vrVrfs) (hlen : rt.rtrPrefix.length = rtIpAddrSize rt.rtrFamily)
    (h : TableRepresents env id tbl vrf fam T) :
    TableRepresents env id (inetRouteAdd env tbl rt).2 vrf fam
      (installAll (addition env vrf fam rt).toList T) := by
  have hsize : rt.rtrPrefix.length ≠ 0 := by rw [hlen]; cases rt.rtrFamily <;> decide
  have hskip : ∀ {tbl'}, vrfidToMtrie env tbl' vrf fam = vrfidToMtrie env tbl vrf fam →
      addition env vrf fam rt = none →
      TableRepresents env id tbl' vrf fam (installAll (addition env vrf fam rt).toList T) := by
    intro tbl' he hn
    obtain ⟨root, hroot, hrep⟩ := h
    rw [hn]
    exact ⟨root, by rw [he, hroot], hrep⟩
  simp only [inetRouteAdd]
  split_ifs with h1 h3
  · exact hskip rfl (if_neg (by rintro ⟨_, rfl, _⟩; exact hfam h1))
  · refine hskip rfl (if_neg ?_)
    rintro ⟨rfl, rfl, h4⟩
    rw [env.rtbMaxVrfs_eq] at h3
    omega
  · by_cases hme : rt.rtrVrfId = vrf ∧ rt.rtrFamily = fam
    · obtain ⟨rfl, rfl⟩ := hme
      have hplen : rt.rtrPrefixLen ≤ 8 * rtIpAddrSize rt.rtrFamily := by omega
      have := mtrieAdd_represents (masked_maskPrefix hlen hplen) hvrf h
      set rt' : RouteReq :=
        { rt with rtrPrefix := maskPrefix rt.rtrFamily rt.rtrPrefixLen rt.rtrPrefix }
      have hadd : addTo id env rt' T =
          installAll (addition env rt.rtrVrfId rt.rtrFamily rt).toList T := by
        have hp : reqPrefix rt' = reqPrefix rt := maskPrefix_take _ _ hlen hplen
        have hr : acceptedRoute env rt' = acceptedRoute env rt := rfl
        rw [addTo, hr, hp, addition, if_pos ⟨rfl, rfl, hplen⟩]
        cases acceptedRoute env rt <;> rfl
      rw [hadd] at this
      exact this
    · refine hskip (mtrieAdd_frame ?_) (if_neg fun h4 => hme ⟨h4.1, h4.2.1⟩)
      by_cases hv : rt.rtrVrfId = vrf
      · right
        have hf : rt.rtrFamily ≠ fam := fun hf => hme ⟨hv, hf⟩
        simp only [rtableIndex]
        revert h1 hf hfam
        generalize rt.rtrFamily = f
        cases f <;> cases fam <;> simp
      · exact Or.inl hv

theorem addRoutes_represents (hfam : fam ≠ .other) (hvrf : vrf < env.vrVrfs) :
    ∀ (reqs : List RouteReq) {tbl : VnRtable} {T : List Bool → Option RouteData},
      (∀ rt ∈ reqs, rt.rtrPrefix.length = rtIpAddrSize rt.rtrFamily) →
      TableRepresents env id tbl vrf fam T →
      TableRepresents env id (addRoutes env tbl reqs) vrf fam
        (installAll (reqs.filterMap (addition env vrf fam)) T)
  | [], _, _, _, h => h
  | rt :: reqs, tbl, T, hreqs, h => by
    have hstep := inetRouteAdd_represents hfam hvrf (hreqs rt (by simp)) h
    have hrest := addRoutes_represents hfam hvrf reqs (fun r hr => hreqs r (by simp [hr])) hstep
    rw [← installAll_append] at hrest
    have e : (addition env vrf fam rt).toList ++ reqs.filterMap (addition env vrf fam) =
        (rt :: reqs).filterMap (addition env vrf fam) := by
      cases h : addition env vrf fam rt <;> simp [h]
    rw [e] at hrest
    exact hrest

/-- The tables after additions to a VRF whose trie is fresh. -/
def addedFresh (env : Env) (tbl : VnRtable) (vrf : ℕ) (fam : Family) (reqs : List RouteReq) :
    VnRtable :=
  addRoutes env (setMtrie tbl vrf fam (mtrieAllocVrf env)) reqs

/-- The routes in the table of `vrf` and `fam` after a sequence of requests: for each prefix the
latest one added. -/
def addedTable (env : Env) (vrf : ℕ) (fam : Family) (reqs : List RouteReq) :
    List Bool → Option RouteData :=
  installAll (reqs.filterMap (addition env vrf fam)) fun _ => none

theorem addedFresh_represents (tbl : VnRtable) (hfam : fam ≠ .other) (hvrf : vrf < env.vrVrfs)
    {reqs : List RouteReq}
    (hreqs : ∀ rt ∈ reqs, rt.rtrPrefix.length = rtIpAddrSize rt.rtrFamily) :
    TableRepresents env id (addedFresh env tbl vrf fam reqs) vrf fam
      (addedTable env vrf fam reqs) :=
  addRoutes_represents hfam hvrf reqs hreqs
    ⟨_, vrfidToMtrie_setMtrie _ hvrf, represents_mtrieAllocVrf env id _⟩

/-- **Longest-prefix match under additions.**  After any sequence of additions to a fresh trie, a
lookup of a whole address answers with the longest prefix added that covers the address, with the
latest route added for that prefix, and with the discard nexthop and length `0` where none
covers it.  Additions of distinct prefixes can be reordered freely. -/
theorem mtrieLookup_addedFresh (env : Env) (tbl : VnRtable) (vrf : ℕ) (fam : Family)
    (hfam : fam ≠ .other) (hvrf : vrf < env.vrVrfs) (reqs : List RouteReq)
    (hreqs : ∀ rt ∈ reqs, rt.rtrPrefix.length = rtIpAddrSize rt.rtrFamily) :
    (∀ q : RouteReq, q.Full fam →
      mtrieLookup env (addedFresh env tbl vrf fam reqs) vrf q =
        some (answer q (lpm (addedTable env vrf fam reqs) (discardRoute env) (bits q.rtrPrefix)
          (bits q.rtrPrefix).length))) ∧
    (∀ reqs' : List RouteReq, reqs'.Perm reqs →
      ((reqs.filterMap (addition env vrf fam)).map Prod.fst).Nodup →
      ∀ q : RouteReq, q.Full fam →
        mtrieLookup env (addedFresh env tbl vrf fam reqs') vrf q =
          mtrieLookup env (addedFresh env tbl vrf fam reqs) vrf q) := by
  have hlookup : ∀ {reqs : List RouteReq},
      (∀ rt ∈ reqs, rt.rtrPrefix.length = rtIpAddrSize rt.rtrFamily) → ∀ q : RouteReq, q.Full fam →
      mtrieLookup env (addedFresh env tbl vrf fam reqs) vrf q =
        some (answer q (lpm (addedTable env vrf fam reqs) (discardRoute env) (bits q.rtrPrefix)
          (bits q.rtrPrefix).length)) := by
    intro reqs hreqs q hq
    obtain ⟨m, hm, hl⟩ := mtrieLookup_full (addedFresh_represents tbl hfam hvrf hreqs) hq
    simp only [id] at hl
    rw [hm, hl]
  refine ⟨hlookup hreqs, fun reqs' hperm hnodup q hq => ?_⟩
  have htab : addedTable env vrf fam reqs' = addedTable env vrf fam reqs :=
    (installAll_perm (hperm.symm.filterMap _) hnodup).symm
  rw [hlookup hreqs q hq, hlookup (fun rt hrt => hreqs rt (hperm.mem_iff.mp hrt)) q hq, htab]

/-- An environment with the discard nexthop `0` and two others. -/
def smallEnv : Env where
  vrVrfs := 2
  rtbMaxVrfs := 2
  getNexthop i := if i = 0 then some ⟨0, .discard⟩ else if i < 3 then some ⟨i, .encap⟩ else none
  bridgeLookup _ _ := none
  ip4DefaultNh := ⟨0, .discard⟩
  rtbMaxVrfs_eq := rfl
  getNexthop_id := by
    intro i nh h
    split_ifs at h with h0
    · cases h; exact h0.symm
    · cases h; rfl
  getNexthop_discard := rfl

/-- A request about the IPv4 prefix `pfx/plen` of VRF `0`, with the nexthop `nh` and a label. -/
def ip4Req (pfx : List Byte) (plen nh : ℕ) : RouteReq where
  rtrVrfId := 0
  rtrFamily := .inet
  rtrPrefix := pfx
  rtrPrefixLen := plen
  rtrLabelFlags := vrRtLabelValidFlag
  rtrLabel := 16
  rtrNhId := nh
  rtrMac := []
  rtrReplacePlen := 0
  rtrIndex := 0
  rtrNh := .null

theorem ip4Req_full (pfx : List Byte) (nh : ℕ) (h : pfx.length = 4) :
    (ip4Req pfx 32 nh).Full .inet := ⟨rfl, h, rfl⟩

theorem ip4Req_masked {pfx : List Byte} {plen : ℕ} (nh : ℕ) (hlen : pfx.length = 4)
    (hplen : plen ≤ 32) (hm : maskPrefix .inet plen pfx = pfx) : (ip4Req pfx plen nh).Masked := by
  refine ⟨hlen, hplen, fun level h1 h2 => ?_⟩
  have := maskPrefix_masked .inet _ hlen hplen h1 h2
  rw [hm] at this
  exact this

/-- 10.1.2.3 is found under 10.1.0.0/16, which was added before 10.0.0.0/8. -/
theorem mtrieLookup_addedFresh_small :
    mtrieLookup smallEnv (addedFresh smallEnv (fun _ _ => none) 0 .inet
        [ip4Req [10, 1, 0, 0] 16 2, ip4Req [10, 0, 0, 0] 8 1]) 0 (ip4Req [10, 1, 2, 3] 32 0) =
      some (answer (ip4Req [10, 1, 2, 3] 32 0)
        (16, ⟨.nexthop ⟨2, .encap⟩, 16, 1, vrBeInvalidIndex⟩)) := by
  rw [(mtrieLookup_addedFresh smallEnv _ 0 .inet (by decide) (by decide) _ (by decide)).1 _
    (ip4Req_full _ _ rfl)]
  decide

end Vrouter.Mtrie
