import Vrouter.Mtrie.Delete

/-! # Interleavings of additions and deletions

A run on the table of one VRF is a list of additions and deletions.  Beside the tries it carries
the abstract table of the routes installed, so that each deletion can be required to be *proper*:
its prefix is installed, and the request names the next shorter installed prefix, or the discard
route, as the replacement.

The bridge index is left out of the abstract data here: a deletion request carries a nexthop, a
label and a prefix length. -/

namespace Vrouter.Mtrie

open Vrouter.Lib

variable {δ : Type} {env : Env} {tbl : VnRtable} {vrf : ℕ} {fam : Family} {rt q : RouteReq}
  {T : List Bool → Option δ}

/-! ### One deletion -/

/-- The replacement of a deletion request that `mtrie_delete` accepts. -/
def replacementRoute (env : Env) (rt : RouteReq) : Option RouteData :=
  match env.getNexthop rt.rtrNhId with
  | none => none
  | some nh => (reqBridgeIndex env rt).map fun index =>
    ⟨.nexthop nh, reqLabel rt, rt.rtrLabelFlags % 2 ^ 5, index⟩

/-- **One deletion**: the trie goes on to represent the table without the prefix, if the deletion
is proper and leaves no filled block. -/
theorem mtrieDelete_represents {proj : RouteData → δ} {r : RouteData}
    (hlen : rt.rtrPrefix.length = ipBktGetMaxLevel rt.rtrFamily)
    (hplen : rt.rtrPrefixLen ≤ 8 * ipBktGetMaxLevel rt.rtrFamily) (hvrf : rt.rtrVrfId < env.vrVrfs)
    (hT : T (reqPrefix rt) ≠ none) (hr : replacementRoute env rt = some r)
    (hm : lpm (remove T (reqPrefix rt)) (proj (discardRoute env)) (reqPrefix rt)
      (reqPrefix rt).length = (rt.rtrReplacePlen, proj r))
    (hs : SparesFilled T (proj (discardRoute env)) (reqPrefix rt))
    (h : TableRepresents env proj tbl rt.rtrVrfId rt.rtrFamily T) :
    TableRepresents env proj (mtrieDelete env tbl rt).2 rt.rtrVrfId rt.rtrFamily
      (remove T (reqPrefix rt)) := by
  obtain ⟨root, hroot, hrep⟩ := h
  unfold replacementRoute at hr
  cases hnh : env.getNexthop rt.rtrNhId with
  | none => rw [hnh] at hr; cases hr
  | some nh =>
    rw [hnh] at hr
    obtain ⟨index, hidx, rfl⟩ := Option.map_eq_some_iff.mp hr
    simp only [mtrieDelete, hroot, hnh, hidx]
    refine ⟨_, vrfidToMtrie_setMtrie _ hvrf, ?_⟩
    set rt' := { rt with rtrNh := .nexthop nh, rtrIndex := index, rtrLabel := reqLabel rt }
    have hdel : rt'.Deletes env (leafType true) (fun d i => proj (routeView d i)) T
        (proj (discardRoute env)) := by
      refine ⟨hlen, hplen, hT, fixed_nexthop hnh, hm.trans ?_⟩
      simp only [routeView, reqInfo, rt', Nat.mod_eq_of_lt (reqLabel_lt rt)]
    have hzero (T : List Bool → Option δ) : (lpm T (proj (discardRoute env)) [] 0).1 = 0 :=
      Nat.le_zero.mp (lpm_len_le [] 0)
    refine mtrieDeleteEntry_represents hdel rfl hs root hrep rfl ?_ ?_ ?_ ?_
    · by_cases h0 : 0 < rt.rtrPrefixLen
      · exact Or.inl ⟨rfl, h0⟩
      · right
        rw [reqPrefix, show rt'.rtrPrefixLen = 0 from by simp only [rt']; omega]
        exact List.nil_prefix
    · intro hp
      have := hp.length_le
      rw [hdel.reqPrefix_length, List.length_nil] at this
      exact (hzero T).trans (Nat.le_zero.mp this).symm
    · intro t d i' he
      rw [he]; rfl
    · intro i' f _
      rw [hrep.plen]
      exact (hzero _).trans (hzero _).symm

/-! ### Runs -/

/-- What a lookup reports of a route, without its bridge index. -/
def routeKey (r : RouteData) : VoidPtr × ℕ × ℕ := (r.nh, r.label, r.labelFlags)

/-- The abstract table of a run. -/
abbrev Routes := List Bool → Option (VoidPtr × ℕ × ℕ)

inductive RouteOp
  | add (rt : RouteReq)
  | delete (rt : RouteReq)

def stepTables (env : Env) (tbl : VnRtable) : RouteOp → VnRtable
  | .add rt => (mtrieAdd env tbl rt).2
  | .delete rt => (mtrieDelete env tbl rt).2

def stepRoutes (env : Env) (T : Routes) : RouteOp → Routes
  | .add rt => addTo routeKey env rt T
  | .delete rt => remove T (reqPrefix rt)

/-- The longest match of a whole address in the table of a run. -/
def bestRoute (env : Env) (T : Routes) (a : List Bool) : ℕ × VoidPtr × ℕ × ℕ :=
  lpm T (routeKey (discardRoute env)) a a.length

/-- The operations a run is made of: additions of masked prefixes, and deletions of installed
prefixes that carry the route and the length of the next shorter installed prefix. -/
def Proper (env : Env) (vrf : ℕ) (fam : Family) (T : Routes) : RouteOp → Prop
  | .add rt => rt.rtrVrfId = vrf ∧ rt.rtrFamily = fam ∧ rt.Masked
  | .delete rt =>
    rt.rtrVrfId = vrf ∧ rt.rtrFamily = fam ∧ rt.rtrPrefix.length = ipBktGetMaxLevel fam ∧
      rt.rtrPrefixLen ≤ 8 * ipBktGetMaxLevel fam ∧ T (reqPrefix rt) ≠ none ∧
      (replacementRoute env rt).map routeKey =
        some (bestRoute env (remove T (reqPrefix rt)) (reqPrefix rt)).2 ∧
      rt.rtrReplacePlen = (bestRoute env (remove T (reqPrefix rt)) (reqPrefix rt)).1

/-- The condition under which a deletion does no harm: no bucket it checks is filled. -/
def Spares (env : Env) (T : Routes) : RouteOp → Prop
  | .add _ => True
  | .delete rt => SparesFilled T (routeKey (discardRoute env)) (reqPrefix rt)

/-- Every operation of the list meets `P` in the table it finds. -/
def Along (env : Env) (P : Routes → RouteOp → Prop) : Routes → List RouteOp → Prop
  | _, [] => True
  | T, op :: ops => P T op ∧ Along env P (stepRoutes env T op) ops

theorem step_represents {T : Routes} {op : RouteOp} (hvrf : vrf < env.vrVrfs)
    (hp : Proper env vrf fam T op) (hs : Spares env T op)
    (h : TableRepresents env routeKey tbl vrf fam T) :
    TableRepresents env routeKey (stepTables env tbl op) vrf fam (stepRoutes env T op) := by
  cases op with
  | add rt =>
    obtain ⟨rfl, rfl, hm⟩ := hp
    exact mtrieAdd_represents hm hvrf h
  | delete rt =>
    obtain ⟨rfl, rfl, hlen, hplen, hT, hr, hl⟩ := hp
    obtain ⟨r, hr, hk⟩ := Option.map_eq_some_iff.mp hr
    refine mtrieDelete_represents hlen hplen hvrf hT hr ?_ hs h
    rw [hl, hk]
    rfl

theorem run_represents (hvrf : vrf < env.vrVrfs) :
    ∀ (ops : List RouteOp) {tbl : VnRtable} {T : Routes},
      Along env (fun T op => Proper env vrf fam T op ∧ Spares env T op) T ops →
      TableRepresents env routeKey tbl vrf fam T →
      TableRepresents env routeKey (ops.foldl (stepTables env) tbl) vrf fam
        (ops.foldl (stepRoutes env) T)
  | [], _, _, _, h => h
  | _ :: ops, _, _, ⟨⟨hp, hs⟩, hrest⟩, h =>
    run_represents hvrf ops hrest (step_represents hvrf hp hs h)

/-- What a lookup of a whole address reports: the length, the nexthop, the label and its flags. -/
def report (env : Env) (tbl : VnRtable) (vrf : ℕ) (q : RouteReq) :
    Option (ℕ × VoidPtr × ℕ × ℕ) :=
  (mtrieLookup env tbl vrf q).map fun a =>
    (a.1.rtrPrefixLen, a.2, a.1.rtrLabel, a.1.rtrLabelFlags)

theorem report_eq {T : Routes} (h : TableRepresents env routeKey tbl vrf fam T)
    (hq : q.Full fam) : report env tbl vrf q = some (bestRoute env T (bits q.rtrPrefix)) := by
  obtain ⟨m, hm, hl⟩ := mtrieLookup_full h hq
  rw [report, hm, bestRoute, hl]
  rfl

/-- **Longest-prefix match under additions and deletions.**  In every run of proper operations
whose deletions leave no filled block, every lookup of a whole address reports the longest match
in the table of the routes still installed, and a further such deletion changes the report only of
the addresses whose match was the deleted prefix. -/
theorem report_run (env : Env) (tbl : VnRtable) (vrf : ℕ) (fam : Family) (hvrf : vrf < env.vrVrfs)
    (ops : List RouteOp)
    (hrun : Along env (fun T op => Proper env vrf fam T op ∧ Spares env T op) (fun _ => none) ops) :
    let tbl' := ops.foldl (stepTables env) (setMtrie tbl vrf fam (mtrieAllocVrf env))
    let T := ops.foldl (stepRoutes env) fun _ => none
    (∀ q : RouteReq, q.Full fam →
      report env tbl' vrf q = some (bestRoute env T (bits q.rtrPrefix))) ∧
    ∀ rt, Proper env vrf fam T (.delete rt) → Spares env T (.delete rt) →
      ∀ q : RouteReq, q.Full fam →
        ¬ (reqPrefix rt <+: bits q.rtrPrefix ∧
          (bestRoute env T (bits q.rtrPrefix)).1 = (reqPrefix rt).length) →
        report env (mtrieDelete env tbl' rt).2 vrf q = report env tbl' vrf q := by
  intro tbl' T
  have hrep : TableRepresents env routeKey tbl' vrf fam T :=
    run_represents hvrf ops hrun
      ⟨_, vrfidToMtrie_setMtrie _ hvrf, represents_mtrieAllocVrf env routeKey _⟩
  refine ⟨fun q hq => report_eq hrep hq, fun rt hp hs q hq hne => ?_⟩
  have hafter : report env (mtrieDelete env tbl' rt).2 vrf q =
      some (bestRoute env (remove T (reqPrefix rt)) (bits q.rtrPrefix)) :=
    report_eq (step_represents hvrf hp hs hrep) hq
  rw [hafter, report_eq hrep hq]
  congr 1
  by_cases hcov : reqPrefix rt <+: bits q.rtrPrefix
  · exact lpm_remove_of_ne (le_refl _) fun he => hne ⟨hcov, he⟩
  · exact lpm_remove_of_not_isPrefix hcov _

theorem not_filled_of_single {p : List Bool} (h : ∀ x, x ≠ p → T x = none) (b : List Bool) :
    ¬ Filled T b := by
  rintro ⟨n, d, h1, _, hT, _⟩
  have hword : ∀ c : Bool, b ++ List.replicate (n - b.length) c = p := by
    intro c
    by_contra hne
    have := hT (b ++ List.replicate (n - b.length) c) (List.prefix_append b _) (by simp; omega)
    rw [h _ hne] at this
    cases this
  have := List.append_cancel_left ((hword true).trans (hword false).symm)
  rw [show n - b.length = n - b.length - 1 + 1 by omega] at this
  simp [List.replicate_succ] at this

/-- 10.1.0.0/16 is deleted from under 10.0.0.0/8, and 10.1.2.3 falls back to that. -/
theorem report_run_small :
    report smallEnv ([RouteOp.add (ip4Req [10, 0, 0, 0] 8 1), .add (ip4Req [10, 1, 0, 0] 16 2),
        .delete { ip4Req [10, 1, 0, 0] 16 1 with rtrReplacePlen := 8 }].foldl
          (stepTables smallEnv) (setMtrie (fun _ _ => none) 0 .inet (mtrieAllocVrf smallEnv))) 0
        (ip4Req [10, 1, 2, 3] 32 0) =
      some (8, .nexthop ⟨1, .encap⟩, 16, 1) := by
  rw [(report_run smallEnv (fun _ _ => none) 0 .inet (by decide) _ ?_).1 _ (ip4Req_full _ _ rfl)]
  · decide
  · refine ⟨⟨⟨rfl, rfl, ip4Req_masked _ rfl (by decide) (by decide)⟩, trivial⟩,
      ⟨⟨rfl, rfl, ip4Req_masked _ rfl (by decide) (by decide)⟩, trivial⟩, ⟨?_, ?_⟩, trivial⟩
    · exact ⟨rfl, rfl, by decide, by decide, by decide, by decide, by decide⟩
    · intro b _ _
      refine not_filled_of_single (p := reqPrefix (ip4Req [10, 0, 0, 0] 8 1)) (fun x hx => ?_) b
      by_cases h2 : x = reqPrefix (ip4Req [10, 1, 0, 0] 16 2)
      · rw [h2]; exact remove_same _
      · have h1 : stepRoutes smallEnv (fun _ => none) (.add (ip4Req [10, 0, 0, 0] 8 1)) =
            install (fun _ => none) (reqPrefix (ip4Req [10, 0, 0, 0] 8 1))
              (.nexthop ⟨1, .encap⟩, 16, 1) := rfl
        rw [h1]
        exact (remove_ne h2).trans ((install_ne _ h2).trans (install_ne _ hx))

/-- Two halves of the address space with one route, and a prefix that comes and goes. -/
def mergedRun : List RouteOp :=
  [.add (ip4Req [0, 0, 0, 0] 1 1), .add (ip4Req [128, 0, 0, 0] 1 1),
    .add (ip4Req [10, 0, 0, 0] 8 2), .delete { ip4Req [10, 0, 0, 0] 8 1 with rtrReplacePlen := 1 },
    .delete { ip4Req [0, 0, 0, 0] 1 0 with rtrLabelFlags := 0 }]

/-- Every operation of `mergedRun` is proper, yet 200.0.0.1 loses its route: the first deletion
collapses the root to one leaf of length `1`, and the deletion of 0.0.0.0/1 then replaces that
leaf although 128.0.0.0/1 is still installed. -/
theorem report_mergedRun :
    Along smallEnv (Proper smallEnv 0 .inet) (fun _ => none) mergedRun ∧
    report smallEnv (mergedRun.foldl (stepTables smallEnv)
      (setMtrie (fun _ _ => none) 0 .inet (mtrieAllocVrf smallEnv))) 0
        (ip4Req [200, 0, 0, 1] 32 0) = some (0, .nexthop ⟨0, .discard⟩, 0xFFFFFF, 0) ∧
    bestRoute smallEnv (mergedRun.foldl (stepRoutes smallEnv) fun _ => none)
      (bits [200, 0, 0, 1]) = (1, .nexthop ⟨1, .encap⟩, 16, 1) := by
  refine ⟨⟨⟨rfl, rfl, ip4Req_masked _ rfl (by decide) (by decide)⟩,
    ⟨rfl, rfl, ip4Req_masked _ rfl (by decide) (by decide)⟩,
    ⟨rfl, rfl, ip4Req_masked _ rfl (by decide) (by decide)⟩, ?_, ?_, trivial⟩,
    by decide +kernel, by decide⟩
  · exact ⟨rfl, rfl, by decide, by decide, by decide, by decide, by decide⟩
  · exact ⟨rfl, rfl, by decide, by decide, by decide, by decide, by decide⟩

end Vrouter.Mtrie
