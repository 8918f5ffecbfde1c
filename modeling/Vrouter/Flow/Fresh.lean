import Vrouter.Flow.Steps

/-! # New flows are usable

`vr_flow_table_get_free_entry` clears the flags of an entry that is not active, but keeps those of
an entry that was evicted.  A new flow is therefore usable as long as no flow is evicted that is
marked for deletion: `NoMarkedEviction`.  When a deletion is pending and the flow is forced out, the
callback of the eviction may come first; it leaves the mark of the deletion on the free entry, and
the next flow in that entry cannot be found.  No key has two flows. -/

namespace Vrouter.Flow

open Vrouter.Htable Vrouter.Lib

variable {env : Env} {s s' : FlowSys} {i x : ℕ} {o : Oracle} {c : Core} {needHold : Bool}

/-! ### Free entries -/

/-- The entries that are free at the end were free at the beginning, with the same core. -/
def FreeKept (s s' : FlowSys) : Prop :=
  ∀ j, s'.valid j = false → s.valid j = false ∧ (s'.entry j).core = (s.entry j).core

theorem Quiet.freeKept (h : Quiet env s s') : FreeKept s s' := fun j hj =>
  ⟨(h.valid j).symm.trans hj, h.core j⟩

theorem Rewrites.freeKept {l : List FlowMd} (h : Rewrites env s i c l s') (hv : s.valid i = true) :
    FreeKept s s' := by
  intro j hj
  rw [h.valid j] at hj
  exact ⟨hj, h.others j fun hji => by rw [hji, hv] at hj; simp at hj⟩

theorem Created.freeKept {key : FlowKey} (h : Created env s key needHold x s') :
    FreeKept s s' := by
  intro j hj
  rw [h.valid] at hj
  split_ifs at hj with hjx
  exact ⟨hj, h.others j hjx⟩

theorem Marking.freeKept {rev : Option ℕ} {md : FlowMd} (h : Marking env s i rev md s') :
    FreeKept s s' := by
  intro j hj
  rw [h.kept.valid j] at hj
  rw [h.entry j, if_neg fun hm => by simp [h.marked_valid hm] at hj]
  exact ⟨hj, rfl⟩

theorem detach_freeKept {q : FlowQueue} (hv : s.valid i = true) : FreeKept s (s.detach i q) := by
  intro j hj
  rw [detach_valid] at hj
  exact ⟨hj, by rw [detach_entry_ne q fun hji => by rw [hji, hv] at hj; simp at hj]⟩

theorem Unmarked.freeKept (h : Unmarked env s i s') (hv : s.valid i = true) : FreeKept s s' := by
  intro j hj
  rw [h.valid j] at hj
  rw [h.entry j, if_neg]
  · exact ⟨hj, rfl⟩
  · rintro (rfl | ⟨-, hr⟩)
    · rw [hv] at hj; simp at hj
    · rw [(flowGetEntry_eq_some.1 hr).2.2] at hj; simp at hj

theorem enqueueFlow_freeKept (env : Env) {pnode : Pnode} (hv : s.valid i = true) :
    FreeKept s (enqueueFlow o s i pnode) := by
  obtain ⟨-, h⟩ | ⟨q, t, -, hr, -, h⟩ := enqueueFlow_cases env o s i pnode
  · rw [h]
    exact fun j hj => ⟨hj, rfl⟩
  · rw [h]
    exact hr.freeKept hv

/-! ### Marks of deletion -/

/-- A free entry that keeps its flags is not marked for deletion. -/
def FreeUnmarked (s : FlowSys) : Prop :=
  ∀ i, s.valid i = false → (s.entry i).feFlags.active = true →
    (s.entry i).feFlags.deleteMarked = false

theorem FreeUnmarked.kept (h : FreeUnmarked s) (hk : FreeKept s s') : FreeUnmarked s' := by
  intro j hj ha
  obtain ⟨hv, hc⟩ := hk j hj
  have hf : (s'.entry j).feFlags = (s.entry j).feFlags := congrArg Core.flags hc
  rw [hf] at ha ⊢
  exact h j hv ha

theorem FreeUnmarked.frees (h : FreeUnmarked s) (hf : Frees env s i c s')
    (hc : c.flags.active = true → c.flags.deleteMarked = false) : FreeUnmarked s' := by
  intro j hj ha
  by_cases hji : j = i
  · subst hji
    have he : (s'.entry j).feFlags = c.flags := congrArg Core.flags hf.core
    rw [he] at ha ⊢
    exact hc ha
  · have he : (s'.entry j).feFlags = (s.entry j).feFlags := congrArg Core.flags (hf.others j hji)
    rw [hf.valid, if_neg hji] at hj
    rw [he] at ha ⊢
    exact h j hj ha

theorem FreeUnmarked.reset (h : FreeUnmarked s) (hf : Frees env s i (resetCore c) s') :
    FreeUnmarked s' :=
  h.frees hf fun ha => absurd ha (by simp [resetCore])

theorem FreeUnmarked.evicts (h : FreeUnmarked s) (he : Evicts env s i s')
    (hd : Evictable s i → (s.entry i).feFlags.deleteMarked = false) : FreeUnmarked s' := by
  obtain ⟨-, rfl⟩ | ⟨hev, hf⟩ := he
  · exact h
  · exact h.frees hf fun _ => hd hev

/-- No callback evicts a flow that is marked for deletion. -/
def NoMarkedEviction (env : Env) (s : FlowSys) : FlowEvent → Prop
  | .callback n _ => ∀ cb ∈ s.cbs[n]?, cb.data.vfddDelete = false → cb.data.vfddEvictFlow = true →
      ∀ i ∈ evictTargets env s cb, Evictable s i → (s.entry i).feFlags.deleteMarked = false
  | _ => True

instance (env : Env) (s : FlowSys) (ev : FlowEvent) : Decidable (NoMarkedEviction env s ev) := by
  refine ev.casesOn ?_ ?_ ?_ ?_ ?_ ?_ ?_ ?_ ?_ <;> intros <;> unfold NoMarkedEviction <;> infer_instance

theorem keeps_freeUnmarked (env : Env) : Keeps env (NoMarkedEviction env) FreeUnmarked where
  quiet := fun _ hi hq => hi.kept hq.freeKept
  offer := fun _ hi => hi
  created := fun _ hi _ _ _ hc => hi.kept hc.freeKept
  givenUp := fun _ hi _ hf => hi.reset hf
  hold := fun _ hi hv _ _ _ _ hr _ => hi.kept (hr.freeKept hv)
  enqueue := fun _ hi hv _ _ _ => hi.kept (enqueueFlow_freeKept env hv)
  mark := fun _ hi _ hm => hi.kept hm.freeKept
  markHbs := fun _ hi _ _ hm => hi.kept hm.freeKept
  forced := fun _ hi _ hf => hi.kept (hf.rewrites.freeKept (flowGetEntry_eq_some.1 hf.index).2.2)
  deleted := fun _ hi _ hd => hi.kept (hd.rewrites.freeKept (flowGetEntry_eq_some.1 hd.index).2.2)
  set := fun _ hi _ hidx _ _ hs => hi.kept (hs.rewrites.freeKept (flowGetEntry_eq_some.1 hidx).2.2)
  added := fun _ _ hi _ _ _ hc hq hs => hi.kept
    (hs.rewrites.freeKept (by rw [hq.valid, hc.valid, if_pos rfl]))
  detach := fun _ hi _ hv _ _ => hi.kept (detach_freeKept hv)
  gone := fun _ hi _ _ => hi
  deferred := fun _ hi _ _ => hi
  undeferred := fun hg hi hw hd => flowDefer_keeps (I := FreeUnmarked) hg hw.valid hd hi
    (fun _ hu => hi.kept (hu.freeKept hw.valid)) fun _ _ _ hi₁ _ hf => hi₁.reset hf
  called := fun hg hi hp hn => flowDeferFinish_keeps (I := FreeUnmarked) hg (List.mem_of_getElem? hn)
    hi (fun _ _ _ hf => hi.reset hf) fun hd he j hj _ _ hi₁ _ _ hsame hev =>
      hi₁.evicts hev fun her => by
        obtain ⟨hev', hcore⟩ := hsame her
        exact (congrArg (fun c : Core => c.flags.deleteMarked) hcore).trans (hp _ hn hd he j hj hev')

/-! ### Creation -/

/-- A flow that holds the key after a creation held it before, or is the new one. -/
theorem Created.holdsFlow {key key' : FlowKey} (h : Created env s key needHold x s') {j : ℕ}
    (hj : HoldsFlow env s' j key') : j = x ∨ HoldsFlow env s j key' := by
  by_cases hjx : j = x
  · exact .inl hjx
  obtain ⟨hlt, hv, hk⟩ := hj
  rw [h.valid, if_neg hjx] at hv
  have hget : ∀ e : FlowEntry, flowGetKey e =
      if e.core.flags.deleteMarked || !e.core.flags.active then none
      else some (e.core.key, e.core.keyLen) := fun _ => rfl
  rw [hget, h.others j hjx, ← hget] at hk
  exact .inr ⟨hlt, hv, hk⟩

/-- **A new flow is usable.**  In a run without evictions of flows marked for deletion, an entry
that `vr_flow_get_free_entry` hands out for a key that is not in the table carries none of the flags
of its previous life, and `vr_find_flow` finds it. -/
theorem newFlow_usable {key : FlowKey} {type : VpType} {needHold : Bool}
    (h : Reach (flowStep env) (NoMarkedEviction env) (FlowSys.init env) s)
    (hfind : findFlow env s key = some none)
    (hget : flowGetFreeEntry env o s key type needHold = (some i, s')) :
    (s'.entry i).feFlags.deleteMarked = false ∧ (s'.entry i).feFlags.evicted = false ∧
    (s'.entry i).feFlags.evictCandidate = false ∧ (s'.entry i).feFlags.modified = false ∧
    findFlow env s' key = some (some i) := by
  obtain ⟨hg, hi⟩ := (keeps_freeUnmarked env).run
    (fun j _ ha => absurd ha (by simp [init_entry])) h
  have hc := flowGetFreeEntry_created hg.placed hget
  obtain ⟨-, hact, hev, -, hmod, hcand⟩ := hc.core_new hg
  have hdm : (s'.entry i).feFlags.deleteMarked = false := by
    have hf : (s'.entry i).feFlags = (newCore (s.entry i).core i key needHold).flags :=
      congrArg Core.flags hc.core
    rw [hf]
    unfold newCore
    dsimp only
    split_ifs with h1 h2
    · exact hi i hc.fresh h1
    · exact hi i hc.fresh h1
    · rfl
  refine ⟨hdm, hev, hcand, hmod, ?_⟩
  -- the new entry holds the key, and no other entry does
  have hk : (s'.entry i).feKey = key := congrArg Core.key hc.core
  have hkl : (s'.entry i).feKeyLen = key.len := congrArg Core.keyLen hc.core
  have hnew : HoldsFlow env s' i key := by
    refine ⟨hc.lt, by rw [hc.valid, if_pos rfl], ?_⟩
    unfold flowGetKey
    rw [hdm, hact, hk, hkl]
    rfl
  obtain ⟨res, hres, h1, h2⟩ := findFlow_spec hc.placed key
  obtain ⟨res₀, hres₀, -, h2₀⟩ := findFlow_spec hg.placed key
  cases hres₀.symm.trans hfind
  cases res with
  | none => exact absurd hnew (h2 rfl i)
  | some j =>
    obtain rfl | hold := hc.holdsFlow (h1 j rfl)
    · exact hres
    · exact absurd hold (h2₀ rfl j)

/-- A flow is created, deleted, and its entry used again. -/
def recreateRun : List FlowEvent :=
  [.packet (tcpPacket 1 false) {}, .request (deleteReq 0 1 1) {}, .work 0 {}, .callback 0 {}]

theorem newFlow_usable_recreate :
    ∃ s s', runWhen (flowStep smallEnv) (NoMarkedEviction smallEnv) recreateRun
        (FlowSys.init smallEnv) = some s ∧
      flowGetFreeEntry smallEnv {} s (tcpKey 2) .ip true = (some 0, s') ∧
      findFlow smallEnv s' (tcpKey 2) = some (some 0) := by
  have hrun : ((runWhen (flowStep smallEnv) (NoMarkedEviction smallEnv) recreateRun
      (FlowSys.init smallEnv)).map fun s => (findFlow smallEnv s (tcpKey 2),
        (flowGetFreeEntry smallEnv {} s (tcpKey 2) .ip true).1)) = some (some none, some 0) := by
    decide +kernel
  obtain ⟨s, hs, hv⟩ := Option.map_eq_some_iff.1 hrun
  obtain ⟨hfind, hget⟩ := Prod.mk.inj hv
  have hget' : flowGetFreeEntry smallEnv {} s (tcpKey 2) .ip true =
      (some 0, (flowGetFreeEntry smallEnv {} s (tcpKey 2) .ip true).2) := Prod.ext hget rfl
  exact ⟨s, _, hs, hget', (newFlow_usable (Reach.of_runWhen .init hs) hfind hget').2.2.2.2⟩

/-- A connection is closed while its flow is on hold; the flow is deleted and forced out, and the
callback of the eviction comes first. -/
def evictDeletedRun : List FlowEvent :=
  [.packet (tcpPacket 1 true) {}, .request (deleteReq 0 1 1) {}, .request (forceReq 0 1) {},
    .work 1 {}, .callback 0 {}]

/-- The next flow in that entry is marked for deletion, and is not found. -/
theorem newFlow_unusable :
    ∃ s s', runWhen (flowStep smallEnv) (fun _ _ => True) evictDeletedRun
        (FlowSys.init smallEnv) = some s ∧
      findFlow smallEnv s (tcpKey 2) = some none ∧
      flowGetFreeEntry smallEnv {} s (tcpKey 2) .ip true = (some 0, s') ∧
      (s'.entry 0).feFlags.deleteMarked = true ∧ findFlow smallEnv s' (tcpKey 2) = some none := by
  obtain ⟨s, hs, hfind, hget, hdm, hfind'⟩ : ∃ s, runWhen (flowStep smallEnv) (fun _ _ => True)
      evictDeletedRun (FlowSys.init smallEnv) = some s ∧
      findFlow smallEnv s (tcpKey 2) = some none ∧
      (flowGetFreeEntry smallEnv {} s (tcpKey 2) .ip true).1 = some 0 ∧
      ((flowGetFreeEntry smallEnv {} s (tcpKey 2) .ip true).2.entry 0).feFlags.deleteMarked = true ∧
      findFlow smallEnv (flowGetFreeEntry smallEnv {} s (tcpKey 2) .ip true).2 (tcpKey 2) =
        some none := exists_of_decide (by decide +kernel)
  exact ⟨s, _, hs, hfind, Prod.ext hget rfl, hdm, hfind'⟩

/-! ### One flow for a key -/

/-- What `flowGetKey` says of an entry. -/
def Core.liveKey (c : Core) : Option (FlowKey × ℕ) :=
  if c.flags.deleteMarked || !c.flags.active then none else some (c.key, c.keyLen)

/-- The entry can be found under the key. -/
def FlowSys.LiveAt (s : FlowSys) (j : ℕ) (k : FlowKey × ℕ) : Prop :=
  s.valid j = true ∧ (s.entry j).core.liveKey = some k

def UniqueKeys (s : FlowSys) : Prop := ∀ i j k, s.LiveAt i k → s.LiveAt j k → i = j

theorem UniqueKeys.same (h : UniqueKeys s) (hv : ∀ j, s'.valid j = s.valid j)
    (hk : ∀ j, (s'.entry j).core.liveKey = (s.entry j).core.liveKey) : UniqueKeys s' :=
  fun i j k hi hj => h i j k ⟨hv i ▸ hi.1, hk i ▸ hi.2⟩ ⟨hv j ▸ hj.1, hk j ▸ hj.2⟩

/-- The key of the changed entry, if it has one, must be new to the others. -/
theorem UniqueKeys.changes {l : List FlowMd} (h : UniqueKeys s) (hc : Changes s i c l s')
    (hi : s'.valid i = true → ∀ k, c.liveKey = some k → ∀ j, s.LiveAt j k → j = i) :
    UniqueKeys s' := by
  intro a b k ha hb
  have hkey : ∀ x, s'.LiveAt x k → x = i ∨ s.LiveAt x k := fun x hx =>
    (eq_or_ne x i).imp id fun hne => ⟨hc.valid x hne ▸ hx.1, hc.others x hne ▸ hx.2⟩
  have hnew : s'.LiveAt i k → ∀ j, s.LiveAt j k → j = i := fun hl => hi hl.1 k (hc.core ▸ hl.2)
  rcases hkey a ha with rfl | ha' <;> rcases hkey b hb with rfl | hb'
  · rfl
  · exact (hnew ha b hb').symm
  · exact hnew hb a ha'
  · exact h a b k ha' hb'

theorem UniqueKeys.rewrites {l : List FlowMd} (h : UniqueKeys s) (hr : Rewrites env s i c l s')
    (hc : s.valid i = true → c.liveKey = none ∨ c.liveKey = (s.entry i).core.liveKey) :
    UniqueKeys s' := by
  refine h.changes hr.changes fun hv k hk j hj => h j i k hj ?_
  rw [hr.valid] at hv
  rcases hc hv with hn | he
  · simp [hn] at hk
  · exact ⟨hv, he ▸ hk⟩

theorem UniqueKeys.frees (h : UniqueKeys s) (hf : Frees env s i c s') : UniqueKeys s' :=
  h.changes hf.changes fun hv => absurd hv (by simp [hf.valid])

theorem findFlow_none {key : FlowKey} (hg : Good env s) (hf : findFlow env s key = some none) (j : ℕ) :
    ¬ HoldsFlow env s j key := by
  obtain ⟨res, hres, -, h2⟩ := findFlow_spec hg.placed key
  exact h2 (Option.some.inj (hres.symm.trans hf)) j

theorem Core.liveKey_eq {k : FlowKey × ℕ} (h : c.liveKey = some k) : k = (c.key, c.keyLen) := by
  unfold liveKey at h
  split_ifs at h
  exact (Option.some.inj h).symm

theorem keeps_uniqueKeys (env : Env) : Keeps env (fun _ _ => True) UniqueKeys where
  quiet := fun _ hi hq => hi.same hq.valid fun j => congrArg _ (hq.core j)
  offer := fun _ hi => hi
  created := by
    intro s s' ev key needHold x hg hi _ _ hf hc
    refine hi.changes hc.changes fun _ k hk j hj => ?_
    rw [Core.liveKey_eq hk] at hj
    exact absurd ⟨hg.lt j hj.1, hj⟩ (findFlow_none hg hf j)
  givenUp := fun _ hi _ hf => hi.frees hf
  hold := fun _ hi _ _ _ _ _ hr _ => hi.rewrites hr fun _ => .inr rfl
  enqueue := by
    intro s i vif o _ hi _ _ _ _
    obtain ⟨-, h⟩ | ⟨q, t, -, hr, -, h⟩ := enqueueFlow_cases env o s i ⟨s.offered, vif⟩
    · rw [h]
      exact hi
    · have ht : UniqueKeys t := hi.rewrites hr fun _ => .inr (by
        obtain ⟨b, hb⟩ := enqueueCore_flags o (s.entry i).core q ⟨s.offered, vif⟩
        rw [Core.liveKey, hb]
        rfl)
      rw [h]
      exact ht
  mark := fun _ hi _ hm => hi.same hm.kept.valid fun j => by rw [hm.entry]; split_ifs <;> rfl
  markHbs := fun _ hi _ _ hm => hi.same hm.kept.valid fun j => by rw [hm.entry]; split_ifs <;> rfl
  forced := fun _ hi _ hf => hi.rewrites hf.rewrites fun _ => .inr rfl
  deleted := fun _ hi _ hd => hi.rewrites hd.rewrites fun _ => .inl rfl
  set := by
    intro s s' req o i rindex l hg hi _ _ _ hd hs
    refine hi.rewrites hs.rewrites fun hv => ?_
    have hlive : (s.entry i).core.liveKey = some ((s.entry i).feKey, (s.entry i).feKeyLen) := by
      simp [Core.liveKey, FlowEntry.core, hd, (hg.live i hv).1]
    rw [hlive, Core.liveKey]
    exact ite_eq_or_eq _ _ _
  added := by
    intro s₀ s₁ s s' req o needHold x rindex l hg₀ hg hi _ _ hf hc hq hs
    refine hi.changes hs.rewrites.changes fun _ k hk j hj => ?_
    have hk' : k = (req.frKey, req.frKey.len) := (Core.liveKey_eq hk).trans
      (congrArg (fun c : Core => (c.key, c.keyLen)) ((hq.core x).trans hc.core))
    have hj' : HoldsFlow env s₁ j req.frKey :=
      ⟨hg.lt j hj.1, hq.valid j ▸ hj.1, (congrArg Core.liveKey (hq.core j)).symm.trans (hk' ▸ hj.2)⟩
    exact (hc.holdsFlow hj').resolve_right (findFlow_none hg₀ hf j)
  detach := by
    intro s n md q _ hi _ _ _ _
    refine hi.same (detach_valid q) fun j => ?_
    by_cases hj : j = md.flmdIndex
    · rw [hj, detach_entry_same]
      rfl
    · rw [detach_entry_ne q hj]
  gone := fun _ hi _ _ => hi
  deferred := fun _ hi _ _ => hi
  undeferred := fun hg hi hw hd => flowDefer_keeps (I := UniqueKeys) hg hw.valid hd hi
    (fun _ hu => hi.same hu.valid fun j => by rw [hu.entry]; split_ifs <;> rfl)
    fun _ _ _ hi₁ _ hf => hi₁.frees hf
  called := fun hg hi _ hn => flowDeferFinish_keeps (I := UniqueKeys) hg (List.mem_of_getElem? hn)
    hi (fun _ _ _ hf => hi.frees hf) fun _ _ _ _ _ _ hi₁ _ _ _ hev =>
      hev.elim (fun h => h.2 ▸ hi₁) fun h => hi₁.frees h.2

/-- **A key has one flow.**  In every run, `vr_find_flow` finds the flow with the key, and no other. -/
theorem findFlow_exact {key : FlowKey}
    (h : Reach (flowStep env) (fun _ _ => True) (FlowSys.init env) s) :
    findFlow env s key = some (some i) ↔ HoldsFlow env s i key := by
  obtain ⟨hg, hu⟩ := (keeps_uniqueKeys env).run (fun i _ _ hi => absurd hi.1 (by simp [init_valid])) h
  refine ⟨findFlow_some hg, fun hi => ?_⟩
  obtain ⟨res, hres, h1, h2⟩ := findFlow_spec hg.placed key
  cases res with
  | none => exact absurd hi (h2 rfl i)
  | some j => rw [hres, hu i j _ hi.2 (h1 j rfl).2]

/-- Two flows are created and set, the first is deleted, and a third one takes its entry. -/
def newcomerRun : List FlowEvent :=
  [.packet (tcpPacket 1 false) {}, .request (setReq 0 1 1 .forward) {}, .work 0 {},
    .packet (tcpPacket 2 false) {}, .request (setReq 1 1 2 .forward) {}, .work 0 {},
    .request (deleteReq 0 1 1) {}, .work 0 {}, .packet (tcpPacket 3 false) {}]

theorem findFlow_exact_created :
    ∃ s, runWhen (flowStep smallEnv) (fun _ _ => True) newcomerRun (FlowSys.init smallEnv) = some s ∧
      HoldsFlow smallEnv s 0 (tcpKey 3) ∧ HoldsFlow smallEnv s 1 (tcpKey 2) ∧
      ∀ i, ¬ HoldsFlow smallEnv s i (tcpKey 1) := by
  obtain ⟨s, hs, hthird, hsecond, hfirst⟩ : ∃ s, runWhen (flowStep smallEnv) (fun _ _ => True)
      newcomerRun (FlowSys.init smallEnv) = some s ∧
      findFlow smallEnv s (tcpKey 3) = some (some 0) ∧
      findFlow smallEnv s (tcpKey 2) = some (some 1) ∧
      findFlow smallEnv s (tcpKey 1) = some none := exists_of_decide (by decide +kernel)
  have hrun := Reach.of_runWhen .init hs
  refine ⟨s, hs, (findFlow_exact hrun).mp hthird, (findFlow_exact hrun).mp hsecond, fun i hi => ?_⟩
  exact absurd (hfirst.symm.trans ((findFlow_exact hrun).mpr hi)) (by simp)

end Vrouter.Flow
