import Vrouter.Flow.Steps

/-! # Work for an earlier flow

A pending work item, and likewise a pending callback, carries the index of its flow and not the
generation.  `born` records when the flow of an entry was created, and `stamp` when an item was
scheduled.  An item keeps its flow as long as no other item gives the entry back before it:
`ReleasesAlone` says that the item which resets or evicts an entry is the last one pending for it.
Without that, a flow that is deleted and forced out is evicted first, and the work of the deletion
then resets the next flow in the entry. -/

namespace Vrouter.Flow

open Vrouter.Htable Vrouter.Lib Function

variable {env : Env} {s s' : FlowSys} {i j x : ℕ} {o : Oracle}

/-! ### Pending items -/

/-- What a pending item carries: the index of its flow, and when it was scheduled. -/
structure Pending where
  index : ℕ
  stamp : ℕ
  deriving DecidableEq

def FlowMd.pending (md : FlowMd) : Pending := ⟨md.flmdIndex, md.stamp⟩

def FlowDefer.pending (cb : FlowDefer) : Pending := ⟨cb.vfddFe, cb.stamp⟩

/-- The pending items of a flow table. -/
def FlowSys.pending (s : FlowSys) : List Pending :=
  s.works.map FlowMd.pending ++ s.cbs.map FlowDefer.pending

theorem pending_congr (hw : s'.works = s.works) (hc : s'.cbs = s.cbs) : s'.pending = s.pending := by
  unfold FlowSys.pending
  rw [hw, hc]

variable {l : List FlowMd} {p : Pending} {md : FlowMd} {c : Core} {needHold : Bool} {cb : FlowDefer}

theorem mem_pending_append (hw : s'.works = s.works ++ l) (hc : s'.cbs = s.cbs)
    (hp : p ∈ s'.pending) : p ∈ s.pending ∨ p ∈ l.map FlowMd.pending := by
  unfold FlowSys.pending at hp ⊢
  rw [hw, hc, List.map_append] at hp
  simp only [List.mem_append] at hp ⊢
  tauto

theorem mem_pending_of_subset (hp : p ∈ s'.pending) (hw : ∀ md ∈ s'.works, md ∈ s.works)
    (hc : ∀ cb ∈ s'.cbs, cb ∈ s.cbs) : p ∈ s.pending := by
  unfold FlowSys.pending at hp ⊢
  rw [List.mem_append] at hp ⊢
  rcases hp with hp | hp
  · obtain ⟨md, hmd, rfl⟩ := List.mem_map.1 hp
    exact .inl (List.mem_map_of_mem (hw md hmd))
  · obtain ⟨cb, hcb, rfl⟩ := List.mem_map.1 hp
    exact .inr (List.mem_map_of_mem (hc cb hcb))

theorem mem_pending_of_work (h : md ∈ s.works) : md.pending ∈ s.pending :=
  List.mem_append_left _ (List.mem_map_of_mem h)

theorem mem_pending_of_cb (h : cb ∈ s.cbs) : cb.pending ∈ s.pending :=
  List.mem_append_right _ (List.mem_map_of_mem h)

/-! ### The condition -/

/-- A work item that resets its flow by itself: a deletion for which no memory was left to defer. -/
def FlowMd.Resets (md : FlowMd) : Prop :=
  md.flmdDeferData.join.isNone = true ∧ md.flmdFlags.active = false

instance (md : FlowMd) : Decidable md.Resets := inferInstanceAs (Decidable (_ ∧ _))

/-- The entries that a callback gives back. -/
def released (env : Env) (s : FlowSys) (cb : FlowDefer) : List ℕ :=
  if cb.data.vfddDelete then [cb.vfddFe]
  else if cb.data.vfddEvictFlow then (evictTargets env s cb).filter fun j => Evictable s j
  else []

/-- **Releases.**  The work item or the callback that gives an entry back is the last one pending
for it.  A work item also finds its flow locked, as the request left it: the flush of an unlocked
flow may schedule the next item for it. -/
def ReleasesAlone (env : Env) (s : FlowSys) : FlowEvent → Prop
  | .work n _ => ∀ md ∈ s.works[n]?, md.Resets →
      (s.entry md.flmdIndex).feFlags.unlocked = false ∧
        ∀ p ∈ FlowSys.pending { s with works := s.works.eraseIdx n }, p.index ≠ md.flmdIndex
  | .callback n _ => ∀ cb ∈ s.cbs[n]?, ∀ j ∈ released env s cb,
      ∀ p ∈ FlowSys.pending { s with cbs := s.cbs.eraseIdx n }, p.index ≠ j
  | _ => True

instance (env : Env) (s : FlowSys) (ev : FlowEvent) : Decidable (ReleasesAlone env s ev) := by
  refine ev.casesOn ?_ ?_ ?_ ?_ ?_ ?_ ?_ ?_ ?_ <;> intros <;> unfold ReleasesAlone <;> infer_instance

/-! ### The invariant -/

/-- The entry of a pending item still holds a flow, one that is not later than the item. -/
structure Current (s : FlowSys) : Prop where
  clock : ∀ j, s.born j ≤ s.clock
  index : ∀ p ∈ s.pending, s.valid p.index = true ∧ s.born p.index ≤ p.stamp

/-- A change that creates no flow: the items left keep their flows, and new ones are for a flow and
stamped with the time. -/
theorem Current.kept (h : Current s) (hb : s'.born = s.born) (hc : s'.clock = s.clock)
    (hv : ∀ p ∈ s'.pending, s'.valid p.index = s.valid p.index)
    (hp : ∀ p ∈ s'.pending, p ∈ s.pending ∨ s.valid p.index = true ∧ p.stamp = s.clock) :
    Current s' := by
  refine ⟨fun j => by rw [hb, hc]; exact h.clock j, fun p hps => ?_⟩
  rw [hv p hps, hb]
  rcases hp p hps with hin | ⟨hvalid, hst⟩
  · exact h.index p hin
  · rw [hst]
    exact ⟨hvalid, h.clock _⟩

theorem scheduled_pending {out : SchedOutcome} {stamp : ℕ} {flags : FlowFlags} {evict : Bool}
    (h : Scheduled out i stamp flags evict l) (hp : p ∈ l.map FlowMd.pending) : p = ⟨i, stamp⟩ := by
  obtain ⟨d, -, rfl⟩ | ⟨rfl, -⟩ := h
  · rw [List.map_singleton, List.mem_singleton] at hp
    exact hp
  · cases hp

section

variable (h : Current s)
include h

theorem Current.of_subset (hb : s'.born = s.born) (hc : s'.clock = s.clock)
    (hv : ∀ j, s'.valid j = s.valid j) (hp : ∀ p ∈ s'.pending, p ∈ s.pending) : Current s' :=
  h.kept hb hc (fun p _ => hv p.index) fun p hps => .inl (hp p hps)

theorem Current.rewrites (hr : Rewrites env s i c l s')
    (hl : ∀ p ∈ l.map FlowMd.pending, p = ⟨i, s.clock⟩) (hi : s.valid i = true) : Current s' := by
  refine h.kept hr.born hr.clock (fun p _ => hr.valid _) fun p hp => ?_
  refine (mem_pending_append hr.works hr.cbs hp).imp id fun hpl => ?_
  rw [hl p hpl]
  exact ⟨hi, rfl⟩

/-- Giving back an entry that no pending item is for. -/
theorem Current.frees (hf : Frees env s i c s') (hi : ∀ p ∈ s.pending, p.index ≠ i) :
    Current s' := by
  have hpend := pending_congr hf.works hf.cbs
  refine h.kept hf.born hf.clock (fun p hp => ?_) fun p hp => .inl (hpend ▸ hp)
  rw [hf.valid, if_neg (hi p (hpend ▸ hp))]

/-- No pending item is for a free entry. -/
theorem Current.index_ne (hx : s.valid x = false) : ∀ p ∈ s.pending, p.index ≠ x := by
  rintro p hp rfl
  simp [(h.index p hp).1] at hx

theorem Current.created {key : FlowKey} (hc : Created env s key needHold x s') : Current s' := by
  have hpend := pending_congr hc.works hc.cbs
  refine ⟨fun j => ?_, fun p hp => ?_⟩
  · rw [hc.born, hc.clock]
    by_cases hjx : j = x
    · rw [hjx, update_self]
    · rw [update_of_ne hjx]
      exact (h.clock j).trans (by omega)
  · rw [hpend] at hp
    have hpx := h.index_ne hc.fresh p hp
    rw [hc.born, hc.valid, if_neg hpx, update_of_ne hpx]
    exact h.index p hp

theorem Current.marking {rev : Option ℕ} (hm : Marking env s i rev md s') : Current s' := by
  have hw : s'.works = s.works ++ [md] := by rw [hm.eq]
  refine h.kept hm.kept.born hm.kept.clock (fun p _ => hm.kept.valid _) fun p hp => ?_
  refine (mem_pending_append hw hm.kept.cbs hp).imp id fun hp => ?_
  rw [List.map_singleton, List.mem_singleton] at hp
  obtain ⟨flags, d, hmd, -⟩ := hm.item
  rw [hp, hmd]
  exact ⟨hm.valid, rfl⟩

theorem Current.eraseWork (n : ℕ) : Current { s with works := s.works.eraseIdx n } := by
  refine h.of_subset rfl rfl (fun _ => rfl) fun p hp => ?_
  exact mem_pending_of_subset hp (fun _ hm => List.mem_of_mem_eraseIdx hm) fun _ hc => hc

theorem Current.eraseCb (n : ℕ) : Current { s with cbs := s.cbs.eraseIdx n } := by
  refine h.of_subset rfl rfl (fun _ => rfl) fun p hp => ?_
  exact mem_pending_of_subset hp (fun _ hm => hm) fun _ hc => List.mem_of_mem_eraseIdx hc

theorem Current.enqueueFlow {pnode : Pnode} (env : Env) (hi : s.valid i = true) :
    Current (enqueueFlow o s i pnode) := by
  obtain ⟨-, he⟩ | ⟨q, t, -, hr, -, he⟩ := enqueueFlow_cases env o s i pnode
  · rw [he]; exact h
  · have ht : Current t := h.rewrites hr (fun p hp => absurd hp (by simp)) hi
    rw [he]
    exact ht.of_subset rfl rfl (fun _ => rfl) fun p hp => hp

end

/-! ### The end of a work item -/

/-- While a flow is locked, nothing is scheduled for it. -/
theorem Marks.locked (h : Marks env s s') (hu : (s.entry i).feFlags.unlocked = false) :
    (s'.entry i).feFlags.unlocked = false ∧
      ∃ l, s'.works = s.works ++ l ∧ ∀ md ∈ l, md.flmdIndex ≠ i := by
  induction h with
  | refl => exact ⟨hu, [], (List.append_nil _).symm, fun md hmd => absurd hmd List.not_mem_nil⟩
  | quiet _ hq ih =>
    obtain ⟨hu₁, l, hl, hne⟩ := ih
    rw [hq.flags, hq.works]
    exact ⟨hu₁, l, hl, hne⟩
  | @mark s₁ s₂ k rev md _ _ hm ih =>
    obtain ⟨hu₁, l, hl, hne⟩ := ih
    refine ⟨?_, l ++ [md], ?_, fun md' hmd' => ?_⟩
    · rw [hm.entry]
      split_ifs
      · simp [FlowEntry.mark, FlowFlags.unlocked]
      · exact hu₁
    · rw [hm.eq, hl, List.append_assoc]
    · rw [List.mem_append, List.mem_singleton] at hmd'
      rcases hmd' with hmd' | rfl
      · exact hne md' hmd'
      · obtain ⟨flags, d, hmd, -⟩ := hm.item
        rw [hmd]
        rintro rfl
        exact absurd hm.unlocked (by simp [hu₁])

theorem FlushStep.locked (h : FlushStep env s i s') (hu : (s.entry i).feFlags.unlocked = false) :
    ∃ l, s'.works = s.works ++ l ∧ ∀ md ∈ l, md.flmdIndex ≠ i := by
  cases h with
  | kept => exact ⟨[], (List.append_nil _).symm, fun md hmd => absurd hmd List.not_mem_nil⟩
  | @flushed q _ _ _ hm =>
    refine (hm.locked ?_).2
    rw [(detach_kept q i).2.2]
    exact hu

theorem FlushStep.cbs (h : FlushStep env s i s') : s'.cbs = s.cbs := by
  cases h with
  | kept => rfl
  | flushed _ _ hm => exact hm.kept.cbs

/-- Past its flush, a work item that resets its flow is still the last one pending for it. -/
theorem InWork.last {n : ℕ} (hw : InWork env (ReleasesAlone env) n o md s) (hr : md.Resets) :
    ∀ p ∈ FlowSys.pending { s with works := s.works.eraseIdx n }, p.index ≠ md.flmdIndex := by
  obtain ⟨s₀, hp, hn, hflush⟩ := hw.start
  obtain ⟨hu, hlast⟩ := hp md hn hr
  obtain ⟨l, hl, hne⟩ := hflush.locked hu
  have hlt : n < s₀.works.length := (List.getElem?_eq_some_iff.1 hn).1
  intro p hps
  rcases @mem_pending_append { s₀ with works := s₀.works.eraseIdx n }
    { s with works := s.works.eraseIdx n } l p
    (by dsimp only; rw [hl, List.eraseIdx_append_of_lt_length hlt]) hflush.cbs hps with hold | hnew
  · exact hlast p hold
  · obtain ⟨md', hmd', rfl⟩ := List.mem_map.1 hnew
    exact hne md' hmd'

theorem Current.undeferred {n : ℕ} {q : Option FlowQueue} (h : Current s) (hg : Good env s)
    (hw : InWork env (ReleasesAlone env) n o md s) (hd : md.flmdDeferData.join = none) :
    Current { flowDefer env o s md md.flmdIndex q with works := s.works.eraseIdx n } := by
  obtain ⟨s₁, -, h1, h2, h3, h4⟩ := flowDefer_none (o := o) (q := q) hg hw.valid hd
  obtain ⟨hkept, hworks⟩ : Kept s s₁ ∧ s₁.works = s.works := by
    cases hc : md.flmdFlags.evictCandidate with
    | false => rw [h2 hc]; exact ⟨(Quiet.refl env s).kept, rfl⟩
    | true => exact ⟨(h1 hc).kept, (h1 hc).works⟩
  -- the item is taken off the list before its flow is reset
  have hpend : FlowSys.pending { s₁ with works := s₁.works.eraseIdx n } =
      FlowSys.pending { s with works := s.works.eraseIdx n } :=
    pending_congr (by dsimp only; rw [hworks]) hkept.cbs
  have hi₁ : Current { s₁ with works := s₁.works.eraseIdx n } :=
    (h.eraseWork n).of_subset hkept.born hkept.clock hkept.valid fun p hp => hpend ▸ hp
  cases ha : md.flmdFlags.active with
  | true =>
    rw [h4 ha, ← hworks]
    exact hi₁
  | false =>
    have hf := h3 ha
    have hlast := hw.last ⟨by rw [hd]; rfl, ha⟩
    rw [← hpend] at hlast
    have hw₂ : (flowDefer env o s md md.flmdIndex q).works = s₁.works := hf.works
    have hp₂ : FlowSys.pending { flowDefer env o s md md.flmdIndex q with
        works := s.works.eraseIdx n } = FlowSys.pending { s₁ with works := s₁.works.eraseIdx n } :=
      pending_congr (by dsimp only; rw [hworks]) hf.cbs
    refine hi₁.kept hf.born hf.clock (fun p hp => ?_) fun p hp => .inl (hp₂ ▸ hp)
    exact (hf.valid _).trans (if_neg (hlast p (hp₂ ▸ hp)))

/-! ### The end of a callback -/

theorem mem_released_evict (hd : cb.data.vfddDelete = false) (he : cb.data.vfddEvictFlow = true)
    (hj : j ∈ evictTargets env s cb) (hev : Evictable s j) : j ∈ released env s cb := by
  unfold released
  rw [hd, he, if_neg (by simp), if_pos rfl, List.mem_filter]
  exact ⟨hj, decide_eq_true hev⟩

/-- A callback gives back none but the entries it releases. -/
theorem flowDeferFinish_released (hg : Good env s) (hcb : cb ∈ s.cbs) (hj : j ∉ released env s cb) :
    (flowDeferFinish env o s cb).valid j = s.valid j := by
  refine flowDeferFinish_keeps (I := fun t => t.valid j = s.valid j) hg hcb rfl
    (fun hd t _ hf => ?_) fun hd he k hk s₁ s₂ hi₁ _ _ hsame hev => ?_
  · rw [hf.valid, if_neg]
    rintro rfl
    exact hj (by simp [released, hd])
  · obtain ⟨-, rfl⟩ | ⟨her, hf⟩ := hev
    · exact hi₁
    · rw [hf.valid, if_neg, hi₁]
      rintro rfl
      exact hj (mem_released_evict hd he hk (hsame her).1)

theorem flowDeferFinish_clocks (hg : Good env s) (hcb : cb ∈ s.cbs) :
    (flowDeferFinish env o s cb).born = s.born ∧ (flowDeferFinish env o s cb).clock = s.clock ∧
      (flowDeferFinish env o s cb).works = s.works := by
  refine flowDeferFinish_keeps
    (I := fun t => t.born = s.born ∧ t.clock = s.clock ∧ t.works = s.works) hg hcb ⟨rfl, rfl, rfl⟩
    (fun _ _ _ hf => ⟨hf.born, hf.clock, hf.works⟩) fun _ _ _ _ _ _ hi₁ _ _ _ hev => ?_
  obtain ⟨-, rfl⟩ | ⟨-, hf⟩ := hev
  · exact hi₁
  · exact ⟨hf.born.trans hi₁.1, hf.clock.trans hi₁.2.1, hf.works.trans hi₁.2.2⟩

theorem Current.called {n : ℕ} (h : Current s) (hg : Good env s)
    (hp : ReleasesAlone env s (.callback n o)) (hn : s.cbs[n]? = some cb) :
    Current { flowDeferFinish env o s cb with cbs := s.cbs.eraseIdx n } := by
  have hmem := List.mem_of_getElem? hn
  obtain ⟨hborn, hclock, hworks⟩ := flowDeferFinish_clocks (o := o) hg hmem
  have hpend : FlowSys.pending { flowDeferFinish env o s cb with cbs := s.cbs.eraseIdx n } =
      FlowSys.pending { s with cbs := s.cbs.eraseIdx n } := pending_congr hworks rfl
  refine (h.eraseCb n).kept hborn hclock (fun p hps => ?_) fun p hps => .inl (hpend ▸ hps)
  exact flowDeferFinish_released hg hmem fun hrel => hp cb hn _ hrel p (hpend ▸ hps) rfl

theorem keeps_current (env : Env) : Keeps env (ReleasesAlone env) Current where
  quiet := fun _ hi hq => hi.of_subset hq.born hq.clock hq.valid
    fun p hp => by rwa [pending_congr hq.works hq.cbs] at hp
  offer := fun _ hi => hi.of_subset rfl rfl (fun _ => rfl) fun _ hp => hp
  created := fun _ hi _ _ _ hc => hi.created hc
  givenUp := fun _ hi hx hf => hi.frees hf (hi.index_ne hx)
  hold := fun _ hi hx _ _ _ _ hr _ => hi.rewrites hr (fun _ hp => absurd hp (by simp)) hx
  enqueue := fun _ hi hx _ _ _ => (hi.enqueueFlow env hx).of_subset rfl rfl (fun _ => rfl)
    fun _ hp => hp
  mark := fun _ hi _ hm => hi.marking hm
  markHbs := fun _ hi _ _ hm => hi.marking hm
  forced := fun _ hi _ hf => hi.rewrites hf.rewrites (fun _ hp => scheduled_pending hf.scheduled hp)
    (flowGetEntry_eq_some.1 hf.index).2.2
  deleted := fun _ hi _ hd => hi.rewrites hd.rewrites
    (fun _ hp => scheduled_pending hd.scheduled hp) (flowGetEntry_eq_some.1 hd.index).2.2
  set := fun _ hi _ hidx _ _ hs => hi.rewrites hs.rewrites
    (fun _ hp => scheduled_pending hs.scheduled hp) (flowGetEntry_eq_some.1 hidx).2.2
  added := fun _ _ hi _ _ _ hc hq hs => hi.rewrites hs.rewrites
    (fun _ hp => scheduled_pending hs.scheduled hp) (by rw [hq.valid, hc.valid, if_pos rfl])
  detach := fun _ hi _ _ _ _ => hi.of_subset rfl rfl (fun j => detach_valid _ j) fun _ hp => hp
  gone := fun _ hi _ _ => hi.eraseWork _
  deferred := by
    intro s n o md data q _ hi hw hd
    refine hi.of_subset rfl rfl (fun _ => rfl) fun p hp => ?_
    -- the callback stands for the item
    unfold FlowSys.pending at hp
    rw [List.map_append, List.map_singleton, ← List.append_assoc, List.mem_append,
      List.mem_singleton] at hp
    rcases hp with hp | rfl
    · exact @mem_pending_of_subset s { s with works := s.works.eraseIdx n } _ hp
        (fun _ hm => List.mem_of_mem_eraseIdx hm) fun _ hc => hc
    · exact mem_pending_of_work (List.mem_of_getElem? hw.item)
  undeferred := fun hg hi hw hd => hi.undeferred hg hw hd
  called := fun hg hi hp hn => hi.called hg hp hn

/-! ### What an item leaves alone -/

/-- The entry `j` keeps its flow and its hold queue. -/
def Untouched (s s' : FlowSys) (j : ℕ) : Prop :=
  s'.valid j = s.valid j ∧ (s'.entry j).feHoldList = (s.entry j).feHoldList

theorem Untouched.trans {s'' : FlowSys} (h : Untouched s s' j) (h' : Untouched s' s'' j) :
    Untouched s s'' j :=
  ⟨h'.1.trans h.1, h'.2.trans h.2⟩

theorem Frees.untouched (h : Frees env s i c s') (hj : j ≠ i) : Untouched s s' j := by
  refine ⟨?_, congrArg Core.holdList (h.others j hj)⟩
  rw [h.valid, if_neg hj]

theorem Evicts.untouched (h : Evicts env s i s') (hj : j ≠ i) : Untouched s s' j := by
  obtain ⟨-, rfl⟩ | ⟨-, hf⟩ := h
  · exact ⟨rfl, rfl⟩
  · exact hf.untouched hj

theorem FlushStep.untouched (h : FlushStep env s i s') (hj : j ≠ i) : Untouched s s' j := by
  cases h with
  | kept => exact ⟨rfl, rfl⟩
  | flushed _ _ hm =>
    refine ⟨(hm.kept.valid j).trans (detach_valid _ j), ?_⟩
    rw [hm.kept.holdList j, detach_entry_ne _ hj]

theorem FlushStep.good (h : FlushStep env s i s') (hg : Good env s) (hv : s.valid i = true) :
    Good env s' ∧ s'.valid i = true := by
  cases h with
  | kept => exact ⟨hg, hv⟩
  | flushed _ _ hm =>
    exact ⟨(hg.detach hv _).marks hm, (hm.kept.valid i).trans ((detach_valid _ i).trans hv)⟩

/-- A work item leaves every entry alone but that of its flow. -/
theorem flowWork_untouched (hg : Good env s) (h : flowWork env o s md = some s')
    (hj : j ≠ md.flmdIndex) : Untouched s s' j := by
  obtain ⟨-, rfl⟩ | ⟨s₁, q, hv, hfl, -, rfl⟩ := flowWork_cases hg h
  · exact ⟨rfl, rfl⟩
  refine (hfl.untouched hj).trans ?_
  obtain ⟨hg₁, hv₁⟩ := hfl.good hg hv
  cases hd : md.flmdDeferData.join with
  | some data =>
    unfold flowDefer
    rw [hd]
    exact ⟨rfl, rfl⟩
  | none =>
    exact flowDefer_keeps (I := fun t => Untouched s₁ t j) hg₁ hv₁ hd ⟨rfl, rfl⟩
      (fun _ hu => ⟨hu.valid j, hu.kept.holdList j⟩)
      fun _ _ _ hu _ hf => hu.trans (hf.untouched hj)

/-- A callback leaves every entry alone but that of its flow, and that of the reverse flow if it
evicts. -/
theorem flowDeferCb_untouched (hg : Good env s) (hm : cb ∈ s.cbs)
    (h : flowDeferCb env o s cb = some s') (hj : j ≠ cb.vfddFe)
    (hr : cb.data.vfddEvictFlow = true → flowGetEntry env s (s.entry cb.vfddFe).feRflow ≠ some j) :
    Untouched s s' j := by
  rw [flowDeferCb_eq hg hm h]
  refine flowDeferFinish_keeps (I := fun t => Untouched s t j) hg hm ⟨rfl, rfl⟩
    (fun _ _ _ hf => hf.untouched hj) fun _ hev k hk _ _ hu _ _ _ he => ?_
  refine hu.trans (he.untouched fun hjk => ?_)
  subst hjk
  exact (List.mem_cons.1 hk).elim hj fun hk => hr hev (Option.mem_toList.1 hk)

/-- The work item or the callback that a step runs. -/
def itemOf (s : FlowSys) : FlowEvent → Option Pending
  | .work n _ => s.works[n]?.map FlowMd.pending
  | .callback n _ => s.cbs[n]?.map FlowDefer.pending
  | _ => none

theorem itemOf_mem {ev : FlowEvent} (h : itemOf s ev = some p) : p ∈ s.pending := by
  cases ev with
  | work n o =>
    obtain ⟨md, hn, rfl⟩ := Option.map_eq_some_iff.1 h
    exact mem_pending_of_work (List.mem_of_getElem? hn)
  | callback n o =>
    obtain ⟨cb, hn, rfl⟩ := Option.map_eq_some_iff.1 h
    exact mem_pending_of_cb (List.mem_of_getElem? hn)
  | packet | hbsPacket | request | tableWork | tableDeferred | burstTimeout | setBurstParams =>
    cases h

/-- The reverse flow that a step evicts together with the flow of its item. -/
def evictsToo (env : Env) (s : FlowSys) : FlowEvent → Option ℕ
  | .callback n _ => s.cbs[n]?.bind fun cb =>
      if cb.data.vfddEvictFlow then flowGetEntry env s (s.entry cb.vfddFe).feRflow else none
  | _ => none

/-- A flow is deleted, the next one takes its entry, and is deleted in turn. -/
def takenAgainRun : List FlowEvent :=
  [.packet (tcpPacket 1 false) {}, .request (deleteReq 0 1 1) {}, .work 0 {}, .callback 0 {},
    .packet (tcpPacket 2 false) {}, .request (deleteReq 0 2 2) {}, .work 0 {}]

/-- A flow on hold is deleted and forced out; it is evicted first, and a new flow takes its entry
before the work of the deletion runs. -/
def reuseRun : List FlowEvent :=
  [.packet (tcpPacket 1 true) {}, .request (deleteReq 0 1 1) {}, .request (forceReq 0 1) {},
    .work 1 {}, .callback 0 {}, .packet (tcpPacket 2 false) {}, .work 0 {}]

end Vrouter.Flow
