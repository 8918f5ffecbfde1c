import Mathlib.Algebra.BigOperators.Fin
import Mathlib.Algebra.Order.BigOperators.Group.Finset
import Mathlib.Algebra.Order.Group.Multiset
import Mathlib.Tactic.FinCases
import Vrouter.Flow.Steps
import Vrouter.Lib.Sum

/-! # Held packets

A packet that `vr_enqueue_flow` keeps is in the hold queue of its flow until a work item for the
flow takes it out.  `Conserved` is the balance: the packets that were kept are those that were
taken out and those in the queues of the entries.  It is broken when an entry is given back with
packets in its queue.  `Tended` says where packets can be: in the queue of a flow on hold that is
not going to be evicted, or of a flow that has a work item pending, and `NoLoss` rules out the steps
that break it.

Without the condition a flow on hold that a reset closed can be forced out; its work item leaves the
queue alone, since the flow is on hold, and the callback then drops the queue with its packets. -/

namespace Vrouter.Flow

open Vrouter.Htable Vrouter.Lib Function

variable {env : Env} {s s' : FlowSys} {i j x : ℕ} {o : Oracle} {req : FlowReq}

/-! ### The packets in the queues -/

def queuePackets : Option FlowQueue → List ℕ
  | none => []
  | some q => q.packets

/-- The packets in the hold queue of an entry. -/
def FlowSys.held (s : FlowSys) (i : ℕ) : List ℕ := queuePackets (s.entry i).feHoldList

variable {c : Core} {q : FlowQueue} {l : List FlowMd} {md : FlowMd} {p stamp n : ℕ}
  {out : SchedOutcome} {needHold evict : Bool} {rindex : ℤ} {t : FlowSys}

theorem held_of_core (h : (s.entry i).core = c) : s.held i = queuePackets c.holdList := by
  rw [← h]
  rfl

theorem held_congr (h : (s'.entry i).core = (s.entry i).core) : s'.held i = s.held i :=
  (held_of_core h).trans (held_of_core rfl).symm

theorem Good.held_of_not_valid (hg : Good env s) (hv : s.valid i = false) : s.held i = [] := by
  rw [held_of_core rfl, (hg.blank i hv).holdList]
  rfl

theorem FlowQueue.packets_eq_nil (h : ∀ k, q.vfqPnodes k = none) : q.packets = [] := by
  unfold packets packetsAt
  rw [List.filterMap_eq_nil_iff]
  intro k _
  rw [h k]
  rfl

/-- The packet in a slot, as a multiset of at most one element. -/
def slotPacket (pnode : Option Pnode) : Multiset ℕ := (pnode.map Pnode.plPacket).toList

theorem FlowQueue.packets_coe (q : FlowQueue) :
    (q.packets : Multiset ℕ) = ∑ k, slotPacket (q.vfqPnodes k) := by
  have hfr : List.finRange 3 = [0, 1, 2] := by decide
  unfold packets packetsAt slotPacket
  rw [hfr, Fin.sum_univ_three, Multiset.coe_add, Multiset.coe_add]
  simp only [List.filterMap_cons, List.filterMap_nil]
  cases q.vfqPnodes 0 <;> cases q.vfqPnodes 1 <;> cases q.vfqPnodes 2 <;> rfl

theorem packets_update {k : Fin 3} (hk : q.vfqPnodes k = none) (pnode : Option Pnode) (n : ℕ) :
    ((FlowQueue.packets ⟨q.vfqIndex, n, update q.vfqPnodes k pnode⟩ : List ℕ) :
      Multiset ℕ) = (q.packets : Multiset ℕ) + slotPacket pnode := by
  rw [FlowQueue.packets_coe, FlowQueue.packets_coe, Fin.sum_univ_three, Fin.sum_univ_three]
  have h0 : slotPacket none = 0 := rfl
  fin_cases k
  all_goals
    simp only [Fin.zero_eta, Fin.mk_one, Fin.reduceFinMk] at hk ⊢
    simp only [hk, h0, update_self, ne_eq, Fin.reduceEq, not_false_eq_true,
      update_of_ne]
    abel

theorem FlowQueue.packets_put (hs : ∀ k : Fin 3, q.vfqEntries ≤ k →
    q.vfqPnodes k = none) (pnode : Option Pnode) (hlt : q.vfqEntries < 3) :
    ((q.put pnode).packets : Multiset ℕ) =
      (q.packets : Multiset ℕ) + slotPacket pnode := by
  unfold put
  rw [dif_pos (show q.vfqEntries < vrMaxFlowQueueEntries from hlt)]
  exact packets_update (hs ⟨q.vfqEntries, hlt⟩ le_rfl) pnode _

theorem FlowQueue.packets_put_full (pnode : Option Pnode) (h : 3 ≤ q.vfqEntries) :
    (q.put pnode).packets = q.packets := by
  unfold put
  rw [dif_neg (show ¬ q.vfqEntries < vrMaxFlowQueueEntries from Nat.not_lt.2 h)]
  rfl

/-! ### The balance -/

/-- The packets that were kept are those that were taken out and those in the queues. -/
structure Conserved (env : Env) (s : FlowSys) : Prop where
  fresh : ∀ p ∈ s.accepted, p < s.offered
  nodup : s.accepted.Nodup
  balance : (s.accepted : Multiset ℕ) =
    (s.done : Multiset ℕ) + ∑ i ∈ Finset.range env.g.total, (s.held i : Multiset ℕ)

theorem sum_held_change (s s' : FlowSys) (hi : i < env.g.total)
    (hh : ∀ j, j ≠ i → s'.held j = s.held j) :
    (∑ j ∈ Finset.range env.g.total, (s'.held j : Multiset ℕ)) + (s.held i : Multiset ℕ) =
      (∑ j ∈ Finset.range env.g.total, (s.held j : Multiset ℕ)) + (s'.held i : Multiset ℕ) :=
  sum_change (fun j => (s.held j : Multiset ℕ)) (fun j => (s'.held j : Multiset ℕ))
    (Finset.mem_range.2 hi) fun j hj => congrArg _ (hh j hj)

theorem Conserved.same (h : Conserved env s) (ha : s'.accepted = s.accepted)
    (hd : s'.done = s.done) (ho : s.offered ≤ s'.offered) (hh : ∀ i, s'.held i = s.held i) :
    Conserved env s' where
  fresh := fun p hp => by
    rw [ha] at hp
    exact lt_of_lt_of_le (h.fresh p hp) ho
  nodup := by rw [ha]; exact h.nodup
  balance := by
    rw [ha, hd, h.balance]
    simp only [hh]

theorem Conserved.detach (h : Conserved env s) (hi : i < env.g.total)
    (hq : (s.entry i).feHoldList = some q) : Conserved env (s.detach i q) where
  fresh := h.fresh
  nodup := h.nodup
  balance := by
    have hheld : s.held i = q.packets := by rw [FlowSys.held, hq]; rfl
    have hnone : (s.detach i q).held i = [] := by rw [FlowSys.held, detach_entry_same]; rfl
    have hsum := sum_held_change s (s.detach i q) hi
      fun j hj => by rw [FlowSys.held, detach_entry_ne q hj]; rfl
    rw [hheld, hnone, Multiset.coe_nil, add_zero] at hsum
    have hdone : (((s.detach i q).done : List ℕ) : Multiset ℕ) =
        (s.done : Multiset ℕ) + (q.packets : Multiset ℕ) := (Multiset.coe_add _ _).symm
    rw [hdone, add_assoc, add_comm (q.packets : Multiset ℕ), hsum]
    exact h.balance

theorem Conserved.enqueue (h : Conserved env s) (hi : i < env.g.total) {vif : ℕ}
    (hq : (s.entry i).feHoldList = some q)
    (hs : ∀ k : Fin 3, q.vfqEntries ≤ k → q.vfqPnodes k = none)
    (hr : Rewrites env s i (enqueueCore o (s.entry i).core q ⟨s.offered, vif⟩) [] t) :
    Conserved env { t with
      accepted := if queueKeeps o q then s.accepted ++ [s.offered] else s.accepted
      offered := s.offered + 1 } := by
  have hheld : s.held i = q.packets := by rw [FlowSys.held, hq]; rfl
  have hnew : ((t.held i : List ℕ) : Multiset ℕ) = (s.held i : Multiset ℕ) +
      (if queueKeeps o q then [s.offered] else [] : List ℕ) := by
    have hc : t.held i = (q.put (if queueKeeps o q then some ⟨s.offered, vif⟩ else none)).packets :=
      held_of_core hr.core
    rw [hc, hheld]
    by_cases hlt : q.vfqEntries < 3
    · rw [FlowQueue.packets_put hs _ hlt]
      split_ifs <;> rfl
    · rw [FlowQueue.packets_put_full _ (by omega), if_neg]
      · rw [Multiset.coe_nil, add_zero]
      · unfold queueKeeps vrMaxFlowQueueEntries
        simp [hlt]
  have hsum := sum_held_change s _ hi fun j hj => held_congr (hr.others j hj)
  rw [hnew, ← add_assoc, add_right_comm] at hsum
  have hsum' := add_right_cancel hsum
  refine ⟨fun p hp => ?_, ?_, ?_⟩
  · change p < s.offered + 1
    change p ∈ (if queueKeeps o q then s.accepted ++ [s.offered] else s.accepted) at hp
    split_ifs at hp
    · rcases List.mem_append.1 hp with hp | hp
      · exact (h.fresh p hp).trans (Nat.lt_succ_self _)
      · rw [List.mem_singleton.1 hp]
        exact Nat.lt_succ_self _
    · exact (h.fresh p hp).trans (Nat.lt_succ_self _)
  · change (if queueKeeps o q then s.accepted ++ [s.offered] else s.accepted).Nodup
    split_ifs
    · refine List.nodup_append.2 ⟨h.nodup, List.nodup_singleton _, fun a ha b hb => ?_⟩
      rw [List.mem_singleton.1 hb]
      exact (h.fresh a ha).ne
    · exact h.nodup
  · change (((if queueKeeps o q then s.accepted ++ [s.offered] else s.accepted) : List ℕ) :
      Multiset ℕ) = (t.done : Multiset ℕ) + ∑ j ∈ Finset.range env.g.total, (t.held j : Multiset ℕ)
    rw [hsum', hr.done, ← add_assoc, ← h.balance]
    split_ifs
    · rw [Multiset.coe_add]
    · rw [Multiset.coe_nil, add_zero]

/-! ### Where packets can be -/

/-- A deletion of the flow `i` is pending. -/
def DeletePending (s : FlowSys) (i : ℕ) : Prop :=
  (∃ md ∈ s.works, md.flmdFlags.active = false ∧ md.flmdIndex = i) ∨
  ∃ cb ∈ s.cbs, cb.data.vfddDelete = true ∧ cb.vfddFe = i

instance (s : FlowSys) (i : ℕ) : Decidable (DeletePending s i) :=
  inferInstanceAs (Decidable ((∃ md ∈ s.works, _) ∨ ∃ cb ∈ s.cbs, _))

/-- The flow is marked for deletion, and its packets are dropped. -/
def BeingDeleted (c : Core) : Prop :=
  c.flags.deleteMarked = true ∧ c.action = .drop ∧ c.flags.newFlow = false

/-- The deferred data of an item deletes when the item does. -/
def FlowMd.Shaped (md : FlowMd) : Prop :=
  ∀ data, md.flmdDeferData.join = some data → data.vfddDelete = !md.flmdFlags.active

/-- The slots of a queue are used in order. -/
def SlotsInOrder (l : Option FlowQueue) : Prop :=
  ∀ q, l = some q → ∀ k : Fin 3, q.vfqEntries ≤ k → q.vfqPnodes k = none

theorem SlotsInOrder.put (h : SlotsInOrder (some q)) (hfull : q.vfqEntries < 2 ^ 32 - 1)
    (pnode : Option Pnode) : SlotsInOrder (some (q.put pnode)) := by
  intro q' hq' k hk
  rw [← Option.some.inj hq'] at hk ⊢
  unfold FlowQueue.put at hk ⊢
  dsimp only at hk ⊢
  rw [Nat.mod_eq_of_lt (by omega)] at hk
  have hnone := h q rfl k (by omega)
  split_ifs with hlt
  · rw [update_of_ne, hnone]
    intro hkq
    have : (k : ℕ) = q.vfqEntries := congrArg Fin.val hkq
    omega
  · exact hnone

/-- **Tended queues.**  Packets are in the queue of a flow on hold that is not to be evicted, or of
one for which a work item is pending. -/
structure Tended (s : FlowSys) : Prop where
  shaped : ∀ md ∈ s.works, md.Shaped
  deleting : ∀ i, DeletePending s i → s.valid i = true → BeingDeleted (s.entry i).core
  emptied : ∀ cb ∈ s.cbs, cb.data.vfddDelete = true → s.held cb.vfddFe = []
  cand : ∀ i, (s.entry i).feFlags.evictCandidate = true → (s.entry i).feAction = .hold →
    s.held i = []
  waiting : ∀ i, s.held i ≠ [] → (s.entry i).feAction ≠ .hold → ∃ md ∈ s.works, md.flmdIndex = i
  slots : ∀ i, SlotsInOrder (s.entry i).feHoldList

theorem deletePending_append (hw : s'.works = s.works ++ l) (hc : s'.cbs = s.cbs)
    (h : DeletePending s' i) :
    DeletePending s i ∨ ∃ md ∈ l, md.flmdFlags.active = false ∧ md.flmdIndex = i := by
  unfold DeletePending at h ⊢
  rw [hw, hc] at h
  rcases h with ⟨md, hmd, hd⟩ | h
  · rcases List.mem_append.1 hmd with hmd | hmd
    · exact .inl (.inl ⟨md, hmd, hd⟩)
    · exact .inr ⟨md, hmd, hd⟩
  · exact .inl (.inr h)

theorem deletePending_subset (h : DeletePending s' i) (hw : ∀ md ∈ s'.works, md ∈ s.works)
    (hc : ∀ cb ∈ s'.cbs, cb ∈ s.cbs) : DeletePending s i := by
  rcases h with ⟨md, hmd, hd⟩ | ⟨cb, hcb, hd⟩
  · exact .inl ⟨md, hw md hmd, hd⟩
  · exact .inr ⟨cb, hc cb hcb, hd⟩

/-- The items that a request schedules: their shape, and which of them delete. -/
theorem Scheduled.items {flags : FlowFlags} (h : Scheduled out i stamp flags evict l) :
    ∀ md ∈ l, (md.Shaped ∧ md.flmdIndex = i) ∧ md.flmdFlags = flags := by
  intro md hmd
  obtain ⟨d, hd, rfl⟩ | ⟨rfl, -⟩ := h
  · rw [List.mem_singleton.1 hmd]
    exact ⟨⟨fun data hdata => (hd.data hdata).1, rfl⟩, rfl⟩
  · cases hmd

theorem Tended.changes (h : Tended s) (hr : Changes s i c l s')
    (hl : ∀ md ∈ l, md.Shaped ∧ md.flmdIndex = i)
    (hdel : s'.valid i = true → DeletePending s i ∨ (∃ md ∈ l, md.flmdFlags.active = false) →
      BeingDeleted c)
    (hemp : DeletePending s i → queuePackets c.holdList = [] ∨ queuePackets c.holdList = s.held i)
    (hcand : c.flags.evictCandidate = true → c.action = .hold → queuePackets c.holdList = [])
    (hwait : queuePackets c.holdList ≠ [] → c.action ≠ .hold →
      ∃ md ∈ s.works ++ l, md.flmdIndex = i) (hslots : SlotsInOrder c.holdList) : Tended s' := by
  refine ⟨fun md hmd => ?_, ?_, fun cb hcb hd => ?_, ?_, ?_, ?_⟩
  · rw [hr.works] at hmd
    rcases List.mem_append.1 hmd with hmd | hmd
    · exact h.shaped md hmd
    · exact (hl md hmd).1
  · refine hr.core_induction (Q := fun j c => DeletePending s' j → s'.valid j = true →
      BeingDeleted c) (fun hj hv => ?_) fun j hji hj hv => ?_
    · refine hdel hv ((deletePending_append hr.works hr.cbs hj).imp id ?_)
      exact fun ⟨md, hmd, hm, _⟩ => ⟨md, hmd, hm⟩
    · rw [hr.valid j hji] at hv
      refine h.deleting j ((deletePending_append hr.works hr.cbs hj).resolve_right ?_) hv
      rintro ⟨md, hmd, -, hidx⟩
      exact hji (hidx.symm.trans (hl md hmd).2)
  · rw [hr.cbs] at hcb
    by_cases hji : cb.vfddFe = i
    · rw [hji, held_of_core hr.core]
      rcases hemp (.inr ⟨cb, hcb, hd, hji⟩) with h1 | h1
      · exact h1
      · rw [h1, ← hji]
        exact h.emptied cb hcb hd
    · rw [held_congr (hr.others _ hji)]
      exact h.emptied cb hcb hd
  · exact hr.core_induction (Q := fun _ c => c.flags.evictCandidate = true → c.action = .hold →
      queuePackets c.holdList = []) hcand fun j _ => h.cand j
  · rw [hr.works]
    refine hr.core_induction (Q := fun j c => queuePackets c.holdList ≠ [] → c.action ≠ .hold →
      ∃ md ∈ s.works ++ l, md.flmdIndex = j) hwait fun j _ hh ha => ?_
    obtain ⟨md, hmd, hidx⟩ := h.waiting j hh ha
    exact ⟨md, List.mem_append_left _ hmd, hidx⟩
  · exact hr.core_induction (Q := fun _ c => SlotsInOrder c.holdList) hslots fun j _ => h.slots j

/-- A rewrite that leaves the queue as it is, or gives the flow an empty one. -/
def SameQueue (s : FlowSys) (i : ℕ) (c : Core) : Prop :=
  c.holdList = (s.entry i).feHoldList ∨ (s.entry i).feHoldList = none ∧ c.holdList = some {}

theorem SameQueue.packets (h : SameQueue s i c) : queuePackets c.holdList = s.held i := by
  rw [FlowSys.held]
  obtain h | ⟨h, h'⟩ := h
  · rw [h]
  · rw [h, h']
    exact FlowQueue.packets_eq_nil fun _ => rfl

theorem SameQueue.slots (h : SameQueue s i c) (ht : Tended s) : SlotsInOrder c.holdList := by
  obtain h | ⟨-, h'⟩ := h
  · rw [h]
    exact ht.slots i
  · intro q hq k _
    rw [h'] at hq
    rw [← Option.some.inj hq]

theorem Kept.held (h : Kept s s') (j : ℕ) : s'.held j = s.held j := by
  rw [FlowSys.held, h.holdList j]
  rfl

section

variable (h : Tended s)
include h

/-- What leaves the queues and the actions alone, up to marks of eviction. -/
theorem Tended.kept (hk : Kept s s') (hw : s'.works = s.works ++ l)
    (hl : ∀ md ∈ l, md.Shaped ∧ md.flmdFlags.active = true)
    (hfl : ∀ j, (s'.entry j).feFlags.deleteMarked = (s.entry j).feFlags.deleteMarked ∧
      (s'.entry j).feFlags.newFlow = (s.entry j).feFlags.newFlow)
    (hc : ∀ j, (s'.entry j).feFlags.evictCandidate = true → (s.entry j).feAction = .hold →
      (s.entry j).feFlags.evictCandidate = true ∨ s.held j = []) : Tended s' := by
  refine ⟨fun md hmd => ?_, fun j hj hv => ?_, fun cb hcb hd => ?_, fun j hcj ha => ?_,
    fun j hh ha => ?_, fun j => by rw [hk.holdList j]; exact h.slots j⟩
  · rw [hw] at hmd
    rcases List.mem_append.1 hmd with hmd | hmd
    · exact h.shaped md hmd
    · exact (hl md hmd).1
  · rw [hk.valid] at hv
    have hj' : DeletePending s j := by
      refine (deletePending_append hw hk.cbs hj).resolve_right ?_
      rintro ⟨md, hmd, hd, -⟩
      rw [(hl md hmd).2] at hd
      simp at hd
    obtain ⟨h1, h2, h3⟩ := h.deleting j hj' hv
    exact ⟨(hfl j).1.trans h1, (hk.action j).trans h2, (hfl j).2.trans h3⟩
  · rw [hk.cbs] at hcb
    rw [hk.held]
    exact h.emptied cb hcb hd
  · rw [hk.action] at ha
    rw [hk.held]
    rcases hc j hcj ha with h1 | h1
    · exact h.cand j h1 ha
    · exact h1
  · rw [hk.held] at hh
    rw [hk.action] at ha
    obtain ⟨md, hmd, hidx⟩ := h.waiting j hh ha
    exact ⟨md, by rw [hw]; exact List.mem_append_left _ hmd, hidx⟩

theorem Tended.quiet (hq : Quiet env s s') : Tended s' := by
  refine h.kept (l := []) hq.kept (by rw [hq.works, List.append_nil])
    (by simp) (fun j => ?_) fun j hc _ => .inl ?_
  · rw [hq.flags j]
    exact ⟨rfl, rfl⟩
  · rwa [hq.flags j] at hc

theorem Tended.marking {rev : Option ℕ} (hm : Marking env s i rev md s')
    (hi : (s.entry i).feAction = .hold → s.held i = []) : Tended s' := by
  obtain ⟨flags, d, hmd, hact, -, hd⟩ := hm.item
  refine h.kept (l := [md]) hm.kept (by rw [hm.eq]) (fun md' hmd' => ?_) (fun j => ?_)
    fun j hc ha => ?_
  · rw [List.mem_singleton.1 hmd', hmd]
    refine ⟨fun data hdata => ?_, hact⟩
    rw [(hd.data hdata).1, hact]
    rfl
  · rw [hm.entry j]
    split_ifs <;> exact ⟨rfl, rfl⟩
  · rw [hm.entry j] at hc
    split_ifs at hc with hj
    · right
      rcases hj with rfl | hj
      · exact hi ha
      · exact absurd ha (hm.revSome j hj).2.2.2.2
    · exact .inl hc

theorem Tended.unmarked (hu : Unmarked env s i s') : Tended s' := by
  refine h.kept (l := []) hu.kept (by rw [hu.works, List.append_nil])
    (by simp) (fun j => ?_) fun j hc _ => .inl ?_
  · rw [hu.entry j]
    split_ifs <;> exact ⟨rfl, rfl⟩
  · rw [hu.entry j] at hc
    split_ifs at hc
    · exact absurd hc (by simp [FlowEntry.unmark])
    · exact hc

theorem Tended.frees (hf : Frees env s i c s') (hb : Blank c) : Tended s' := by
  have hnil : queuePackets c.holdList = [] := by rw [hb.holdList]; rfl
  refine h.changes hf.changes (by simp) (fun hv => ?_)
    (fun _ => .inl hnil) (fun _ _ => hnil) (fun hh => absurd hnil hh) ?_
  · rw [hf.valid, if_pos rfl] at hv
    cases hv
  · rw [hb.holdList]
    exact fun q hq => absurd hq (by simp)

theorem Tended.created {key : FlowKey} (hg : Good env s)
    (hc : Created env s key needHold x s') (hx : ¬ DeletePending s x) : Tended s' := by
  have hl : (newCore (s.entry x).core x key needHold).holdList = none ∨
      (newCore (s.entry x).core x key needHold).holdList = some { vfqIndex := x } := by
    cases needHold with
    | true => exact .inr rfl
    | false => exact .inl (hg.blank x hc.fresh).holdList
  have hnil : queuePackets (newCore (s.entry x).core x key needHold).holdList = [] := by
    rcases hl with hl | hl
    · rw [hl]; rfl
    · rw [hl]; exact FlowQueue.packets_eq_nil fun _ => rfl
  refine h.changes hc.changes (by simp) (fun _ hd => ?_)
    (fun hd => absurd hd hx) (fun _ _ => hnil) (fun hh => absurd hnil hh) fun q hq k _ => ?_
  · exact absurd (hd.resolve_right (by simp)) hx
  · rcases hl with hl | hl
    · rw [hl] at hq; cases hq
    · rw [hl] at hq; rw [← Option.some.inj hq]

theorem Tended.rewrites (hr : Rewrites env s i c l s') (hq : SameQueue s i c)
    (hl : ∀ md ∈ l, md.Shaped ∧ md.flmdIndex = i)
    (hdel : s.valid i = true → DeletePending s i ∨ (∃ md ∈ l, md.flmdFlags.active = false) →
      BeingDeleted c) (hcand : c.flags.evictCandidate = true → c.action = .hold → s.held i = [])
    (hwait : s.held i ≠ [] → c.action ≠ .hold → (s.entry i).feAction ≠ .hold ∨ l ≠ []) :
    Tended s' := by
  refine h.changes hr.changes hl (fun hv => hdel ((hr.valid i).symm.trans hv))
    (fun _ => .inr hq.packets) (fun hc ha => hq.packets.trans (hcand hc ha)) (fun hh ha => ?_)
    (hq.slots h)
  rw [hq.packets] at hh
  rcases hwait hh ha with h1 | h1
  · obtain ⟨md, hmd, hidx⟩ := h.waiting i hh h1
    exact ⟨md, List.mem_append_left _ hmd, hidx⟩
  · obtain ⟨md, hmd⟩ := List.exists_mem_of_ne_nil l h1
    exact ⟨md, List.mem_append_right _ hmd, (hl md hmd).2⟩

theorem Tended.detach (q : FlowQueue) : Tended (s.detach i q) := by
  have hch : Changes s i { (s.entry i).core with holdList := none } [] (s.detach i q) :=
    ⟨by rw [detach_entry_same]; rfl, fun j hj => by rw [detach_entry_ne q hj],
      fun j _ => detach_valid q j, by rw [List.append_nil]; rfl, rfl⟩
  refine h.changes hch (by simp) (fun hv hd => ?_) (fun _ => .inl rfl)
    (fun _ _ => rfl) (fun hh => absurd rfl hh) fun q' hq' => absurd hq' (by simp)
  rw [detach_valid] at hv
  exact h.deleting i (hd.resolve_right (by simp)) hv

theorem Tended.enqueue {pnode : Pnode} (hq : (s.entry i).feHoldList = some q)
    (hv : s.valid i = true) (ha : (s.entry i).feAction = .hold)
    (hc : (s.entry i).feFlags.evictCandidate = false) (hfull : q.vfqEntries < 2 ^ 32 - 1)
    (hr : Rewrites env s i (enqueueCore o (s.entry i).core q pnode) [] t) : Tended t := by
  have hdel : ¬ DeletePending s i := fun hd => by
    have hdrop : (s.entry i).feAction = .drop := (h.deleting i hd hv).2.1
    rw [ha] at hdrop
    simp at hdrop
  refine h.changes hr.changes (by simp) (fun _ hd => ?_)
    (fun hd => absurd hd hdel) (fun hcand => ?_) (fun _ hna => absurd ha hna) ?_
  · exact absurd (hd.resolve_right (by simp)) hdel
  · obtain ⟨b, hb⟩ := enqueueCore_flags o (s.entry i).core q pnode
    rw [hb] at hcand
    exact absurd (hc.symm.trans hcand) (by simp)
  · exact SlotsInOrder.put (by rw [← hq]; exact h.slots i) hfull _

end

/-! ### Pending items come and go -/

theorem mem_eraseIdx_of_index_ne {md' : FlowMd} (hn : l[n]? = some md) (h : md' ∈ l)
    (hne : md'.flmdIndex ≠ md.flmdIndex) : md' ∈ l.eraseIdx n := by
  obtain ⟨k, hk⟩ := List.getElem?_of_mem h
  refine List.mem_eraseIdx_iff_getElem?.2 ⟨k, fun hkn => hne ?_, hk⟩
  rw [hkn, hn] at hk
  rw [Option.some.inj hk]

theorem Tended.eraseWork (h : Tended s) (hn : s.works[n]? = some md)
    (hq : s.held md.flmdIndex = [] ∨ (s.entry md.flmdIndex).feAction = .hold) :
    Tended { s with works := s.works.eraseIdx n } where
  shaped := fun md' hmd' => h.shaped md' (List.mem_of_mem_eraseIdx hmd')
  deleting := fun j hj hv => h.deleting j (deletePending_subset hj
    (fun _ hm => List.mem_of_mem_eraseIdx hm) fun _ hc => hc) hv
  emptied := h.emptied
  cand := h.cand
  waiting := fun j hh ha => by
    obtain ⟨md', hmd', hidx⟩ := h.waiting j hh ha
    refine ⟨md', mem_eraseIdx_of_index_ne hn hmd' fun he => ?_, hidx⟩
    rw [← hidx, he] at hh ha
    rcases hq with h1 | h1
    · exact hh h1
    · exact ha h1
  slots := h.slots

/-- A callback is scheduled; one that deletes finds the queue empty. -/
theorem Tended.addCb (h : Tended s) (cb : FlowDefer) (hd : cb.data.vfddDelete = true →
    DeletePending s cb.vfddFe ∧ s.held cb.vfddFe = []) :
    Tended { s with cbs := s.cbs ++ [cb] } where
  shaped := h.shaped
  deleting := fun j hj hv => by
    refine h.deleting j ?_ hv
    rcases hj with hj | ⟨cb', hcb', hdel, hfe⟩
    · exact .inl hj
    · rcases List.mem_append.1 hcb' with hm | hm
      · exact .inr ⟨cb', hm, hdel, hfe⟩
      · rw [List.mem_singleton.1 hm] at hdel hfe
        rw [← hfe]
        exact (hd hdel).1
  emptied := fun cb' hcb' hdel => by
    rcases List.mem_append.1 hcb' with hm | hm
    · exact h.emptied cb' hm hdel
    · rw [List.mem_singleton.1 hm] at hdel ⊢
      exact (hd hdel).2
  cand := h.cand
  waiting := h.waiting
  slots := h.slots

theorem Tended.eraseCb (h : Tended s) (n : ℕ) : Tended { s with cbs := s.cbs.eraseIdx n } where
  shaped := h.shaped
  deleting := fun j hj hv => h.deleting j (deletePending_subset hj (fun _ hm => hm)
    fun _ hc => List.mem_of_mem_eraseIdx hc) hv
  emptied := fun cb hcb => h.emptied cb (List.mem_of_mem_eraseIdx hcb)
  cand := h.cand
  waiting := h.waiting
  slots := h.slots

/-! ### The balance under the other changes -/

theorem Conserved.kept (h : Conserved env s) (hk : Kept s s') : Conserved env s' :=
  h.same hk.accepted hk.done hk.offered.ge hk.held

theorem Conserved.rewrites (h : Conserved env s) (hr : Rewrites env s i c l s')
    (hq : SameQueue s i c) : Conserved env s' := by
  refine h.same hr.accepted hr.done hr.offered.ge fun j => ?_
  by_cases hji : j = i
  · rw [hji, held_of_core hr.core, hq.packets]
  · exact held_congr (hr.others j hji)

theorem Conserved.frees (h : Conserved env s) (hf : Frees env s i c s') (hb : Blank c)
    (hi : s.held i = []) : Conserved env s' := by
  refine h.same hf.accepted hf.done hf.offered.ge fun j => ?_
  by_cases hji : j = i
  · rw [hji, held_of_core hf.core, hi, hb.holdList]
    rfl
  · exact held_congr (hf.others j hji)

theorem Conserved.created {key : FlowKey} (h : Conserved env s) (hg : Good env s)
    (hc : Created env s key needHold x s') : Conserved env s' := by
  refine h.same hc.accepted hc.done hc.offered.ge fun j => ?_
  by_cases hjx : j = x
  · rw [hjx, held_of_core hc.core, hg.held_of_not_valid hc.fresh]
    cases needHold with
    | true => exact FlowQueue.packets_eq_nil fun _ => rfl
    | false =>
      change queuePackets (s.entry x).core.holdList = []
      rw [(hg.blank x hc.fresh).holdList]
      rfl
  · exact held_congr (hc.others j hjx)

/-! ### The condition -/

/-- No flow on hold with packets is marked for eviction, the transitions that requests ask for are
scheduled, and a callback evicts no flow that a work item is pending for. -/
def TendsQueues (env : Env) (s : FlowSys) : FlowEvent → Prop
  | .packet pkt _ => ∀ r ∈ findFlow env s pkt.key, ∀ i ∈ r, ∀ q ∈ (s.entry i).feHoldList,
      q.vfqEntries < 2 ^ 32 - 1
  | .hbsPacket index fromVmi _ => ∀ i ∈ hbsFlow env s index fromVmi,
      (s.entry i).feAction = .hold → s.held i = []
  | .request req o =>
    (req.forceEvict = true → ∀ i ∈ flowGetEntry env s req.frIndex,
      (s.entry i).feAction = .hold → s.held i = []) ∧
    (req.forceEvict = false → (o.sched 0).mdOk = true ∧ (o.sched 0).workOk = true)
  | .callback n _ => ∀ cb ∈ s.cbs[n]?, cb.data.vfddDelete = false → cb.data.vfddEvictFlow = true →
      ∀ md ∈ s.works, md.flmdIndex ∉ evictTargets env s cb
  | _ => True

instance (env : Env) (s : FlowSys) (ev : FlowEvent) : Decidable (TendsQueues env s ev) := by
  refine ev.casesOn ?_ ?_ ?_ ?_ ?_ ?_ ?_ ?_ ?_ <;> intros <;> unfold TendsQueues <;> infer_instance

/-- **No loss.**  Queues are tended to, and a flow is created only in an entry that no deletion is
pending for. -/
def NoLoss (env : Env) (s : FlowSys) (ev : FlowEvent) : Prop :=
  CreatesIn env s (fun x => ¬ DeletePending s x) ev ∧ TendsQueues env s ev

instance (env : Env) (s : FlowSys) (ev : FlowEvent) : Decidable (NoLoss env s ev) :=
  inferInstanceAs (Decidable (_ ∧ _))

theorem Scheduled.ne_nil {flags : FlowFlags} (h : Scheduled out i stamp flags evict l)
    (hm : out.mdOk = true) (hw : out.workOk = true) :
    l ≠ [] := by
  obtain ⟨d, -, rfl⟩ | ⟨-, hf⟩ := h
  · simp
  · rw [hf hm] at hw
    simp at hw

theorem sameQueue_setCore :
    SameQueue s i (setCore env o req rindex (queuedCore req (s.entry i).core)) := by
  unfold SameQueue setCore queuedCore
  dsimp only
  split_ifs with h
  · exact .inr ⟨h.2.2, rfl⟩
  · exact .inl rfl

/-- A candidate for eviction has no packets, once no work item is pending for it. -/
theorem Tended.held_of_evictable (h : Tended s) (he : Evictable s i)
    (hw : ∀ md ∈ s.works, md.flmdIndex ≠ i) : s.held i = [] := by
  by_cases ha : (s.entry i).feAction = .hold
  · exact h.cand i he.2 ha
  · by_contra hh
    obtain ⟨md, hmd, hidx⟩ := h.waiting i hh ha
    exact hw md hmd hidx

/-- The queue of a flow whose deletion is past the flush is empty. -/
theorem Tended.held_of_flushed (h : Tended s) (hd : DeletePending s i) (hv : s.valid i = true)
    (hf : (s.entry i).feHoldList = none ∨ (s.entry i).feAction = .hold) : s.held i = [] := by
  rcases hf with h1 | h1
  · rw [FlowSys.held, h1]; rfl
  · have hdrop : (s.entry i).feAction = .drop := (h.deleting i hd hv).2.1
    rw [h1] at hdrop
    simp at hdrop

/-- Tended queues, and the balance. -/
def Accounted (env : Env) (s : FlowSys) : Prop := Tended s ∧ Conserved env s

theorem Accounted.frees (h : Accounted env s) (hf : Frees env s i c s') (hb : Blank c)
    (hi : s.held i = []) : Accounted env s' :=
  ⟨h.1.frees hf hb, h.2.frees hf hb hi⟩

theorem Accounted.evicts (h : Accounted env s) (he : Evicts env s i s')
    (hw : ∀ md ∈ s.works, md.flmdIndex ≠ i) : Accounted env s' := by
  obtain ⟨-, rfl⟩ | ⟨hev, hf⟩ := he
  · exact h
  · exact h.frees hf (evictCore_blank _) (h.1.held_of_evictable hev hw)

theorem Accounted.set (h : Accounted env s) (hs : SetDone env s req o i rindex l s')
    (hc : (s.entry i).feFlags.evictCandidate = false) (hd : s.valid i = true → ¬ DeletePending s i)
    (hm : (o.sched 0).mdOk = true) (hw : (o.sched 0).workOk = true) : Accounted env s' := by
  refine ⟨h.1.rewrites hs.rewrites sameQueue_setCore
    (fun md hmd => (hs.scheduled.items md hmd).1)
    (fun hv hdel => absurd hdel ?_) (fun hcand => ?_) (fun _ _ => .inr (hs.scheduled.ne_nil hm hw)),
    h.2.rewrites hs.rewrites sameQueue_setCore⟩
  · rintro (hdel | ⟨md, hmd, hna⟩)
    · exact hd hv hdel
    · rw [(hs.scheduled.items md hmd).2, hs.active] at hna
      simp at hna
  · have : (s.entry i).feFlags.evictCandidate = true := hcand
    rw [hc] at this
    simp at this

theorem keeps_accounted (env : Env) : Keeps env (NoLoss env) (Accounted env) where
  quiet := fun _ hi hq => ⟨hi.1.quiet hq, hi.2.kept hq.kept⟩
  offer := fun _ hi => ⟨⟨hi.1.shaped, hi.1.deleting, hi.1.emptied, hi.1.cand, hi.1.waiting,
    hi.1.slots⟩, hi.2.same rfl rfl (Nat.le_succ _) fun _ => rfl⟩
  created := fun hg hi hp hcr hf hc =>
    ⟨hi.1.created hg hc (hp.1.created hcr hf hc), hi.2.created hg hc⟩
  givenUp := fun hg hi hx hf => hi.frees hf (resetCore_blank _) (hg.held_of_not_valid hx)
  hold := by
    intro s s' x cpu hg hi hv hn hc ha _ hr _
    refine ⟨hi.1.rewrites hr (.inl rfl) (by simp) (fun _ hd => ?_)
      (fun hcand => ?_) (fun _ hna => absurd rfl hna), hi.2.rewrites hr (.inl rfl)⟩
    · have hd' := hd.resolve_right (by simp)
      have : (s.entry x).feFlags.newFlow = false := (hi.1.deleting x hd' hv).2.2
      rw [hn] at this
      simp at this
    · have : (s.entry x).feFlags.evictCandidate = true := hcand
      rw [hc] at this
      simp at this
  enqueue := by
    intro s i vif o hg hi hv ha hc hoff
    obtain ⟨-, he⟩ | ⟨q, t, hq, hr, -, he⟩ := enqueueFlow_cases env o s i ⟨s.offered, vif⟩
    · rw [he]
      exact ⟨⟨hi.1.shaped, hi.1.deleting, hi.1.emptied, hi.1.cand, hi.1.waiting, hi.1.slots⟩,
        hi.2.same rfl rfl (Nat.le_succ _) fun _ => rfl⟩
    · have hfull : q.vfqEntries < 2 ^ 32 - 1 := by
        rcases hoff with ⟨s₀, pkt, o₀, hp, hf, hqu⟩ | ⟨q', hq', h0⟩
        · exact hp.2 _ hf i rfl q ((hqu.holdList i).symm.trans hq)
        · rw [hq] at hq'
          rw [Option.some.inj hq', h0]
          decide
      have ht := hi.1.enqueue hq hv ha hc hfull hr
      have hcons := hi.2.enqueue (hg.lt i hv) hq (hi.1.slots i q hq) hr
      rw [he]
      exact ⟨⟨ht.shaped, ht.deleting, ht.emptied, ht.cand, ht.waiting, ht.slots⟩, hcons⟩
  mark := fun _ hi ha hm => ⟨hi.1.marking hm fun hh => absurd hh ha, hi.2.kept hm.kept⟩
  markHbs := fun _ hi hp hf hm => ⟨hi.1.marking hm (hp.2 _ hf), hi.2.kept hm.kept⟩
  forced := by
    intro s s' req o i l hg hi hp hf
    refine ⟨hi.1.rewrites hf.rewrites (.inl rfl)
      (fun md hmd => (hf.scheduled.items md hmd).1)
      (fun hv hd => ?_) (fun _ ha => hp.2.1 hf.force _ hf.index ha) (fun _ ha => .inl ha),
      hi.2.rewrites hf.rewrites (.inl rfl)⟩
    refine hi.1.deleting i (hd.resolve_right ?_) hv
    rintro ⟨md, hmd, hna⟩
    rw [(hf.scheduled.items md hmd).2] at hna
    have : (s.entry i).feFlags.active = false := hna
    rw [(hg.live i hv).1] at this
    simp at this
  deleted := by
    intro s s' req o i l hg hi hp hd
    obtain ⟨hm, hw⟩ := hp.2.2 hd.notForce
    refine ⟨hi.1.rewrites hd.rewrites (.inl rfl)
      (fun md hmd => (hd.scheduled.items md hmd).1)
      (fun _ _ => ⟨rfl, rfl, (FlowFlags.unlocked_iff.1 hd.unlocked).2.2⟩)
      (fun _ ha => absurd ha (by simp [deleteCore]))
      (fun _ _ => .inr (hd.scheduled.ne_nil hm hw)), hi.2.rewrites hd.rewrites (.inl rfl)⟩
  set := by
    intro s s' req o i rindex l hg hi hp hidx hu hdm hs
    obtain ⟨hm, hw⟩ := hp.2.2 hs.notForce
    refine hi.set hs (hg.not_cand hu) (fun hv hd => ?_) hm hw
    have : (s.entry i).feFlags.deleteMarked = true := (hi.1.deleting i hd hv).1
    rw [hdm] at this
    simp at this
  added := by
    intro s₀ s₁ s s' req o needHold x rindex l hg₀ hg hi hp hcr hf hc hq hs
    obtain ⟨hm, hw⟩ := hp.2.2 hs.notForce
    obtain ⟨-, -, -, -, -, hcand⟩ := hc.core_new hg₀
    refine hi.set hs (by rw [hq.flags]; exact hcand) (fun _ hd => ?_) hm hw
    refine hp.1.created hcr hf hc (deletePending_subset hd ?_ ?_)
    · rw [hq.works, hc.works]; exact fun _ h => h
    · rw [hq.cbs, hc.cbs]; exact fun _ h => h
  detach := fun hg hi _ hv hq _ => ⟨hi.1.detach _, hi.2.detach (hg.lt _ hv) hq⟩
  gone := fun hg hi hn hv => ⟨hi.1.eraseWork hn (.inl (hg.held_of_not_valid hv)),
    hi.2.same rfl rfl le_rfl fun _ => rfl⟩
  deferred := by
    intro s n o md data q hg hi hw hd
    have hmem := List.mem_of_getElem? hw.item
    have ht := hi.1.addCb ⟨md.flmdIndex, { data with vfddFlowQueue := q }, md.stamp, md.rev⟩
      fun hdel => by
        have hna : md.flmdFlags.active = false := by
          have := hi.1.shaped md hmem data hd
          rw [show data.vfddDelete = true from hdel] at this
          simpa using this.symm
        have hp : DeletePending s md.flmdIndex := .inl ⟨md, hmem, hna, rfl⟩
        exact ⟨hp, hi.1.held_of_flushed hp hw.valid hw.flushed⟩
    refine ⟨ht.eraseWork hw.item ?_, hi.2.same rfl rfl le_rfl fun _ => rfl⟩
    refine hw.flushed.imp (fun hnone => ?_) id
    change queuePackets (s.entry md.flmdIndex).feHoldList = []
    rw [hnone]
    rfl
  undeferred := by
    intro s n o md q hg hi hw hd
    have hmem := List.mem_of_getElem? hw.item
    have hflushed : s.held md.flmdIndex = [] ∨ (s.entry md.flmdIndex).feAction = .hold :=
      hw.flushed.imp_left fun hnone => by rw [FlowSys.held, hnone]; rfl
    have hi₂ : Accounted env (flowDefer env o s md md.flmdIndex q) ∧
        ((flowDefer env o s md md.flmdIndex q).held md.flmdIndex = [] ∨
        ((flowDefer env o s md md.flmdIndex q).entry md.flmdIndex).feAction = .hold) := by
      refine flowDefer_keeps (I := fun t => Accounted env t ∧ (t.held md.flmdIndex = [] ∨
        (t.entry md.flmdIndex).feAction = .hold)) hg hw.valid hd ⟨hi, hflushed⟩ (fun s₁ hu => ?_)
        fun ha s₁ s₂ hi₁ hk hf => ⟨hi₁.1.frees hf (resetCore_blank _) ?_, .inl ?_⟩
      · rw [hu.kept.held, hu.kept.action]
        exact ⟨⟨hi.1.unmarked hu, hi.2.kept hu.kept⟩, hflushed⟩
      · rw [hk.held]
        exact hi.1.held_of_flushed (.inl ⟨md, hmem, ha, rfl⟩) hw.valid hw.flushed
      · rw [held_of_core hf.core]
        rfl
    have hworks : (flowDefer env o s md md.flmdIndex q).works = s.works := Keeps.flowDefer_works
    generalize flowDefer env o s md md.flmdIndex q = s₂ at hi₂ hworks
    rw [← hworks]
    exact ⟨hi₂.1.1.eraseWork (by rw [hworks]; exact hw.item) hi₂.2,
      hi₂.1.2.same rfl rfl le_rfl fun _ => rfl⟩
  called := by
    intro s n o cb hg hi hp hn
    have hmem := List.mem_of_getElem? hn
    have hcbs : (flowDeferFinish env o s cb).cbs = s.cbs := Keeps.flowDeferFinish_cbs
    have hi' : Accounted env (flowDeferFinish env o s cb) :=
      flowDeferFinish_keeps hg hmem hi
        (fun hd _ _ hf => hi.frees hf (resetCore_blank _) (hi.1.emptied cb hmem hd))
        fun hd he j hj _ _ hi₁ _ hworks _ hev => hi₁.evicts hev fun md hmd hidx =>
          hp.2 cb hn hd he md (hworks ▸ hmd) (hidx ▸ hj)
    rw [← hcbs]
    exact ⟨hi'.1.eraseCb n, hi'.2.same rfl rfl le_rfl fun _ => rfl⟩

/-! ### Packets stay where they are -/

/-- A packet that was kept is in no queue but that of `i`. -/
structure Confined (p i : ℕ) (s : FlowSys) : Prop where
  kept : p ∈ s.accepted
  offered : p < s.offered
  others : ∀ j, j ≠ i → p ∉ s.held j

theorem Confined.mono (h : Confined p i s) (ha : s'.accepted = s.accepted)
    (ho : s.offered ≤ s'.offered) (hh : ∀ j, s'.held j ⊆ s.held j) : Confined p i s' :=
  ⟨by rw [ha]; exact h.kept, h.offered.trans_le ho, fun j hj hp => h.others j hj (hh j hp)⟩

theorem FlowQueue.mem_packets :
    p ∈ q.packets ↔ ∃ k pnode, q.vfqPnodes k = some pnode ∧ pnode.plPacket = p := by
  unfold packets packetsAt
  simp only [List.mem_filterMap, List.mem_finRange, true_and, Option.map_eq_some_iff]

theorem FlowQueue.mem_packets_put {pnode : Option Pnode} (h : p ∈ (q.put pnode).packets) :
    p ∈ q.packets ∨ ∃ pn, pnode = some pn ∧ pn.plPacket = p := by
  obtain ⟨k, pn, hk, hp⟩ := mem_packets.1 h
  unfold put at hk
  dsimp only at hk
  split_ifs at hk with hlt
  · by_cases hkq : k = ⟨q.vfqEntries, hlt⟩
    · rw [hkq, update_self] at hk
      exact .inr ⟨pn, hk, hp⟩
    · rw [update_of_ne hkq] at hk
      exact .inl (mem_packets.2 ⟨k, pn, hk, hp⟩)
  · exact .inl (mem_packets.2 ⟨k, pn, hk, hp⟩)

theorem Changes.held_subset (h : Changes s i c l s') (hc : queuePackets c.holdList ⊆ s.held i)
    (j : ℕ) : s'.held j ⊆ s.held j :=
  h.core_induction (Q := fun j c => queuePackets c.holdList ⊆ s.held j) hc
    (fun _ _ => List.Subset.refl _) j

section

variable (h : Confined p i s)
include h

theorem Confined.unmoved (hk : Kept s s') : Confined p i s' :=
  h.mono hk.accepted hk.offered.ge fun j => by rw [hk.held]; exact List.Subset.refl _

theorem Confined.rewrites (hr : Rewrites env s j c l s') (hc : queuePackets c.holdList ⊆ s.held j) :
    Confined p i s' :=
  h.mono hr.accepted hr.offered.ge (hr.changes.held_subset hc)

theorem Confined.frees (hf : Frees env s j c s') (hb : Blank c) : Confined p i s' :=
  h.mono hf.accepted hf.offered.ge
    (hf.changes.held_subset (by rw [hb.holdList]; exact List.nil_subset _))

end

theorem Evicts.confined (h : Evicts env s j s') (hi : Confined p i s) : Confined p i s' := by
  obtain ⟨-, rfl⟩ | ⟨-, hf⟩ := h
  · exact hi
  · exact hi.frees hf (evictCore_blank _)

theorem keeps_confined (env : Env) (p i : ℕ) : Keeps env (fun _ _ => True) (Confined p i) where
  quiet := fun _ hi hq => hi.unmoved hq.kept
  offer := fun _ hi => hi.mono rfl (Nat.le_succ _) fun _ => List.Subset.refl _
  created := by
    intro s s' ev key needHold x hg hi _ _ _ hc
    refine hi.mono hc.accepted hc.offered.ge (hc.changes.held_subset ?_)
    cases needHold with
    | true =>
      change FlowQueue.packets _ ⊆ _
      rw [FlowQueue.packets_eq_nil fun _ => rfl]
      exact List.nil_subset _
    | false => exact List.Subset.refl _
  givenUp := fun _ hi _ hf => hi.frees hf (resetCore_blank _)
  hold := fun _ hi _ _ _ _ _ hr _ => hi.rewrites hr (List.Subset.refl _)
  enqueue := by
    intro s k vif o hg hi _ _ _ _
    obtain ⟨-, he⟩ | ⟨q, t, hq, hr, -, he⟩ := enqueueFlow_cases env o s k ⟨s.offered, vif⟩
    · rw [he]
      exact hi.mono rfl (Nat.le_succ _) fun _ => List.Subset.refl _
    · rw [he]
      refine ⟨?_, hi.offered.trans (Nat.lt_succ_self _), fun j hj hp => ?_⟩
      · change p ∈ if queueKeeps o q then s.accepted ++ [s.offered] else s.accepted
        split_ifs
        · exact List.mem_append_left _ hi.kept
        · exact hi.kept
      change p ∈ t.held j at hp
      by_cases hjk : j = k
      · subst hjk
        rw [held_of_core hr.core] at hp
        rcases FlowQueue.mem_packets_put hp with h1 | ⟨pn, hpn, h1⟩
        · refine hi.others j hj ?_
          rw [FlowSys.held, hq]
          exact h1
        · split_ifs at hpn
          rw [← Option.some.inj hpn] at h1
          exact absurd hi.offered (by rw [← h1]; exact lt_irrefl _)
      · rw [held_congr (hr.others j hjk)] at hp
        exact hi.others j hj hp
  mark := fun _ hi _ hm => hi.unmoved hm.kept
  markHbs := fun _ hi _ _ hm => hi.unmoved hm.kept
  forced := fun _ hi _ hf => hi.rewrites hf.rewrites (List.Subset.refl _)
  deleted := fun _ hi _ hd => hi.rewrites hd.rewrites (List.Subset.refl _)
  set := fun _ hi _ _ _ _ hs =>
    hi.rewrites hs.rewrites (by rw [sameQueue_setCore.packets]; exact List.Subset.refl _)
  added := fun _ _ hi _ _ _ _ _ hs =>
    hi.rewrites hs.rewrites (by rw [sameQueue_setCore.packets]; exact List.Subset.refl _)
  detach := by
    intro s n md q _ hi _ _ _ _
    refine hi.mono rfl le_rfl fun j => ?_
    by_cases hj : j = md.flmdIndex
    · rw [hj, FlowSys.held, detach_entry_same]
      exact List.nil_subset _
    · rw [FlowSys.held, detach_entry_ne _ hj]
      exact List.Subset.refl _
  gone := fun _ hi _ _ => ⟨hi.kept, hi.offered, hi.others⟩
  deferred := fun _ hi _ _ => ⟨hi.kept, hi.offered, hi.others⟩
  undeferred := by
    intro s n o md q hg hi hw hd
    have hi₂ : Confined p i (flowDefer env o s md md.flmdIndex q) :=
      flowDefer_keeps hg hw.valid hd hi (fun _ hu => hi.unmoved hu.kept)
        fun _ _ _ hi₁ _ hf => hi₁.frees hf (resetCore_blank _)
    exact ⟨hi₂.kept, hi₂.offered, hi₂.others⟩
  called := by
    intro s n o cb hg hi _ hn
    have hi' : Confined p i (flowDeferFinish env o s cb) :=
      flowDeferFinish_keeps hg (List.mem_of_getElem? hn) hi (fun _ _ _ hf => hi.frees hf (resetCore_blank _))
        fun _ _ _ _ _ _ hi₁ _ _ _ he => he.confined hi₁
    exact ⟨hi'.kept, hi'.offered, hi'.others⟩

/-! ### Runs -/

theorem init_held (env : Env) (i : ℕ) : (FlowSys.init env).held i = [] := rfl

theorem init_accounted (env : Env) : Accounted env (FlowSys.init env) := by
  refine ⟨⟨fun _ h => absurd h (by simp [FlowSys.init]), fun i _ hv => ?_,
    fun _ h => absurd h (by simp [FlowSys.init]), fun i _ _ => init_held env i,
    fun i hh => absurd (init_held env i) hh, fun i q hq => ?_⟩,
    ⟨fun _ h => absurd h (by simp [FlowSys.init]), List.nodup_nil, ?_⟩⟩
  · rw [init_valid] at hv
    simp at hv
  · rw [init_entry] at hq
    simp at hq
  · simp only [init_held, Multiset.coe_nil, Finset.sum_const_zero, add_zero]
    rfl

theorem Conserved.confined (h : Conserved env s) (hg : Good env s) (hi : s.valid i = true)
    (hp : p ∈ s.held i) : Confined p i s := by
  have hsub : ∀ j, j < env.g.total → ∀ a ∈ s.held j, a ∈ s.accepted := by
    intro j hj a ha
    have : a ∈ (s.accepted : Multiset ℕ) := by
      rw [h.balance, Multiset.mem_add, Multiset.mem_sum]
      exact .inr ⟨j, Finset.mem_range.2 hj, ha⟩
    exact this
  have hacc := hsub i (hg.lt i hi) p hp
  refine ⟨hacc, h.fresh p hacc, fun j hji hpj => ?_⟩
  have hj : j < env.g.total := by
    refine hg.lt j ?_
    by_contra hv
    rw [hg.held_of_not_valid (by simpa using hv)] at hpj
    simp at hpj
  -- otherwise the packet would count twice
  have hnd : (s.accepted : Multiset ℕ).Nodup := h.nodup
  rw [h.balance] at hnd
  have hcount := Multiset.nodup_iff_count_le_one.1 hnd p
  rw [Multiset.count_add, Multiset.count_sum'] at hcount
  have h2 : Multiset.count p (s.held i : Multiset ℕ) + Multiset.count p (s.held j : Multiset ℕ) ≤
      ∑ k ∈ Finset.range env.g.total, Multiset.count p (s.held k : Multiset ℕ) := by
    rw [← Finset.add_sum_erase _ _ (Finset.mem_range.2 (hg.lt i hi))]
    refine Nat.add_le_add_left (Finset.single_le_sum (f := fun k =>
      Multiset.count p (s.held k : Multiset ℕ)) (fun _ _ => Nat.zero_le _)
      (Finset.mem_erase.2 ⟨hji, Finset.mem_range.2 hj⟩)) _
  have hci : 0 < Multiset.count p (s.held i : Multiset ℕ) := Multiset.count_pos.2 hp
  have hcj : 0 < Multiset.count p (s.held j : Multiset ℕ) := Multiset.count_pos.2 hpj
  omega

/-- **Held packets are conserved.**  In a run without loss, every packet that `vr_enqueue_flow` kept
was taken out once, or is once in the queue of an entry that holds a flow; and a step that gives an
entry back finds its packets taken out. -/
theorem heldPackets_conserved (h : Reach (flowStep env) (NoLoss env) (FlowSys.init env) s) :
    s.accepted.Nodup ∧
    (s.accepted : Multiset ℕ) =
      (s.done : Multiset ℕ) + ∑ i ∈ Finset.range env.g.total, (s.held i : Multiset ℕ) ∧
    (∀ i, s.valid i = false → s.held i = []) ∧
    ∀ ev s', NoLoss env s ev → flowStep env s ev = some s' →
      ∀ i, s.valid i = true → s'.valid i = false → ∀ p ∈ s.held i, p ∈ s'.done := by
  obtain ⟨hg, -, hc⟩ := (keeps_accounted env).run (init_accounted env) h
  refine ⟨hc.nodup, hc.balance, fun i hv => hg.held_of_not_valid hv, ?_⟩
  intro ev s' hp hs i hv hv' p hpi
  obtain ⟨hg', -, hc'⟩ := (keeps_accounted env).run (init_accounted env) (h.step ev hp hs)
  obtain ⟨-, hconf⟩ := (keeps_confined env p i).step hg (hc.confined hg hv hpi) trivial hs
  -- the packet was kept, and it is in no queue after the step
  have hm : p ∈ (s'.accepted : Multiset ℕ) := hconf.kept
  rw [hc'.balance, Multiset.mem_add, Multiset.mem_sum] at hm
  rcases hm with hm | ⟨j, -, hj⟩
  · exact hm
  · by_cases hji : j = i
    · rw [hji, hg'.held_of_not_valid hv'] at hj
      cases hj
    · exact absurd hj (hconf.others j hji)

/-- Two packets of a flow on hold are kept; the flow is deleted and its work runs. -/
def heldRun : List FlowEvent :=
  [.packet (tcpPacket 1 false) {}, .packet (tcpPacket 1 false) {}, .request (deleteReq 0 1 1) {},
    .work 0 {}]

theorem heldPackets_conserved_heldRun :
    ∃ s, runWhen (flowStep smallEnv) (NoLoss smallEnv) heldRun (FlowSys.init smallEnv) = some s ∧
      s.accepted = [0, 1] ∧ s.accepted.Nodup ∧ (s.accepted : Multiset ℕ) = (s.done : Multiset ℕ) +
        ∑ i ∈ Finset.range smallEnv.g.total, (s.held i : Multiset ℕ) := by
  have hrun : ((runWhen (flowStep smallEnv) (NoLoss smallEnv) heldRun
      (FlowSys.init smallEnv)).map FlowSys.accepted) = some [0, 1] := by
    decide +kernel
  obtain ⟨s, hs, hacc⟩ := Option.map_eq_some_iff.1 hrun
  obtain ⟨h1, h2, -⟩ := heldPackets_conserved (Reach.of_runWhen .init hs)
  exact ⟨s, hs, hacc, h1, h2⟩

/-- A packet that closes its flow on hold is kept; the flow is forced out. -/
def lossRun : List FlowEvent :=
  [.packet (tcpPacket 1 true) {}, .request (forceReq 0 1) {}, .work 0 {}, .callback 0 {}]

/-- The packet was kept and not taken out, and it is in no queue. -/
theorem heldPacket_lost :
    ∃ s, runWhen (flowStep smallEnv) (fun _ _ => True) lossRun (FlowSys.init smallEnv) = some s ∧
      s.accepted = [0] ∧ s.done = [] ∧ ∀ i < smallEnv.g.total, s.held i = [] :=
  exists_of_decide (by decide +kernel)

end Vrouter.Flow
