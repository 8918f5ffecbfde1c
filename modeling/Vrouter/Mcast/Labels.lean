import Vrouter.Mcast.Tree

/-! # Labels and VRFs of copies

Which trees and packets have copies with the right ids, and exactly those: `copies_labelled`. -/

namespace Vrouter.Mcast

open Vrouter.Lib Nh

/-! ### What is right -/

section

variable (env : Env)

/-- Members leave something else in the metadata. -/
def Env.withLeaf (leaf : Leaf) : Env := { env with leaf := leaf }

/-- Every copy goes with the label and the VRF of its member, and if it has a VXLAN header, then with
the label of the packet. -/
def CopiesRight (pkt : Packet) (nh : Tree) (head : PktSrc → Head) (fmd : Fmd) : Prop :=
  ∀ e, replicated env pkt nh head fmd = some e →
    ∀ id m c, Event.output id m c ∈ (replicate env pkt nh head fmd).trace →
      c.label = copyLabel e.label m ∧ c.vrf = copyVrf env e.vrf m ∧
      ∀ v, c.vxlan = some v → v = fmd.fmdLabel ∧ 0 ≤ fmd.fmdLabel

/-- The copies for the members of a composite do not depend on each other: only the first may be
without device, and only the last of an encap composite may be of another type. -/
def Composite.Orderly (c : Composite) (pkt : Packet) (e : Entry) (kind : Kind) (i : ℕ) : Prop :=
  (∀ m ∈ (c.recipients env pkt e kind i).tail, m.nh.firstDev.isSome = true) ∧
    (kind = .encap → ∀ m ∈ (c.recipients env pkt e kind i).dropLast, m.nh.nhType = .encap)

def Tree.Orderly (nh : Tree) (pkt : Packet) (e : Entry) : Prop :=
  ∀ c i kind, (some c, i) ∈ nh.components.zipIdx → c.valid = true → c.kind = some kind →
    kind ≠ .fabric → c.Orderly env pkt e kind i

/-- If a copy is to have a VXLAN header at all, the label that is kept is the one the packet came
with. -/
def LabelKept (pkt : Packet) (nh : Tree) (e : Entry) (fmd : Fmd) : Prop :=
  (∃ m ∈ nh.recipients env pkt e,
    (copyVxlan env (pkt.entered e.src) e.label m).isSome = true) → e.label = fmd.fmdLabel

/-- What a packet and a tree have to be like. -/
def Fit (pkt : Packet) (nh : Tree) (head : PktSrc → Head) (fmd : Fmd) : Prop :=
  ∀ e, replicated env pkt nh head fmd = some e →
    LabelKept env pkt nh e fmd ∧ nh.Orderly env pkt e

end

variable {env : Env} {pkt : Packet} {nh : Tree} {head : PktSrc → Head} {fmd : Fmd} {e : Entry}
  {m : Member} {copy : Copy} {c : Composite} {i : ℕ} {kind : Kind} {recs : List Member} {s : Run}

/-! ### Copies and recipients -/

theorem mem_trace_of_sent (h : (m, copy) ∈ s.sent) : ∃ id, Event.output id m copy ∈ s.trace := by
  obtain ⟨ev, hev, heq⟩ := List.mem_filterMap.mp h
  cases ev with
  | output id m' c' =>
    obtain ⟨rfl, rfl⟩ : m' = m ∧ c' = copy := by simpa [Event.sent] using heq
    exact ⟨id, hev⟩
  | freed id => simp [Event.sent] at heq
  | trapped id => simp [Event.sent] at heq
  | taken id => simp [Event.sent] at heq

/-- The copies are for recipients and as `Right` says, and if nothing fails each of them has one. -/
theorem copies_of_replicated (h : replicated env pkt nh head fmd = some e) :
    (0 ≤ e.label ∧ e.label < 2 ^ 16) ∧
    (∀ id m c, Event.output id m c ∈ (replicate env pkt nh head fmd).trace →
      m ∈ nh.recipients env pkt e ∧ nh.Right env (pkt.entered e.src) e m c) ∧
    (NoFail env → ∀ m ∈ nh.recipients env pkt e, ∃ id c,
      Event.output id m c ∈ (replicate env pkt nh head fmd).trace ∧
        nh.Right env (pkt.entered e.src) e m c) := by
  obtain ⟨hnone, -, -⟩ | ⟨tun, e', s, -, hsome, hsrc, hpos, hs, hrun⟩ :=
    replicate_cases env pkt nh head fmd
  · simp [hnone] at h
  obtain rfl : e' = e := Option.some.inj (hsome.symm.trans h)
  obtain ⟨lost, hdid, -⟩ := replicate_uses hpos.1 hs hrun
  obtain ⟨outs, hsent, hsub, hall, hgood⟩ := hdid.sent
  have hstart : (arrival fmd).sent = [] := rfl
  rw [hstart, List.nil_append] at hsent
  rw [← hsrc] at hgood
  refine ⟨hpos, fun id m c hout => ?_, fun hno m hm => ?_⟩
  · have hmem := mem_sent hout
    rw [hsent] at hmem
    exact ⟨hsub.subset (List.mem_map_of_mem hmem), hgood _ hmem⟩
  · rw [← hall hno] at hm
    obtain ⟨⟨m', c⟩, hmem, rfl⟩ := List.mem_map.mp hm
    obtain ⟨id, hout⟩ := mem_trace_of_sent (hsent ▸ hmem)
    exact ⟨id, c, hout, hgood _ hmem⟩

theorem Composite.recipients_entered (c : Composite) (pkt : Packet) (src : PktSrc) :
    c.recipients env (pkt.entered src) e kind i = c.recipients env pkt e kind i := by
  unfold Packet.entered Packet.withSrc
  split_ifs <;> rfl

theorem Composite.recipients_sublist (c : Composite) :
    List.Sublist (c.recipients env pkt e kind i) (c.members kind i) :=
  List.filter_sublist.trans (List.takeWhile_sublist _)

theorem Composite.recipients_nodup (c : Composite) : (c.recipients env pkt e kind i).Nodup :=
  List.Nodup.of_map Member.slot ((c.recipients_sublist.map _).nodup (members_nodup c kind i))

theorem mem_recipients (hc : (some c, i) ∈ nh.components.zipIdx) (hvalid : c.valid = true)
    (hkind : c.kind = some kind) (hm : m ∈ c.recipients env pkt e kind i) :
    m ∈ nh.recipients env pkt e := by
  refine List.mem_flatMap.mpr ⟨_, hc, ?_⟩
  unfold recipientsAt
  simpa [hkind, hvalid] using hm

/-- A copy for a member of this composite is a copy of this composite. -/
theorem served_of_right (hc : (some c, i) ∈ nh.components.zipIdx)
    (hm : m ∈ c.recipients env pkt e kind i) (hkind : kind ≠ .fabric)
    (h : nh.Right env (pkt.entered e.src) e m copy) :
    Served env (c.recipients env pkt e kind i) (e.start kind c) m copy := by
  obtain ⟨hmkind, -, -, hslot⟩ := mem_members (c.recipients_sublist.subset hm)
  obtain ⟨c', i', hc', -, -, -, hright⟩ := h
  rw [if_neg (hmkind ▸ hkind), hmkind, Composite.recipients_entered] at hright
  have hi : i' = i := by
    obtain ⟨pre, post, served, hrecs, -⟩ := hright
    have hm' : m ∈ c'.recipients env pkt e kind i' := by simp [hrecs]
    rw [← hslot, (mem_members (c'.recipients_sublist.subset hm')).2.2.2]
  subst hi
  rw [List.mem_zipIdx_iff_getElem?] at hc hc'
  obtain rfl : c' = c := Option.some.inj (Option.some.inj (hc'.symm.trans hc))
  exact hright

/-! ### Trees that fit -/

theorem leftBy_append (start : Fmd) (served : List Member) (m : Member) :
    leftBy env start (served ++ [m]) =
      env.leaf.leaves m.nh (m.addressed env (leftBy env start served)) := by
  simp [leftBy]

theorem addressed_label (m : Member) (fmd : Fmd) :
    (m.addressed env fmd).fmdLabel = copyLabel fmd.fmdLabel m := by
  unfold Member.addressed copyLabel
  rw [setDvrf_label]
  split_ifs <;> rfl

theorem leftBy_label (start : Fmd) {served : List Member}
    (h : ∀ x ∈ served, x.kind = .encap ∧ x.nh.nhType = .encap) :
    (leftBy env start served).fmdLabel = start.fmdLabel := by
  induction served using List.reverseRecOn with
  | nil => rfl
  | append_singleton served x ih =>
    have hx := h x (by simp)
    rw [leftBy_append, env.leaf.encap _ _ hx.2, addressed_label, copyLabel, if_pos hx.1]
    exact ih fun y hy => h y (by simp [hy])

/-- What a member without device gets is the VRF that is left. -/
theorem addressed_vrf_of_none (h : m.nh.firstDev = none) (fmd : Fmd) :
    (m.addressed env fmd).fmdDvrf = fmd.fmdDvrf := by
  unfold Member.addressed setDvrf
  rw [h]
  split_ifs <;> rfl

theorem addressed_vrf_of_some {dev : VifPtr} (h : m.nh.firstDev = some dev) (fmd : Fmd) :
    (m.addressed env fmd).fmdDvrf = (env.vif dev).vifVrf := by
  unfold Member.addressed setDvrf
  rw [h]

theorem start_vrf (hm : m ∈ c.members kind i) (h : m.nh.firstDev = none) :
    (e.start kind c).fmdDvrf = copyVrf env e.vrf m := by
  obtain ⟨hkind, -, hvrf, -⟩ := mem_members hm
  unfold copyVrf Entry.start
  rw [h, hkind, hvrf]

theorem served_right (horderly : c.Orderly env pkt e kind i)
    (h : Served env (c.recipients env pkt e kind i) (e.start kind c) m copy) :
    copy.label = copyLabel e.label m ∧ copy.vrf = copyVrf env e.vrf m := by
  obtain ⟨pre, post, served, hrecs, hsub, -, hlabel, hvrf⟩ := h
  obtain ⟨hdevs, htypes⟩ := horderly
  rw [hrecs] at hdevs htypes
  have hmembers : ∀ x ∈ pre ++ m :: post, x ∈ c.members kind i := fun x hx =>
    c.recipients_sublist.subset (hrecs ▸ hx)
  have hm := hmembers m (by simp)
  constructor
  · rw [hlabel, addressed_label]
    by_cases hencap : kind = .encap
    · rw [leftBy_label]
      · rfl
      · intro x hx
        have hpre := hsub.subset hx
        have hdrop : x ∈ (pre ++ m :: post).dropLast := by
          rw [List.dropLast_append_of_ne_nil (by simp)]
          exact List.mem_append_left _ hpre
        exact ⟨(mem_members (hmembers x (by simp [hpre]))).1.trans hencap, htypes hencap x hdrop⟩
    · unfold copyLabel
      rw [if_neg ((mem_members hm).1 ▸ hencap), if_neg ((mem_members hm).1 ▸ hencap)]
  · rw [hvrf]
    cases hdev : m.nh.firstDev with
    | some dev =>
      rw [addressed_vrf_of_some hdev]
      unfold copyVrf
      rw [hdev]
    | none =>
      -- then the member is the first one
      have hpre : pre = [] := by
        cases pre with
        | nil => rfl
        | cons x pre => simpa [hdev] using hdevs m (by simp)
      subst hpre
      obtain rfl := List.sublist_nil.mp hsub
      rw [addressed_vrf_of_none hdev]
      exact start_vrf hm hdev

theorem Fit.copiesRight (h : Fit env pkt nh head fmd) : CopiesRight env pkt nh head fmd := by
  intro e he id m copy hout
  obtain ⟨hkept, horderly⟩ := h e he
  obtain ⟨hpos, hcopies, -⟩ := copies_of_replicated he
  obtain ⟨hm, hright⟩ := hcopies id m copy hout
  have hids : ∀ v, copy.vxlan = some v → v = fmd.fmdLabel ∧ 0 ≤ fmd.fmdLabel := by
    intro v hv
    obtain ⟨-, -, -, -, -, hvxlan, -⟩ := hright
    have hlabel := hkept ⟨m, hm, by rw [← hvxlan, hv]; rfl⟩
    rw [hv] at hvxlan
    unfold copyVxlan at hvxlan
    split_ifs at hvxlan
    obtain rfl := Option.some.inj hvxlan
    omega
  obtain ⟨c, i, hc, hvalid, hkind, hvxlan, hcopy⟩ := hright
  by_cases hfabric : m.kind = .fabric
  · rw [if_pos hfabric] at hcopy
    exact ⟨by simp [hcopy.1, copyLabel, hfabric], hcopy.2, hids⟩
  · rw [if_neg hfabric, Composite.recipients_entered] at hcopy
    have hboth := served_right (horderly c i m.kind hc hvalid hkind hfabric) hcopy
    exact ⟨hboth.1, hboth.2, hids⟩

/-! ### Trees that do not -/

/-- Members that leave the given VRF and, but for those that transmit, the given label. -/
def spoilt (label : ℤ) (vrf : BitVec 16) : Leaf where
  leaves nh fmd := ⟨if nh.nhType = .encap then fmd.fmdLabel else label, vrf, false⟩
  encap _ _ h := if_pos h

/-- The copy for a recipient is the right one, whatever is left by those before it. -/
theorem recipient_addressed (hno : NoFail env) (he : replicated env pkt nh head fmd = some e)
    (h : ∀ leaf, CopiesRight (env.withLeaf leaf) pkt nh head fmd) {c : Composite} {i : ℕ}
    {kind : Kind} (hc : (some c, i) ∈ nh.components.zipIdx) (hvalid : c.valid = true)
    (hkind : c.kind = some kind) (hfabric : kind ≠ .fabric) (leaf : Leaf) {m : Member}
    (hm : m ∈ c.recipients env pkt e kind i) :
    ∃ pre post fmd, c.recipients env pkt e kind i = pre ++ m :: post ∧
      fmd = leftBy (env.withLeaf leaf) (e.start kind c) pre ∧
      (m.addressed env fmd).fmdLabel = copyLabel e.label m ∧
      (m.addressed env fmd).fmdDvrf = copyVrf env e.vrf m := by
  have he' : replicated (env.withLeaf leaf) pkt nh head fmd = some e := he
  have hm' : m ∈ c.recipients (env.withLeaf leaf) pkt e kind i := hm
  obtain ⟨id, copy, hout, hright⟩ :=
    (copies_of_replicated he').2.2 hno m (mem_recipients hc hvalid hkind hm)
  obtain ⟨pre, post, served, hrecs, -, hall, hlabel, hvrf⟩ := served_of_right hc hm' hfabric hright
  obtain rfl := hall hno
  obtain ⟨hcopy, hcopy', -⟩ := h leaf e he' id m copy hout
  exact ⟨served, post, _, hrecs, rfl, hlabel.symm.trans hcopy, hvrf.symm.trans hcopy'⟩

/-- If copies are right whatever members leave behind, the composites are orderly. -/
theorem orderly_of_copiesRight (hno : NoFail env) (he : replicated env pkt nh head fmd = some e)
    (h : ∀ leaf, CopiesRight (env.withLeaf leaf) pkt nh head fmd) : nh.Orderly env pkt e := by
  intro c i kind hc hvalid hkind hfabric
  have hcopy := recipient_addressed hno he h hc hvalid hkind hfabric
  have hnodup : (c.recipients env pkt e kind i).Nodup := c.recipients_nodup
  constructor
  · intro m hm
    by_contra hdev
    rw [Bool.not_eq_true, Option.isSome_eq_false_iff, Option.isNone_iff_eq_none] at hdev
    obtain ⟨pre, post, fmd, hrecs, rfl, -, hvrf⟩ :=
      hcopy (spoilt 0 (copyVrf env e.vrf m + 1)) (List.mem_of_mem_tail hm)
    rw [addressed_vrf_of_none hdev] at hvrf
    induction pre using List.reverseRecOn with
    | nil =>
      rw [hrecs, List.nil_append] at hm hnodup
      exact (List.nodup_cons.mp hnodup).1 hm
    | append_singleton pre x =>
      rw [leftBy_append] at hvrf
      have hne : copyVrf env e.vrf m + 1 ≠ copyVrf env e.vrf m := by simp
      exact hne hvrf
  · intro hencap m hm
    by_contra htype
    obtain ⟨p, q, hsplit⟩ := List.append_of_mem hm
    have hne : c.recipients env pkt e kind i ≠ [] := fun hnil => by simp [hnil] at hm
    obtain ⟨x, q', hq⟩ : ∃ x q', q ++ [(c.recipients env pkt e kind i).getLast hne] = x :: q' :=
      List.exists_cons_of_ne_nil (by simp)
    have hrecs : c.recipients env pkt e kind i = (p ++ [m]) ++ x :: q' := by
      rw [← List.dropLast_append_getLast hne, hsplit, ← hq]
      simp
    obtain ⟨pre, post, fmd, hrecs', rfl, hlabel, -⟩ :=
      hcopy (spoilt (e.label + 1) 0) (show x ∈ _ by simp [hrecs])
    obtain rfl : pre = p ++ [m] := by
      rw [hrecs', List.nodup_middle, List.nodup_cons, List.mem_append, not_or] at hnodup
      exact ((List.append_cons_inj_of_notMem hnodup.1.1 hnodup.1.2).mp
        (hrecs'.symm.trans hrecs)).1
    have hx : x.kind = .encap := by
      have hxmem : x ∈ c.recipients env pkt e kind i := by simp [hrecs]
      exact (mem_members (c.recipients_sublist.subset hxmem)).1.trans hencap
    rw [addressed_label, leftBy_append, copyLabel, copyLabel, if_pos hx, if_pos hx] at hlabel
    have hleft : ∀ fmd, ((spoilt (e.label + 1) 0).leaves m.nh fmd).fmdLabel = e.label + 1 :=
      fun fmd => if_neg htype
    have := (hleft _).symm.trans hlabel
    omega

/-- **Copies carry the right ids.**  If the label that is kept is that of the packet, or no copy gets
a VXLAN header, and the composites are orderly, every copy goes with the label and the VRF of its
member and with the id of the packet.  When nothing fails and whatever members leave in the
metadata, there is no other case. -/
theorem copies_labelled (env : Env) (pkt : Packet) (nh : Tree) (head : PktSrc → Head) (fmd : Fmd) :
    (Fit env pkt nh head fmd → CopiesRight env pkt nh head fmd) ∧
    (NoFail env → ((∀ leaf, CopiesRight (env.withLeaf leaf) pkt nh head fmd) ↔
      Fit env pkt nh head fmd)) := by
  refine ⟨Fit.copiesRight, fun hno => ⟨fun h e he => ⟨?_, orderly_of_copiesRight hno he h⟩,
    fun hfit leaf => ?_⟩⟩
  · rintro ⟨m, hm, hvxlan⟩
    obtain ⟨hpos, -, hcopies⟩ := copies_of_replicated he
    obtain ⟨id, copy, hout, -, -, -, -, -, hcopy, -⟩ := hcopies hno m hm
    unfold copyVxlan at hcopy hvxlan
    split_ifs at hcopy hvxlan with hgets
    · have hid := (h env.leaf e he id m copy hout).2.2 _ hcopy
      omega
    · simp at hvxlan
  · have hfit' : Fit (env.withLeaf leaf) pkt nh head fmd := hfit
    exact hfit'.copiesRight

/-- Two hosts behind the fabric and two behind EVPN. -/
def fourTunnels : Tree where
  nhFamily := .bridge
  components := [some ⟨true, some .fabric, .bridge, 7, false, false,
      [⟨some (tunnelTo 9), 300⟩, ⟨some (tunnelTo 10), 310⟩]⟩,
    some ⟨true, some .evpn, .bridge, 7, false, false,
      [⟨some (tunnelTo 11), 20⟩, ⟨some (tunnelTo 12), 21⟩]⟩]

theorem copies_labelled_broadcast :
    (replicate calm vmPacket fourTunnels flooded ⟨5000, 1, false⟩).sent.map (fun x => x.2) =
      [⟨300, 0, some 5000⟩, ⟨310, 0, some 5000⟩, ⟨20, 0, none⟩, ⟨21, 0, none⟩] ∧
    CopiesRight calm vmPacket fourTunnels flooded ⟨5000, 1, false⟩ := by
  refine ⟨by decide, (copies_labelled _ _ _ _ _).1 fun e he => ?_⟩
  have hentry : replicated calm vmPacket fourTunnels flooded ⟨5000, 1, false⟩ =
      some ⟨.vm, true, 0, true, false, 5000, 1⟩ := by decide
  obtain rfl := Option.some.inj (hentry.symm.trans he)
  refine ⟨fun _ => rfl, fun c i kind hc _ hkind hfabric => ?_⟩
  simp only [fourTunnels, List.zipIdx_cons, List.zipIdx_nil, List.mem_cons, List.not_mem_nil,
    or_false, Prod.mk.injEq, Option.some.injEq] at hc
  obtain ⟨rfl, rfl⟩ | ⟨rfl, rfl⟩ := hc
  · exact absurd (Option.some.inj hkind).symm hfabric
  · obtain rfl := Option.some.inj hkind
    exact ⟨by decide, by decide⟩

/-- A PBB tunnel has no device of its own. -/
def pbbTunnel : Nexthop where
  valid := true
  nhType := .tunnel
  nhDevArr := fun _ => none

/-- A packet behind a PBB header, whose source address is known with the label 77. -/
def learnt (_ : PktSrc) : Head :=
  ⟨some (.header (some ⟨some ⟨some 77, false, true⟩, none, false⟩)), .flood true false⟩

/-- The label of a packet is kept in 16 bits while its copies are made.  Without a label, a copy
gets the VXLAN id 65535; with the label 65541 it gets the id 5.  When the source address is looked
up, the label that is found there replaces that of the packet.  A member without device gets the VRF
of the member before it. -/
theorem vxlanId_truncated :
    (replicate calm vmPacket (oneTunnel .fabric) flooded ⟨-1, 1, false⟩).sent.map
      (fun x => x.2.vxlan) = [some 65535] ∧
    (replicate calm vmPacket (oneTunnel .fabric) flooded ⟨65541, 1, false⟩).sent.map
      (fun x => x.2.vxlan) = [some 5] ∧
    (replicate calm vmPacket (oneTunnel .fabric) learnt ⟨5000, 1, false⟩).sent.map
      (fun x => x.2.vxlan) = [some 77] ∧
    (replicate calm vmPacket
      (bridgeTree .evpn [⟨some pbbTunnel, 20⟩, ⟨some (tunnelTo 9), 300⟩]) flooded
      ⟨5, 1, false⟩).sent.map (fun x => x.2) = [⟨20, 7, none⟩, ⟨300, 0, none⟩] ∧
    (replicate calm vmPacket
      (bridgeTree .evpn [⟨some (tunnelTo 9), 300⟩, ⟨some pbbTunnel, 20⟩]) flooded
      ⟨5, 1, false⟩).sent.map (fun x => x.2) = [⟨300, 0, none⟩, ⟨20, 0, none⟩] := by
  decide

end Vrouter.Mcast
