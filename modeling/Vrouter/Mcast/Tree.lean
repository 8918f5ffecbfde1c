import Vrouter.Mcast.Members

/-! # Replication through a multicast tree

The whole of `nh_composite_mcast`.  Every packet it makes has one fate, as long as there is room for
control data where there are any; the members that are to get a copy get it; and every copy goes
with the metadata of `Right`. -/

namespace Vrouter.Mcast

open Vrouter.Lib Nh

variable (env : Env)

/-! ### What is expected of a tree -/

/-- The members of one component. -/
def membersAt : Option Composite × ℕ → List Member
  | (none, _) => []
  | (some c, i) =>
    match c.kind with
    | none => []
    | some kind => if c.valid then c.members kind i else []

def Tree.members (nh : Tree) : List Member := nh.components.zipIdx.flatMap membersAt

/-- The members of one component that are to get a copy. -/
def recipientsAt (pkt : Packet) (e : Entry) : Option Composite × ℕ → List Member
  | (none, _) => []
  | (some c, i) =>
    match c.kind with
    | none => []
    | some kind => if c.valid then c.recipients env pkt e kind i else []

def Tree.recipients (nh : Tree) (pkt : Packet) (e : Entry) : List Member :=
  nh.components.zipIdx.flatMap (recipientsAt env pkt e)

/-- The copy for a member is the one of its composite. -/
def Tree.Right (nh : Tree) (pkt : Packet) (e : Entry) (m : Member) (copy : Copy) : Prop :=
  ∃ c i, (some c, i) ∈ nh.components.zipIdx ∧ c.valid = true ∧ c.kind = some m.kind ∧
    Mcast.Right env pkt e c i m copy

/-- The local variables for a packet that is replicated. -/
def replicated (pkt : Packet) (nh : Tree) (head : PktSrc → Head) (fmd : Fmd) : Option Entry :=
  match nhCompositeMcastValidateSrc env pkt nh with
  | none => none
  | some tun =>
    let before := if nh.nhFamily = .bridge then
        beforeFlood env (head tun.pktSrc) (Packet.withSrc { pkt with id := 0 } tun.pktSrc)
          (arrival fmd)
      else (some (0, true), arrival fmd)
    match before with
    | (none, _) => none
    | (some flood, s) => some (entryOf nh tun flood fmd.fmdDvrf s.fmd)

/-- A packet comes to the tree as the only one there is. -/
def replicate (pkt : Packet) (nh : Tree) (head : PktSrc → Head) (fmd : Fmd) : Run :=
  nhCompositeMcast env { pkt with id := 0 } nh head (arrival fmd)

variable {env} {pkt : Packet} {e : Entry} {s : Run} {good : Member → Copy → Prop}

/-! ### The rounds of the loop -/

variable {want : List Member} {safe : Prop} {clone : Packet} {nh : Tree} {m : Member}

theorem pullAndOutput_round {len : ℕ} {go : Run → Run} {I : Run → Prop} (hI : ∀ s, I s)
    (h : ∀ s' : Run, s'.fmd = s.fmd → Uses env good safe want [clone.id] s' (go s')) :
    Round env good safe want [clone.id] I s (pullAndOutput env len clone s go) := by
  have hgo : ∀ s', s'.fmd = s.fmd → Round env good safe want [clone.id] I s' (true, go s') :=
    fun s' hfmd => ⟨h s' hfmd, fun _ => rfl, fun _ => hI _⟩
  unfold pullAndOutput pktPull
  by_cases hlen : len = 0
  · rw [if_pos hlen]
    exact hgo s rfl
  · rw [if_neg hlen]
    cases hfails : env.fails s.clock .pull with
    | true => exact (Round.stop Did.free hfails).after (Did.quiet rfl rfl)
    | false => exact (hgo s.tick rfl).after (Did.quiet rfl rfl)

theorem recipients_eq_nil {c : Composite} {kind : Kind} {i : ℕ}
    (h : ∀ m : Member, m.kind = kind → eligible env pkt e m = false) :
    c.recipients env pkt e kind i = [] := by
  refine List.filter_eq_nil_iff.mpr fun m hm => ?_
  have hmem := (List.takeWhile_sublist _).subset hm
  simp [h m (mem_members hmem).1]

theorem Round.pass (hwant : want = []) (fmd : Fmd) :
    Round env good safe want [] (fun _ => True) s (true, { s with fmd := fmd }) :=
  hwant ▸ Round.go (Did.quiet rfl rfl) trivial

theorem Uses.of_fmd {s' : Run} (fmd : Fmd)
    (h : Uses env good safe want [clone.id] { s with fmd := fmd } s') :
    Uses env good safe want [clone.id] s s' :=
  h.after (Did.quiet rfl rfl)

theorem Round.handed {s' : Run} (fmd : Fmd)
    (h : Uses env good safe want [clone.id] { s with fmd := fmd } s') :
    Round env good safe want [clone.id] (fun _ => True) s (true, s') := by
  exact ⟨h.of_fmd fmd, fun _ => rfl, fun _ => trivial⟩

/-- What is done to a clone of the packet is done for the packet. -/
theorem Round.cloned {c : Composite} {kind : Kind} {i : ℕ} {I : Run → Prop} {s₀ : Run}
    {go : Packet → Run → Bool × Run}
    (hquiet : Did env (Mcast.Right env pkt e c i) [] [] [] s₀ s)
    (h : ∀ clone s', s'.fmd = s.fmd → Round env (Mcast.Right env clone e c i) safe
      (c.recipients env clone e kind i) [clone.id] I s' (go clone s')) :
    Round env (Mcast.Right env pkt e c i) safe (c.recipients env pkt e kind i) [] I s₀
      (Mcast.withClone env pkt s go) := by
  refine (Round.withClone fun clone s' hclone hfmd => ?_).after hquiet
  subst hclone
  exact h { pkt with id := s.next } s' hfmd

theorem mcastBody_some {family : NhFamily} {c : Composite} {i : ℕ} (hpos : 0 ≤ e.label)
    (hfails : e.l2ControlData = true → ∀ n, env.fails n .controlPush = true → ¬ safe) :
    Round env (Mcast.Right env pkt e c i) safe (recipientsAt env pkt e (some c, i)) []
      (fun _ => True) s (mcastBody env pkt family e (some c, i) s) := by
  unfold mcastBody recipientsAt
  dsimp only
  by_cases hvalid : c.valid = true
  swap
  · rw [if_pos (by simpa using hvalid)]
    refine Round.pass ?_ _
    cases c.kind with
    | none => rfl
    | some kind => exact if_neg hvalid
  rw [if_neg (by simpa using hvalid)]
  cases hkind : c.kind with
  | none => exact Round.pass rfl _
  | some kind =>
    dsimp only
    rw [if_pos hvalid]
    cases kind with
    | encap =>
      dsimp only
      by_cases hvms : e.floodToVms = true
      · rw [if_neg (by simpa using hvms)]
        refine Round.cloned (Did.quiet rfl rfl) fun clone s' hfmd => ?_
        refine pullAndOutput_round (fun _ => trivial) fun s'' hfmd' => ?_
        exact nhCompositeEncap_did hvms (by rw [hfmd', hfmd]; rfl)
      · rw [if_pos (by simpa using hvms)]
        exact Round.pass (recipients_eq_nil fun m hm => by simp [eligible, hm, hvms]) _
    | fabric =>
      dsimp only
      split_ifs with hsrc
      · exact Round.pass (recipients_eq_nil fun m hm => by simp [eligible, hm, hsrc]) _
      · refine Round.cloned (Did.quiet rfl rfl) fun clone s' hfmd => ?_
        exact Round.handed { s'.fmd with fmdDvrf := c.nhVrf }
          (nhCompositeFabric_did hsrc (by rw [hfmd]) hpos rfl)
    | evpn =>
      dsimp only
      split_ifs with hsrc
      · exact Round.pass (recipients_eq_nil fun m hm => by simp [eligible, hm, hsrc]) _
      · refine Round.cloned (Did.quiet rfl rfl) fun clone s' hfmd => ?_
        exact Round.handed ⟨s'.fmd.fmdLabel, c.nhVrf, e.l2ControlData⟩
          (nhCompositeEvpn_did (by tauto) (by rw [hfmd]; rfl) hfails)
    | tor =>
      refine Round.cloned (Did.quiet rfl rfl) fun clone s' hfmd => ?_
      refine pullAndOutput_round (fun _ => trivial) fun s'' hfmd' => ?_
      exact Uses.of_fmd { s''.fmd with fmdDvrf := c.nhVrf }
        (nhCompositeTor_did (by rw [hfmd', hfmd]; rfl))

theorem of_mem_recipientsAt {c : Composite} {i : ℕ} (h : m ∈ recipientsAt env pkt e (some c, i)) :
    c.valid = true ∧ c.kind = some m.kind ∧ m ∈ c.recipients env pkt e m.kind i := by
  unfold recipientsAt at h
  dsimp only at h
  cases hkind : c.kind with
  | none => simp [hkind] at h
  | some kind =>
    rw [hkind] at h
    dsimp only at h
    split_ifs at h with hvalid
    · have hm : m ∈ c.members kind i :=
        (List.takeWhile_sublist _).subset (List.mem_of_mem_filter h)
      rw [(mem_members hm).1]
      exact ⟨hvalid, rfl, h⟩
    · simp at h

/-! ### The whole tree -/

theorem mcastLoop_did (pkt : Packet) (s : Run) (hpos : 0 ≤ e.label)
    (hfails : e.l2ControlData = true → ∀ n, env.fails n .controlPush = true → ¬ safe) :
    Uses env (nh.Right env pkt e) safe (nh.recipients env pkt e) [pkt.id] s
      (mcastLoop env pkt nh e s) := by
  have hround : ∀ x ∈ nh.components.zipIdx, ∀ s,
      Round env (nh.Right env pkt e) safe (recipientsAt env pkt e x) [] (fun _ => True) s
        (mcastBody env pkt nh.nhFamily e x s) := by
    rintro ⟨_ | c, i⟩ hx s
    · exact Round.pass rfl _
    · refine Round.mono (mcastBody_some hpos hfails) fun m hm copy h => ?_
      exact ⟨c, i, hx, (of_mem_recipientsAt hm).1, (of_mem_recipientsAt hm).2.1, h⟩
  exact (Round.loop_all _ hround).free

/-! ### Before the packet is replicated -/

/-- The packet is with someone else, because of what it is or because its source address was to be
learnt. -/
def Head.Takes (head : Head) : Prop :=
  head.verdict = .handled ∨ ∃ learn, head.pbb = some (.header (some learn)) ∧ learn.trap = true

/-- How a packet that is not replicated ends: it is freed, or someone else has it. -/
structure Ended (env : Env) (head : Head) (pkt : Packet) (s s' : Run) : Prop where
  did : ∀ good, Did env good [] [pkt.id] [] s s'
  fate : Event.freed pkt.id ∈ s'.trace ∨
    (Event.taken pkt.id ∈ s'.trace ∨ Event.trapped pkt.id ∈ s'.trace) ∧ head.Takes

theorem trapAdvertisement_did (trapCopy : Bool) :
    Did env good [] [] [] s (trapAdvertisement env trapCopy pkt s) := by
  unfold trapAdvertisement
  split_ifs
  · exact Did.quiet rfl rfl
  · obtain ⟨s', n, op, heq, hdid, -⟩ | ⟨s', heq, -, hdid⟩ := nhMcastClone_cases env pkt s
    · rw [heq]
      exact hdid good
    · rw [heq]
      exact (hdid good).trans (Did.emit (e := .trapped s.next) rfl)

theorem mem_emit (s : Run) (ev : Event) : ev ∈ (s.emit ev).trace :=
  List.mem_append_right _ (List.mem_singleton_self _)

theorem Ended.emit {head : Head} {s' : Run} {ev : Event} (hid : ev.id = pkt.id)
    (hsent : ev.sent = none) (hs : ∀ good, Did env good [] [] [] s s')
    (hfate : ev = .freed pkt.id ∨ (ev = .taken pkt.id ∨ ev = .trapped pkt.id) ∧ head.Takes) :
    Ended env head pkt s (s'.emit ev) where
  did good := by
    have hemit : Did env good [] [ev.id] [] s' (s'.emit ev) := .emit hsent
    rw [hid] at hemit
    exact ((hs good).frame [pkt.id]).trans hemit
  fate := by
    have hmem := mem_emit s' ev
    obtain rfl | ⟨rfl | rfl, htakes⟩ := hfate
    · exact .inl hmem
    · exact .inr ⟨.inl hmem, htakes⟩
    · exact .inr ⟨.inr hmem, htakes⟩

theorem vrBridgeLearn_cases (env : Env) {head : Head} {learn : Learn}
    (hhead : head.pbb = some (.header (some learn))) (pkt : Packet) (s : Run) :
    (∃ s', vrBridgeLearn env learn pkt s = (true, s') ∧ Ended env head pkt s s') ∨
    ∃ s', vrBridgeLearn env learn pkt s = (false, s') ∧ ∀ good, Did env good [] [] [] s s' := by
  unfold vrBridgeLearn
  dsimp only
  split_ifs with hquiet
  · exact .inr ⟨_, rfl, fun _ => Did.quiet rfl rfl⟩
  have htrap : learn.trap = true := by
    rw [Bool.not_eq_true, Bool.or_eq_false_iff] at hquiet
    simpa using hquiet.2
  obtain ⟨s', n, op, heq, hdid, -⟩ | ⟨s', heq, -, hdid⟩ :=
    nhMcastClone_cases env pkt { s with fmd := learn.lookups s.fmd }
  · rw [heq]
    exact .inl ⟨_, rfl, Ended.emit rfl rfl (fun good => ⟨(hdid good).owned, (hdid good).sent⟩)
      (.inr ⟨.inr rfl, .inr ⟨learn, hhead, htrap⟩⟩)⟩
  · rw [heq]
    have hlookups : ∀ good, Did env good [] [] [] s { s with fmd := learn.lookups s.fmd } :=
      fun _ => Did.quiet rfl rfl
    exact .inr ⟨_, rfl, fun good => (hlookups good).trans
      ((hdid good).trans (Did.emit (e := .trapped s.next) rfl))⟩

theorem decodePbb_cases (env : Env) (head : Head) (pkt : Packet) (s : Run) :
    (∃ s', decodePbb env head.pbb pkt s = (none, s') ∧ Ended env head pkt s s') ∨
    ∃ len s', decodePbb env head.pbb pkt s = (some len, s') ∧
      ∀ good, Did env good [] [] [] s s' := by
  have hquiet : ∀ good, Did env good [] [] [] s s := fun _ => Did.quiet rfl rfl
  unfold decodePbb
  cases hpbb : head.pbb with
  | none => exact .inr ⟨_, _, rfl, hquiet⟩
  | some pbb =>
    cases pbb with
    | invalid => exact .inl ⟨_, rfl, Ended.emit rfl rfl hquiet (.inl rfl)⟩
    | header learn =>
      cases learn with
      | none => exact .inr ⟨_, _, rfl, hquiet⟩
      | some learn =>
        dsimp only
        obtain ⟨s', heq, hended⟩ | ⟨s', heq, hdid⟩ := vrBridgeLearn_cases env hpbb pkt s
        · rw [heq]
          exact .inl ⟨_, rfl, hended⟩
        · rw [heq]
          exact .inr ⟨_, _, rfl, hdid⟩

theorem beforeFlood_cases (env : Env) (head : Head) (pkt : Packet) (s : Run) :
    (∃ s', beforeFlood env head pkt s = (none, s') ∧ Ended env head pkt s s') ∨
    ∃ flood s', beforeFlood env head pkt s = (some flood, s') ∧
      ∀ good, Did env good [] [] [] s s' := by
  unfold beforeFlood
  obtain ⟨s', heq, hended⟩ | ⟨len, s', heq, hdid⟩ := decodePbb_cases env head pkt s
  · rw [heq]
    exact .inl ⟨_, rfl, hended⟩
  · rw [heq]
    dsimp only
    cases hverdict : head.verdict with
    | handled =>
      exact .inl ⟨_, rfl, Ended.emit rfl rfl hdid (.inr ⟨.inl rfl, .inl hverdict⟩)⟩
    | flood toVms trapCopy =>
      exact .inr ⟨_, _, rfl, fun good => (hdid good).trans (trapAdvertisement_did trapCopy)⟩

theorem withSrc_id (pkt : Packet) (src : PktSrc) : (pkt.withSrc src).id = pkt.id := by
  unfold Packet.withSrc
  split_ifs <;> rfl

theorem recipients_withSrc (nh : Tree) (pkt : Packet) (src : PktSrc) (n : ℕ) :
    nh.recipients env (Packet.withSrc { pkt with id := n } src) e = nh.recipients env pkt e := by
  unfold Packet.withSrc
  split_ifs <;> rfl

/-- The packet that goes through the tree. -/
def Packet.entered (pkt : Packet) (src : PktSrc) : Packet := Packet.withSrc { pkt with id := 0 } src

/-- **A packet in a tree**: it ends before it is replicated, or it goes through the tree. -/
theorem replicate_cases (env : Env) (pkt : Packet) (nh : Tree) (head : PktSrc → Head) (fmd : Fmd) :
    (replicated env pkt nh head fmd = none ∧
      (∀ good, Did env good [] [0] [] (arrival fmd) (replicate env pkt nh head fmd)) ∧
      (Event.freed 0 ∈ (replicate env pkt nh head fmd).trace ∨
        (Event.taken 0 ∈ (replicate env pkt nh head fmd).trace ∨
          Event.trapped 0 ∈ (replicate env pkt nh head fmd).trace) ∧
        ∃ tun, nhCompositeMcastValidateSrc env pkt nh = some tun ∧ (head tun.pktSrc).Takes)) ∨
    ∃ tun e s, nhCompositeMcastValidateSrc env pkt nh = some tun ∧
      replicated env pkt nh head fmd = some e ∧ e.src = tun.pktSrc ∧
      (0 ≤ e.label ∧ e.label < 2 ^ 16) ∧
      (∀ good, Did env good [] [] [] (arrival fmd) s) ∧
      replicate env pkt nh head fmd = mcastLoop env (pkt.entered tun.pktSrc) nh e s := by
  have hsrc : nhCompositeMcastValidateSrc env { pkt with id := 0 } nh =
      nhCompositeMcastValidateSrc env pkt nh := rfl
  unfold replicated replicate nhCompositeMcast
  rw [hsrc]
  cases hvalid : nhCompositeMcastValidateSrc env pkt nh with
  | none => exact .inl ⟨rfl, fun _ => Did.emit (e := .freed 0) rfl, .inl (mem_emit _ _)⟩
  | some tun =>
    dsimp only
    have hid : (Packet.withSrc { pkt with id := 0 } tun.pktSrc).id = 0 := withSrc_id _ _
    have hlabel : ∀ fmd : Fmd, 0 ≤ fmd.fmdLabel % 2 ^ 16 ∧ fmd.fmdLabel % 2 ^ 16 < 2 ^ 16 :=
      fun fmd => ⟨Int.emod_nonneg _ (by decide), Int.emod_lt_of_pos _ (by decide)⟩
    by_cases hfamily : nh.nhFamily = .bridge
    · rw [if_pos hfamily]
      obtain ⟨s', heq, hended⟩ | ⟨flood, s', heq, hdid⟩ := beforeFlood_cases env (head tun.pktSrc)
        (Packet.withSrc { pkt with id := 0 } tun.pktSrc) (arrival fmd)
      · rw [heq]
        have hdid := hended.did
        have hfate := hended.fate
        rw [hid] at hdid hfate
        exact .inl ⟨rfl, hdid, hfate.imp_right fun h => ⟨h.1, tun, rfl, h.2⟩⟩
      · rw [heq]
        exact .inr ⟨tun, _, s', rfl, rfl, rfl, hlabel _, hdid, rfl⟩
    · rw [if_neg hfamily]
      exact .inr ⟨tun, _, _, rfl, rfl, rfl, hlabel _, fun _ => Did.quiet rfl rfl, rfl⟩

/-- What a packet that is replicated does to the packets and members of the tree. -/
theorem replicate_uses {head : PktSrc → Head} {fmd : Fmd} {src : PktSrc} (hpos : 0 ≤ e.label)
    (hs : ∀ good, Did env good [] [] [] (arrival fmd) s)
    (hrun : replicate env pkt nh head fmd = mcastLoop env (pkt.entered src) nh e s) :
    Uses env (nh.Right env (pkt.entered src) e)
      (e.l2ControlData = false ∨ ∀ n, env.fails n .controlPush = false) (nh.recipients env pkt e)
      [0] (arrival fmd) (replicate env pkt nh head fmd) := by
  have huses : Uses env (nh.Right env (pkt.entered src) e)
      (e.l2ControlData = false ∨ ∀ n, env.fails n .controlPush = false)
      (nh.recipients env (pkt.entered src) e) [(pkt.entered src).id] s
      (mcastLoop env (pkt.entered src) nh e s) :=
    mcastLoop_did _ s hpos fun hcontrol n hfails hsafe => by simp_all
  rw [← hrun, Packet.entered, recipients_withSrc, withSrc_id] at huses
  exact huses.after ((hs _).frame [0])

/-! ### Recipients -/

theorem recipientsAt_sublist (env : Env) (pkt : Packet) (e : Entry) (x : Option Composite × ℕ) :
    List.Sublist (recipientsAt env pkt e x) ((membersAt x).filter (eligible env pkt e)) := by
  obtain ⟨_ | c, i⟩ := x
  · exact List.nil_sublist _
  · unfold recipientsAt membersAt
    dsimp only
    cases c.kind with
    | none => exact List.nil_sublist _
    | some kind =>
      dsimp only
      split_ifs
      · exact (List.takeWhile_sublist _).filter _
      · exact List.nil_sublist _

theorem recipientsAt_eq {x : Option Composite × ℕ} (h : ∀ m ∈ membersAt x, m.stops = false) :
    recipientsAt env pkt e x = (membersAt x).filter (eligible env pkt e) := by
  obtain ⟨_ | c, i⟩ := x
  · rfl
  · unfold recipientsAt
    unfold membersAt at *
    dsimp only at *
    cases hkind : c.kind with
    | none => rfl
    | some kind =>
      simp only [hkind] at h
      dsimp only
      split_ifs at h ⊢
      · unfold Composite.recipients
        rw [List.takeWhile_eq_self_iff.mpr fun m hm => by simp [h m hm]]
      · rfl

theorem recipients_sublist (env : Env) (nh : Tree) (pkt : Packet) (e : Entry) :
    List.Sublist (nh.recipients env pkt e) (nh.members.filter (eligible env pkt e)) := by
  unfold Tree.recipients Tree.members
  induction nh.components.zipIdx with
  | nil => exact List.nil_sublist _
  | cons x l ih =>
    rw [List.flatMap_cons, List.flatMap_cons, List.filter_append]
    exact (recipientsAt_sublist env pkt e x).append ih

theorem recipients_eq (h : ∀ m ∈ nh.members, m.stops = false) :
    nh.recipients env pkt e = nh.members.filter (eligible env pkt e) := by
  have hall : ∀ l : List (Option Composite × ℕ), (∀ m ∈ l.flatMap membersAt, m.stops = false) →
      l.flatMap (recipientsAt env pkt e) = (l.flatMap membersAt).filter (eligible env pkt e) := by
    intro l hl
    induction l with
    | nil => rfl
    | cons x l ih =>
      rw [List.flatMap_cons] at hl
      rw [List.flatMap_cons, List.flatMap_cons, List.filter_append,
        recipientsAt_eq fun m hm => hl m (List.mem_append_left _ hm),
        ih fun m hm => hl m (List.mem_append_right _ hm)]
  exact hall _ h

theorem mem_membersAt {x : Option Composite × ℕ} (h : m ∈ membersAt x) :
    ∃ c kind, x.1 = some c ∧ membersAt x = c.members kind x.2 := by
  obtain ⟨_ | c, i⟩ := x
  · simp [membersAt] at h
  · unfold membersAt at *
    dsimp only at *
    cases hkind : c.kind with
    | none => simp [hkind] at h
    | some kind =>
      simp only [hkind] at h
      split_ifs at h ⊢
      · exact ⟨c, kind, rfl, rfl⟩
      · simp at h

theorem members_nodup (c : Composite) (kind : Kind) (i : ℕ) :
    ((c.members kind i).map Member.slot).Nodup := by
  have hsub : List.Sublist (((c.members kind i).map Member.slot).map Prod.snd)
      (c.components.zipIdx.map Prod.snd) := by
    unfold Composite.members
    generalize c.components.zipIdx = l
    induction l with
    | nil => simp
    | cons x l ih =>
      cases hx : x.1.cnh with
      | none => simpa [hx] using ih.trans (List.sublist_cons_self _ _)
      | some nh => simpa [hx] using ih
  refine List.Nodup.of_map Prod.snd (hsub.nodup ?_)
  rw [List.zipIdx_map_snd]
  exact List.nodup_range'

theorem membersAt_slot {x : Option Composite × ℕ} (h : m ∈ membersAt x) : m.slot.1 = x.2 := by
  obtain ⟨c, kind, -, heq⟩ := mem_membersAt h
  rw [heq] at h
  exact (mem_members h).2.2.2

/-- Every member has a slot of its own. -/
theorem Tree.members_nodup (nh : Tree) : (nh.members.map Member.slot).Nodup := by
  unfold Tree.members
  rw [List.map_flatMap, List.nodup_flatMap]
  constructor
  · intro x _
    cases hx : membersAt x with
    | nil => simp
    | cons m l =>
      obtain ⟨c, kind, -, heq⟩ := mem_membersAt (hx ▸ List.mem_cons_self : m ∈ membersAt x)
      rw [← hx, heq]
      exact Mcast.members_nodup c kind x.2
  · have hindex : (nh.components.zipIdx.map Prod.snd).Nodup := by
      rw [List.zipIdx_map_snd]
      exact List.nodup_range'
    refine (List.pairwise_map.mp hindex).imp fun {x y} hne p hx hy => ?_
    obtain ⟨m, hm, rfl⟩ := List.mem_map.mp hx
    obtain ⟨m', hm', heq⟩ := List.mem_map.mp hy
    exact hne (by rw [← membersAt_slot hm, ← membersAt_slot hm', heq])

theorem eligible_horizon (h : eligible env pkt e m = true) :
    (m.kind = .encap → m.nh.nhDev ≠ some pkt.vpIf) ∧
      (m.kind = .fabric ∨ m.kind = .tor → sameSource pkt m.nh = false) ∧
      (m.kind = .fabric ∨ m.kind = .evpn → e.src ≠ .ingress) := by
  unfold eligible at h
  cases hkind : m.kind with
  | encap => simp_all
  | fabric => simp_all
  | evpn =>
    simp only [hkind, Bool.and_eq_true, Bool.or_eq_true, decide_eq_true_eq] at h
    obtain hsrc | hsrc := h.2.1 <;> simp [hsrc]
  | tor => simp_all

theorem mem_sent {id : ℕ} {c : Copy} (h : Event.output id m c ∈ s.trace) : (m, c) ∈ s.sent :=
  List.mem_filterMap.mpr ⟨_, h, rfl⟩

/-- **Packets are accounted for.**  Every packet has one fate, as long as there is room for control
data where the packet has any.  The packet itself is freed unless someone else has got it before it
was replicated.  No copy goes back to where the packet came from.  The members that get a copy are
among those that are to get one, in their order, and no member gets two; if nothing fails and all
tunnels of the fabric are of the two types that are replicated to, all of them get it. -/
theorem packets_accounted (env : Env) (pkt : Packet) (nh : Tree) (head : PktSrc → Head) (fmd : Fmd) :
    let s := replicate env pkt nh head fmd
    ((∀ e, replicated env pkt nh head fmd = some e →
        e.l2ControlData = false ∨ ∀ n, env.fails n .controlPush = false) →
      (s.trace.map Event.id).Perm (List.range s.next)) ∧
    (Event.freed 0 ∈ s.trace ∨ (Event.taken 0 ∈ s.trace ∨ Event.trapped 0 ∈ s.trace) ∧ ∃ tun,
      nhCompositeMcastValidateSrc env pkt nh = some tun ∧ (head tun.pktSrc).Takes) ∧
    (∀ id m c, Event.output id m c ∈ s.trace →
      (m.kind = .encap → m.nh.nhDev ≠ some pkt.vpIf) ∧
      (m.kind = .fabric ∨ m.kind = .tor → sameSource pkt m.nh = false) ∧
      (m.kind = .fabric ∨ m.kind = .evpn → ∃ tun,
        nhCompositeMcastValidateSrc env pkt nh = some tun ∧ tun.pktSrc ≠ .ingress)) ∧
    (nh.members.map Member.slot).Nodup ∧
    match replicated env pkt nh head fmd with
    | none => s.sent = []
    | some e => (s.sent.map Prod.fst).Sublist (nh.members.filter (eligible env pkt e)) ∧
        (NoFail env → (∀ m ∈ nh.members, m.stops = false) →
          s.sent.map Prod.fst = nh.members.filter (eligible env pkt e)) := by
  have hstart : (arrival fmd).sent = [] := rfl
  have howned : Owned (arrival fmd) ([0] ++ []) := List.Perm.refl _
  obtain ⟨hnone, hdid, hfate⟩ | ⟨tun, e, s, htun, hsome, hsrc, hpos, hs, hrun⟩ :=
    replicate_cases env pkt nh head fmd
  · obtain ⟨outs, hsent, hsub, -, -⟩ := (hdid fun _ _ => True).sent
    obtain rfl : outs = [] := by simpa using hsub
    rw [hstart, List.nil_append] at hsent
    dsimp only
    rw [hnone]
    refine ⟨fun _ => ?_, hfate, fun id m c hout => ?_, nh.members_nodup, hsent⟩
    · simpa [Owned] using (hdid fun _ _ => True).owned [] howned
    · have hmem := mem_sent hout
      simp [hsent] at hmem
  · obtain ⟨lost, hdid, hsafe⟩ := replicate_uses hpos.1 hs hrun
    obtain ⟨outs, hsent, hsub, hall, -⟩ := hdid.sent
    rw [hstart, List.nil_append] at hsent
    have hmembers := hsub.trans (recipients_sublist env nh pkt e)
    dsimp only
    rw [hsome, hsent]
    refine ⟨fun hcontrol => ?_, .inl ?_, fun id m c hout => ?_, nh.members_nodup, hmembers,
      fun hno hstops => ?_⟩
    · have hrest := hdid.owned [] howned
      rw [hsafe (hcontrol e rfl)] at hrest
      simpa [Owned] using hrest
    · rw [hrun]
      simp [mcastLoop, Run.free, Run.emit, Packet.entered, withSrc_id]
    · have hmem := mem_sent hout
      rw [hsent] at hmem
      have helig := (List.mem_filter.mp (hmembers.subset (List.mem_map_of_mem hmem))).2
      obtain ⟨hencap, hsource, hingress⟩ := eligible_horizon helig
      exact ⟨hencap, hsource, fun hm => ⟨tun, htun, hsrc ▸ hingress hm⟩⟩
    · rw [hall hno, recipients_eq hstops]

/-- A host with a virtual machine behind interface 0, in VRF 1, and the fabric behind interface 1. -/
def host (fails : ℕ → Op → Bool) : Env where
  vif := fun p => if p = 0 then ⟨.virtual, 1, none⟩ else ⟨.physical, 0, none⟩
  fails := fails
  leaf := ⟨fun _ fmd => fmd, fun _ _ _ => rfl⟩

/-- Nothing fails on it. -/
def calm : Env := host fun _ _ => false

def tunnelTo (dip : ℕ) : Nexthop where
  valid := true
  nhType := .tunnel
  tunnel := .udpMpls
  tunDip := dip
  nhDevArr := fun j => if j = 0 then some 1 else none

/-- A tree with one composite of the given kind. -/
def bridgeTree (kind : Kind) (components : List Component) : Tree where
  nhFamily := .bridge
  components := [some ⟨true, some kind, .bridge, 7, false, false, components⟩]

def oneTunnel (kind : Kind) : Tree := bridgeTree kind [⟨some (tunnelTo 9), 300⟩]

/-- A broadcast of the virtual machine. -/
def vmPacket : Packet := ⟨0, 0, 0, .unset⟩

def flooded (_ : PktSrc) : Head := ⟨none, .flood true false⟩

/-- The clone for the one member of an EVPN composite, packet 2, is lost when there is no room for
control data.  An EVPN composite gets nothing of a packet that came through the fabric, and a
neighbour's request that is answered on this host is not freed by replication. -/
theorem clone_lost :
    ((replicate (host fun _ op => op = .controlPush) vmPacket (oneTunnel .evpn) flooded
        ⟨5, 1, true⟩).trace.map Event.id = [1, 0] ∧
      (replicate (host fun _ op => op = .controlPush) vmPacket (oneTunnel .evpn) flooded
        ⟨5, 1, true⟩).next = 3) ∧
    (replicate calm ⟨0, 1, 8, .unset⟩ (oneTunnel .evpn) flooded ⟨5, 1, false⟩).sent.length = 0 ∧
    (replicate calm vmPacket (oneTunnel .evpn) (fun _ => ⟨none, .handled⟩) ⟨5, 1, false⟩).trace.map
      Event.id = [0] ∧
    ∀ ev ∈ (replicate calm vmPacket (oneTunnel .evpn) (fun _ => ⟨none, .handled⟩)
      ⟨5, 1, false⟩).trace, ∀ id, ev ≠ .freed id := by
  refine ⟨by decide, by decide, by decide, ?_⟩
  intro ev hev id
  obtain rfl := List.mem_singleton.mp (show ev ∈ [.taken 0] from hev)
  exact Event.noConfusion

end Vrouter.Mcast
