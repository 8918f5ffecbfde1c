import Vrouter.Gro.Flush
import Vrouter.Lib.Reach

/-! # Every byte is delivered once and in order

A run is a sequence of frames and of rounds that flush the entries which were idle for long; nexthops
and interfaces may change in between.  For each flow the packets that were sent, followed by the
frames that an entry holds, are the frames that were accepted, in order (`Moves`), as long as

* the buffers of a frame end where its IP length says, and its headers are in the first one (`Plain`);
* a frame of a flow that has an entry is not turned away before the tables are looked at;
* when an entry is flushed, its nexthop and its interfaces are still there (`Ready`).

So the payloads that were delivered are those that were accepted (`gro_exact`).  A frame that is longer
than its IP length, as short Ethernet frames are, is merged with its padding: the payload is taken
from the end of the buffer (`paddedFrame_garbles`). -/

namespace Vrouter.Gro

open Vrouter.Lib Vrouter.Packet Vrouter.Dpdk

variable {env : Env} {dev : Vif} {f g : Frame} {p q : IpPart} {e : GroEntry}
  {k k' : GroKey} {gs held fs : List Frame} {r : Router} {outs : List Out}
  {groups : List (List Frame)}

/-! ### Tables -/

theorem filter_key {l : List (GroKey × GroEntry)} (h : (l.map Prod.fst).Nodup) (he : (k, e) ∈ l) :
    l.filter (fun x => x.1 = k) = [(k, e)] := by
  obtain ⟨l₁, l₂, rfl⟩ := List.append_of_mem he
  rw [List.map_append, List.map_cons, List.nodup_append, List.nodup_cons] at h
  obtain ⟨-, ⟨hright, -⟩, hleft⟩ := h
  have hnone : ∀ {l' : List (GroKey × GroEntry)}, (∀ x ∈ l', x.1 ≠ k) →
      l'.filter (fun x => x.1 = k) = [] :=
    fun hl => List.filter_eq_nil_iff.mpr fun x hx => by simpa using hl x hx
  rw [List.filter_append, List.filter_cons_of_pos (by simp),
    hnone fun x hx => hleft x.1 (List.mem_map_of_mem hx) k List.mem_cons_self,
    hnone fun x hx he => hright (List.mem_map.mpr ⟨x, hx, he⟩)]
  rfl

section Tables

variable [RteHash GroKey GroEntry] [LawfulRteHash GroKey GroEntry]

theorem lookup_del_same (tbl : Table) (k : GroKey) :
    rteHashLookupData (rteHashDelKey tbl k) k = (none : Option GroEntry) := by
  rw [LawfulRteHash.lookup_del, if_pos rfl]

theorem lookup_del_ne (tbl : Table) (h : k' ≠ k) :
    rteHashLookupData (rteHashDelKey tbl k) k' = rteHashLookupData tbl k' := by
  rw [LawfulRteHash.lookup_del, if_neg h]

theorem lookup_of_del {tbl : Table} (h : rteHashLookupData (rteHashDelKey tbl k') k = some e) :
    rteHashLookupData tbl k = some e := by
  rw [LawfulRteHash.lookup_del] at h
  split_ifs at h
  exact h

theorem lookup_add_same (tbl : Table) (k : GroKey) (e : GroEntry) :
    rteHashLookupData (rteHashAddKeyData tbl k e) k = some e := by
  rw [LawfulRteHash.lookup_add, if_pos rfl]

theorem lookup_add_ne (tbl : Table) (e : GroEntry) (h : k' ≠ k) :
    rteHashLookupData (rteHashAddKeyData tbl k e) k' = rteHashLookupData tbl k' := by
  rw [LawfulRteHash.lookup_add, if_neg h]

theorem iterate_filter (tbl : Table) (k : GroKey) :
    (rteHashIterate tbl).filter (fun x => x.1 = k) =
      ((rteHashLookupData tbl k).map (Prod.mk k)).toList := by
  cases he : rteHashLookupData tbl k with
  | none =>
    refine List.filter_eq_nil_iff.mpr fun x hx hk => ?_
    obtain rfl := of_decide_eq_true hk
    rw [LawfulRteHash.mem_iterate.mp hx] at he
    cases he
  | some e => exact filter_key (LawfulRteHash.nodup_iterate tbl) (LawfulRteHash.mem_iterate.mpr he)

theorem lookup_foldl_del (l : List (GroKey × GroEntry)) (tbl : Table) (k : GroKey) :
    rteHashLookupData (l.foldl (fun tbl x => rteHashDelKey tbl x.1) tbl) k =
      if k ∈ l.map Prod.fst then none else rteHashLookupData tbl k := by
  induction l generalizing tbl with
  | nil => rfl
  | cons x l ih =>
    rw [List.foldl_cons, ih, LawfulRteHash.lookup_del, List.map_cons]
    simp only [List.mem_cons]
    split_ifs <;> simp_all

end Tables

/-! ### What can be sent -/

/-- The nexthop and the interfaces of an entry are still there, and the nexthop takes the frame. -/
def Router.Ready (r : Router) (e : GroEntry) : Prop :=
  ∃ nh vif src, r.nexthop e.nhId = some nh ∧ nh.nhDev = some vif ∧ vif.isVirtual = true ∧
    vif.vifIdx = e.dstVifIdx ∧ vif.vifGen = e.dstVifGen ∧ r.interface e.srcVifIdx = some src ∧
    src.vifGen = e.srcVifGen ∧ (nh.bridge = true → vrEtherHlen ≤ e.mbufHead.headroom.length ∧
      ∀ d, r.pktTypeOk
        (e.mbufHead.headroom.drop (e.mbufHead.headroom.length - vrEtherHlen) ++ d) = true)

theorem header_headroom (e : GroEntry) : e.header.headroom = e.mbufHead.headroom := by
  unfold GroEntry.header
  split_ifs <;> rfl

theorem Holds.isIp (h : Holds k e f p gs) :
    vrIpIsIp4 e.packet.head.data = true ∨ vrIpIsIp6 e.packet.head.data = true := by
  have hbyte : u8 e.header.data 0 = u8 f.nw 0 := by
    rw [← h.data]
    apply header_u8
    unfold Written GroEntry.tcpOff
    split_ifs <;> omega
  change vrIpIsIp4 e.header.data = true ∨ vrIpIsIp6 e.header.data = true
  rw [vrIpIsIp4, vrIpIsIp6, ipVersion, hbyte, ← ipVersion, ← vrIpIsIp4, ← vrIpIsIp6]
  exact (parseIp_parsed h.whole.part).version

theorem Describes.prepended {m m' : Merged} (h : Describes k m fs) (hbytes : m'.bytes = m.bytes)
    (hl2 : m'.pktLen + m.l2Len = m.pktLen + m'.l2Len) (hrest : m'.rest = m.rest)
    (hsegs : m'.nbSegs = m.nbSegs) : Describes k m' fs := by
  have hlen := h.pktLen
  refine ⟨?_, h.nonempty, h.linked, ?_, ?_⟩
  · rw [hbytes]
    exact h.part
  · rw [hbytes]
    omega
  · rw [hsegs, hrest]
    exact h.nbSegs

/-! ### What leaves -/

/-- The flow that something leaves for. -/
def Out.key : Out → Option GroKey
  | .passed f => f.key
  | .merged key _ => some key
  | .lost _ key _ => some key
  | .cksumErr _ => none

/-- Something that leaves stands for frames. -/
def Explains (k : GroKey) : Out → List Frame → Prop
  | .passed f, fs => fs = [f]
  | .merged _ m, fs => Describes k m fs
  | _, _ => False

/-- The frames that an entry holds. -/
def HeldBy (k : GroKey) : Option GroEntry → List Frame → Prop
  | none, held => held = []
  | some e, held => ∃ f p gs, held = f :: gs ∧ Holds k e f p gs

/-- The frame is dropped. -/
def Out.dropped : Out → Bool
  | .cksumErr _ => true
  | _ => false

/-- The payload of a packet that is sent. -/
def Merged.payload (vifIdx : ℕ) (m : Merged) : List Byte :=
  ((parseIp vifIdx m.bytes).map fun q => q.payload m.bytes).getD []

/-- The payload that is delivered. -/
def Out.payload : Out → List Byte
  | .passed f => f.payload
  | .merged key m => m.payload key.vifIdx
  | _ => []

theorem Describes.payload_eq {m : Merged} (h : Describes k m fs) :
    m.payload k.vifIdx = (fs.map Frame.payload).flatten := by
  obtain ⟨q, hq, -, -, hpay, -⟩ := h.part
  rw [Merged.payload, hq]
  exact hpay

/-- What leaves carries the payloads of the frames it stands for. -/
theorem explains_payload (hkeys : ∀ o ∈ outs, o.key = some k)
    (h : List.Forall₂ (Explains k) outs groups) :
    outs.flatMap Out.payload = (groups.flatten.map Frame.payload).flatten := by
  induction h with
  | nil => rfl
  | @cons o fs outs groups ho _ ih =>
    have hrest := ih fun o ho => hkeys o (List.mem_cons_of_mem _ ho)
    have hone : o.payload = (fs.map Frame.payload).flatten := by
      cases o with
      | passed f =>
        obtain rfl : fs = [f] := ho
        simp [Out.payload]
      | merged k' m =>
        obtain rfl : k' = k := Option.some.inj (hkeys _ List.mem_cons_self)
        exact Describes.payload_eq ho
      | lost d k' e => exact ho.elim
      | cksumErr f => exact ho.elim
    rw [List.flatMap_cons, hone, hrest, List.flatten_cons, List.map_append, List.flatten_append]

/-- A packet that was sent stands for frames that were accepted one after the other. -/
theorem explains_mem {o : Out} (h : List.Forall₂ (Explains k) outs groups) (ho : o ∈ outs) :
    ∃ fs, fs <:+: groups.flatten ∧ Explains k o fs := by
  induction h with
  | nil => exact nomatch ho
  | @cons o' fs outs groups ho' _ ih =>
    rw [List.flatten_cons]
    rcases List.mem_cons.mp ho with rfl | ho
    · exact ⟨fs, List.infix_append [] fs groups.flatten, ho'⟩
    · obtain ⟨fs', hin, hex⟩ := ih ho
      exact ⟨fs', hin.trans (List.suffix_append fs groups.flatten).isInfix, hex⟩

theorem setCsum_self (f : Frame) (p : IpPart) : f.setCsum p (tcpCsum f.nw p.hlen) = f := by
  have hword : tcpCsum f.nw p.hlen = le16 f.head.data (f.nwOff + p.hlen + 16) := by
    unfold tcpCsum Frame.nw
    rw [le16_drop, Nat.add_assoc]
  simp only [Frame.setCsum, hword, set16_le16_self]

section Moves

variable [RteHash GroKey GroEntry] {tbl : Table}

/-- **One step for a flow**: what was held and what is new leaves in order, or is held. -/
structure Moves (k : GroKey) (tbl : Table) (frames : List Frame) (r : List Out × Table) : Prop where
  keys : ∀ o ∈ r.1, o.key = some k
  others : ∀ k', k' ≠ k → rteHashLookupData r.2 k' = rteHashLookupData tbl k'
  explained : ∃ groups held, List.Forall₂ (Explains k) r.1 groups ∧
    groups.flatten ++ held = frames ∧ HeldBy k (rteHashLookupData r.2 k) held

theorem passed_moves (hkey : f.key = some k) (hnone : rteHashLookupData tbl k = none) :
    Moves k tbl [f] ([.passed f], tbl) where
  keys o ho := by
    obtain rfl := List.mem_singleton.mp ho
    exact hkey
  others _ _ := rfl
  explained := by
    refine ⟨[[f]], [], .cons rfl .nil, by simp, ?_⟩
    dsimp only
    rw [hnone]
    rfl

theorem Moves.not_dropped {s : List Out × Table} (h : Moves k tbl fs s) :
    s.1.any Out.dropped = false := by
  rw [List.any_eq_false]
  intro o ho hdrop
  have hkey := h.keys o ho
  cases o with
  | cksumErr f => exact nomatch hkey
  | passed f | merged k m | lost d k e => exact nomatch hdrop

/-- The tables of a core, what left, and the frames that were not dropped. -/
structure Sys where
  tbl : Table := rteHashCreate
  out : List Out := []
  accepted : List Frame := []

variable {s : Sys}

/-- What left for a flow. -/
def Sys.outOf (s : Sys) (k : GroKey) : List Out := s.out.filter fun o => o.key = some k

/-- The frames of a flow that were accepted. -/
def Sys.acceptedOf (s : Sys) (k : GroKey) : List Frame := s.accepted.filter fun f => f.key = some k

/-- The payload that an entry waits with. -/
def Sys.waiting (s : Sys) (k : GroKey) : List Byte :=
  ((rteHashLookupData s.tbl k).map fun e => e.packet.payload k.vifIdx).getD []

/-- For each flow, what left and what is held is what was accepted. -/
structure Exact (s : Sys) : Prop where
  flows : ∀ k, ∃ groups held, List.Forall₂ (Explains k) (s.outOf k) groups ∧
    groups.flatten ++ held = s.acceptedOf k ∧ HeldBy k (rteHashLookupData s.tbl k) held

theorem Exact.init [LawfulRteHash GroKey GroEntry] : Exact {} where
  flows k := by
    refine ⟨[], [], .nil, rfl, ?_⟩
    rw [LawfulRteHash.lookup_create]
    rfl

theorem Exact.extend {s' : Sys} (h : Exact s) (hout : s'.outOf k = s.outOf k ++ outs)
    (hacc : s'.acceptedOf k = s.acceptedOf k ++ fs)
    (hmove : ∀ held, HeldBy k (rteHashLookupData s.tbl k) held → ∃ groups held',
      List.Forall₂ (Explains k) outs groups ∧ groups.flatten ++ held' = held ++ fs ∧
      HeldBy k (rteHashLookupData s'.tbl k) held') :
    ∃ groups held, List.Forall₂ (Explains k) (s'.outOf k) groups ∧
      groups.flatten ++ held = s'.acceptedOf k ∧ HeldBy k (rteHashLookupData s'.tbl k) held := by
  obtain ⟨groups, held, hall, hflat, hheld⟩ := h.flows k
  obtain ⟨groups', held', hall', hflat', hheld'⟩ := hmove held hheld
  refine ⟨groups ++ groups', held', ?_, ?_, hheld'⟩
  · rw [hout]
    exact List.rel_append hall hall'
  · rw [hacc, List.flatten_append, List.append_assoc, hflat', ← List.append_assoc, hflat]

theorem outOf_append (s : Sys) (tbl : Table) (outs : List Out) (acc : List Frame) (k : GroKey) :
    Sys.outOf ⟨tbl, s.out ++ outs, acc⟩ k = s.outOf k ++ outs.filter fun o => o.key = some k :=
  List.filter_append _ _

theorem acceptedOf_append (s : Sys) (tbl : Table) (outs : List Out) (fs : List Frame) (k : GroKey) :
    Sys.acceptedOf ⟨tbl, outs, s.accepted ++ fs⟩ k =
      s.acceptedOf k ++ fs.filter fun f => f.key = some k :=
  List.filter_append _ _

theorem HeldBy.payload_eq (h : HeldBy k (rteHashLookupData s.tbl k) held) :
    s.waiting k = (held.map Frame.payload).flatten := by
  unfold Sys.waiting
  cases he : rteHashLookupData s.tbl k with
  | none =>
    rw [he] at h
    obtain rfl : held = [] := h
    rfl
  | some e =>
    rw [he] at h
    obtain ⟨f, p, gs, rfl, hholds⟩ := h
    exact hholds.packet_describes.payload_eq

theorem Exact.frame {res : List Out × Table} (h : Exact s) (hkey : f.key = some k)
    (hmove : ∀ held, HeldBy k (rteHashLookupData s.tbl k) held → Moves k s.tbl (held ++ [f]) res) :
    Exact ⟨res.2, s.out ++ res.1, s.accepted ++ [f]⟩ := by
  obtain ⟨-, held₀, -, -, hheld₀⟩ := h.flows k
  have hm := hmove held₀ hheld₀
  refine ⟨fun k' => ?_⟩
  refine h.extend (outOf_append ..) (acceptedOf_append ..) fun held hheld => ?_
  by_cases hk : k' = k
  · subst hk
    obtain ⟨groups, held', hall, hflat, hheld'⟩ := (hmove held hheld).explained
    refine ⟨groups, held', ?_, ?_, hheld'⟩
    · rwa [List.filter_eq_self.mpr fun o ho => by simp [hm.keys o ho]]
    · rw [hflat]
      simp [hkey]
  · refine ⟨[], held, ?_, ?_, ?_⟩
    · rw [List.filter_eq_nil_iff.mpr fun o ho => by simpa [hm.keys o ho] using Ne.symm hk]
      exact .nil
    · simp [hkey, Ne.symm hk]
    · dsimp only
      rwa [hm.others k' hk]

end Moves

section Library

variable [Rte]

theorem Router.Ready.append (h : r.Ready e) : r.Ready (append env e g q) := h

theorem flush_key (r : Router) (k : GroKey) (e : GroEntry) :
    (dpdkGroFlush r k e).key = some k := by
  unfold dpdkGroFlush
  cases r.deliver e <;> rfl

section Steps

variable [RteHash GroKey GroEntry] {tbl : Table}

theorem process_other (hp : f.part = none) : dpdkGroProcess env tbl f = ([.passed f], tbl) := by
  have hparse : parseIp f.vif.vifIdx f.nw = none := hp
  unfold dpdkGroProcess
  rw [hparse]
  cases env.router.target f <;> exact ite_self _

/-- A frame is turned away, dropped for its checksum, or comes to the tables. -/
theorem process_cases (env : Env) (tbl : Table) (hp : f.part = some p) :
    (¬ ((f.vif.groNeeded ∧ f.vif.mrgRxbuf) ∧ (env.router.target f).isSome) ∧
      dpdkGroProcess env tbl f = ([.passed f], tbl)) ∨
    dpdkGroProcess env tbl f = ([.cksumErr f], tbl) ∨
    ∃ dev, dpdkGroProcess env tbl f = update env dev tbl f p ∧
      (f.flush p = false → tcpCsum f.nw p.hlen = f.computedCsum p) := by
  have hparse : parseIp f.vif.vifIdx f.nw = some p := hp
  unfold dpdkGroProcess
  by_cases hgro : f.vif.groNeeded ∧ f.vif.mrgRxbuf
  swap
  · rw [if_pos hgro]
    exact .inl ⟨fun h => hgro h.1, rfl⟩
  rw [if_neg (not_not.mpr hgro), hparse]
  cases htarget : env.router.target f with
  | none => exact .inl ⟨(nomatch ·.2), rfl⟩
  | some dev =>
    dsimp only
    by_cases hflush : f.flush p = true
    · rw [if_pos hflush]
      exact .inr (.inr ⟨dev, rfl, fun hno => absurd (hflush.symm.trans hno) (by decide)⟩)
    rw [if_neg hflush]
    by_cases hcsum : swap16 (tcpCsum f.nw p.hlen) = swap16 (f.computedCsum p)
    · have heq : tcpCsum f.nw p.hlen = f.computedCsum p :=
        swap16_injective (le16_lt _ _) (computedCsum_lt f p) hcsum
      rw [if_neg (not_not.mpr hcsum), ← heq, setCsum_self]
      exact .inr (.inr ⟨dev, rfl, fun _ => rfl⟩)
    · rw [if_pos hcsum]
      exact .inr (.inl rfl)

variable [LawfulRteHash GroKey GroEntry]

theorem round_outs (tbl : Table) (k : GroKey) :
    (dpdkGroFlushAllInactive env tbl).1.filter (fun o => o.key = some k) =
      (((rteHashLookupData tbl k).filter env.idle).map (dpdkGroFlush env.router k)).toList := by
  change (((rteHashIterate tbl).filter fun x => env.idle x.2).map _).filter _ = _
  rw [List.filter_map]
  have hcomp : ((fun o : Out => decide (o.key = some k)) ∘
      fun x : GroKey × GroEntry => dpdkGroFlush env.router x.1 x.2) = fun x => decide (x.1 = k) := by
    funext x
    simp [flush_key]
  rw [hcomp, List.filter_comm, iterate_filter]
  cases rteHashLookupData tbl k with
  | none => rfl
  | some e => cases hidle : env.idle e <;> simp [hidle, Option.filter]

theorem round_lookup (tbl : Table) (k : GroKey) :
    rteHashLookupData (dpdkGroFlushAllInactive env tbl).2 k =
      (rteHashLookupData tbl k).filter (fun e => !env.idle e) := by
  have hmem : k ∈ ((rteHashIterate tbl).filter fun x => env.idle x.2).map Prod.fst ↔
      ∃ e, rteHashLookupData tbl k = some e ∧ env.idle e = true := by
    simp only [List.mem_map, List.mem_filter, Prod.exists, exists_and_right, exists_eq_right,
      LawfulRteHash.mem_iterate]
  change rteHashLookupData (List.foldl _ tbl _) k = _
  rw [lookup_foldl_del]
  split_ifs with hk
  · obtain ⟨e, he, hidle⟩ := hmem.mp hk
    rw [he, Option.filter_some, hidle]
    rfl
  · cases he : rteHashLookupData tbl k with
    | none => rfl
    | some e =>
      have hidle : env.idle e = false := by
        rw [← Bool.not_eq_true]
        exact fun hidle => hk (hmem.mpr ⟨e, he, hidle⟩)
      rw [Option.filter_some, hidle]
      rfl

end Steps

variable [LawfulRte]

/-! ### What is held after one step -/

theorem newEntry_holds (h : f.Whole p) : Holds p.key (newEntry env dev f p) f p [] where
  whole := h
  key := rfl
  isIpv6 := rfl
  data := by
    change ((rtePktmbufAdj f.head f.nwOff).getD f.head).data = f.nw
    rw [LawfulRte.adj_eq h.inside]
    rfl
  next := by
    change chainData f.rest = _
    rw [h.single]
    rfl
  length := by
    change f.rest.length = 0
    rw [h.single]
    rfl
  mbufCnt := rfl
  nonempty := le_rfl
  pLen := by
    change p.ipPktLen = f.nw.length + 0
    rw [h.ipPktLen_eq, Nat.add_zero]
  small := by
    change p.ipPktLen < 2 ^ 16
    rw [h.ipPktLen_eq]
    exact f.nw_lt
  nextSeq g hg := by
    rw [List.getLast?_singleton, Option.mem_some_iff] at hg
    subst hg
    change (tcpSeq f.nw p.hlen + p.tcpDataLen f.nw) % 2 ^ 32 = _
    rw [h.seq_eq, h.payload_length]
  linked := List.isChain_singleton f
  timestamp hts := by
    have hopt := h.option
    simp only [newEntry, decide_eq_true_eq] at hts
    unfold optionLen at hts
    omega

theorem payloadMbuf_data (h : f.Whole p) : (payloadMbuf f p).data = f.payload := by
  have hlen := h.nw_length
  have hhdr := h.headers
  have hdata := h.data_length
  have hfits := f.fits
  have hcut : (f.head.data.length + 2 ^ 16 - p.tcpDataLen f.nw) % 2 ^ 16 =
      f.nwOff + (p.hlen + tcpHlen f.nw p.hlen) := by
    rw [h.tcpDataLen_eq]
    omega
  rw [payloadMbuf, hcut, LawfulRte.adj_eq (by omega)]
  change f.head.data.drop _ = _
  rw [h.payload_eq, Frame.nw, List.drop_drop]

theorem append_holds (h : Holds k e f p gs) (hg : g.Whole q)
    (hsmall : ¬ e.pLen > 65535 - q.tcpDataLen g.nw) (horder : outOfOrder e g.nw q = false) :
    Holds k (append env e g q) f p (gs ++ [g]) := by
  have hpay := hg.payload_length
  have hle : e.pLen + q.tcpDataLen g.nw < 2 ^ 16 := by
    have := h.small
    have hlt : q.tcpDataLen g.nw < 2 ^ 16 := Nat.mod_lt _ (by decide)
    omega
  have hflat : ((gs ++ [g]).map Frame.payload).flatten =
      (gs.map Frame.payload).flatten ++ g.payload := by simp
  simp only [outOfOrder, Bool.or_eq_false_iff, decide_eq_false_iff_not, not_not] at horder
  obtain ⟨⟨hseq', hne⟩, -⟩ := horder
  have hseq : g.seq = e.nextSeq := by
    rw [hg.seq_eq]
    exact hseq'
  have hnonempty := h.nonempty
  have hpLen := h.pLen
  have hhdr := h.whole.headers
  have htcp := h.whole.tcp
  refine ⟨h.whole, h.key, h.isIpv6, h.data, ?_, ?_, ?_, ?_, ?_, ?_, ?_, ?_, h.timestamp⟩
  · change chainData (e.mbufNext ++ payloadMbuf g q :: g.rest) = _
    rw [chainData_append, chainData_cons, hg.single, h.next, payloadMbuf_data hg, hflat]
    simp
  · change (e.mbufNext ++ payloadMbuf g q :: g.rest).length = _
    rw [hg.single, List.length_append, List.length_append, h.length]
    rfl
  · change (e.mbufCnt + 1) % 2 ^ 16 = _
    rw [h.mbufCnt, List.length_append, List.length_singleton]
    exact Nat.mod_eq_of_lt (by omega)
  · rw [hflat, List.length_append, List.length_append, hpay, List.length_singleton]
    omega
  · change (e.pLen + q.tcpDataLen g.nw) % 2 ^ 32 = _
    rw [Nat.mod_eq_of_lt (by omega), hflat, List.length_append, hpay, h.pLen, Nat.add_assoc]
  · change (e.pLen + q.tcpDataLen g.nw) % 2 ^ 32 < _
    rw [Nat.mod_eq_of_lt (by omega)]
    exact hle
  · intro x hx
    rw [List.cons_append.symm, List.getLast?_append_of_ne_nil _ (by simp)] at hx
    rw [List.getLast?_singleton, Option.mem_some_iff] at hx
    subst hx
    change (e.nextSeq + q.tcpDataLen g.nw) % 2 ^ 32 = _
    rw [hseq, hpay]
  · rw [← List.cons_append, List.isChain_append]
    refine ⟨h.linked, List.isChain_singleton g, fun x hx y hy => ?_⟩
    cases hy
    exact hseq.trans (h.nextSeq x hx)

/-! ### What a flush sends -/

theorem flush_describes (h : Holds k e f p gs) (hr : r.Ready e) :
    ∃ m, dpdkGroFlush r k e = .merged k m ∧ Describes k m (f :: gs) := by
  obtain ⟨nh, vif, src, hnh, hdev, hvirtual, hidx, hgen, hsrc, hsgen, hbridge⟩ := hr
  have hsource : r.checkSource e = .ok () := by
    unfold Router.checkSource
    rw [hsrc]
    exact if_neg (not_not.mpr hsgen)
  have hdeliver : r.deliver e = r.send nh e := by
    unfold Router.deliver
    rw [hnh]
    dsimp only
    rw [hdev]
    dsimp only
    rw [if_neg (by simp [hvirtual]), if_neg (by simp [hidx, hgen])]
  suffices hsend : ∃ m, r.send nh e = .ok m ∧ Describes k m (f :: gs) by
    obtain ⟨m, hm, hdesc⟩ := hsend
    refine ⟨m, ?_, hdesc⟩
    rw [dpdkGroFlush, hdeliver, hm]
  have hdesc := h.packet_describes
  unfold Router.send
  rw [hsource]
  dsimp only
  cases hb : nh.bridge with
  | true =>
    obtain ⟨hroom, htype⟩ := hbridge hb
    rw [← header_headroom] at hroom htype
    have hprep := LawfulRte.prepend_eq (m := e.packet.head) hroom
    rw [if_pos rfl, hprep]
    refine ⟨_, if_pos (htype _), hdesc.prepended ?_ rfl rfl rfl⟩
    exact congrArg (· ++ chainData e.mbufNext) (drop_of_prepend hprep)
  | false =>
    rw [if_neg Bool.false_ne_true]
    exact ⟨_, if_pos h.isIp, hdesc⟩

theorem round_moves {entry : Option GroEntry} (hheld : HeldBy k entry held)
    (hready : ∀ e, entry = some e → env.idle e = true → env.router.Ready e) :
    ∃ groups held', List.Forall₂ (Explains k)
        ((entry.filter env.idle).map (dpdkGroFlush env.router k)).toList groups ∧
      groups.flatten ++ held' = held ∧ HeldBy k (entry.filter fun e => !env.idle e) held' := by
  cases entry with
  | none => exact ⟨[], held, .nil, rfl, hheld⟩
  | some e =>
    rw [Option.filter_some, Option.filter_some]
    cases hidle : env.idle e with
    | false => exact ⟨[], held, .nil, rfl, hheld⟩
    | true =>
      obtain ⟨f, p, gs, rfl, hholds⟩ := hheld
      obtain ⟨m, hm, hdesc⟩ := flush_describes hholds (hready e rfl hidle)
      refine ⟨[f :: gs], [], ?_, by simp, rfl⟩
      rw [if_pos rfl, Option.map_some, hm]
      exact .cons hdesc .nil

/-! ### What moves in one step -/

variable [RteHash GroKey GroEntry] [LawfulRteHash GroKey GroEntry] {tbl : Table} {s : Sys}

theorem create_moves (hp : f.part = some p)
    (h : f.flush p = false → p.tcpDataLen f.nw ≠ 0 → f.Whole p) (hnone : rteHashLookupData tbl p.key = none) :
    Moves p.key tbl [f] (create env dev tbl f p) := by
  have hkey : f.key = some p.key := by rw [Frame.key, hp]; rfl
  have hpass := passed_moves hkey hnone
  unfold create
  by_cases hempty : p.tcpDataLen f.nw = 0 ∨ f.flush p = true
  · rw [if_pos hempty]
    exact hpass
  · rw [if_neg hempty]
    rw [not_or, Bool.not_eq_true] at hempty
    split_ifs
    · refine ⟨nofun, fun k' hk' => lookup_add_ne tbl _ hk', [], [f], .nil, rfl, ?_⟩
      dsimp only
      rw [lookup_add_same]
      exact ⟨f, p, [], rfl, newEntry_holds (h hempty.2 hempty.1)⟩
    · exact hpass
    · exact hpass

/-- An entry is flushed before anything else of its flow leaves. -/
theorem flushed_moves (hheld : Holds k e f p gs) (hr : r.Ready e)
    {frames : List Frame} {s : List Out × Table}
    (h : Moves k (rteHashDelKey tbl k) frames s) :
    Moves k tbl (f :: gs ++ frames) (dpdkGroFlush r k e :: s.1, s.2) := by
  obtain ⟨m, hm, hdesc⟩ := flush_describes hheld hr
  obtain ⟨groups, held, hall, hflat, hby⟩ := h.explained
  rw [hm]
  refine ⟨fun o ho => ?_, fun k' hk' => ?_, (f :: gs) :: groups, held, .cons hdesc hall, ?_, hby⟩
  · rcases List.mem_cons.mp ho with rfl | ho
    · rfl
    · exact h.keys o ho
  · exact (h.others k' hk').trans (lookup_del_ne tbl hk')
  · rw [List.flatten_cons, List.append_assoc, hflat]

theorem update_moves (hq : g.part = some q)
    (hg : g.flush q = false → q.tcpDataLen g.nw ≠ 0 → g.Whole q)
    (hheld : HeldBy q.key (rteHashLookupData tbl q.key) held)
    (hready : ∀ e, rteHashLookupData tbl q.key = some e → env.router.Ready e) :
    Moves q.key tbl (held ++ [g]) (update env dev tbl g q) := by
  have hkey : g.key = some q.key := by rw [Frame.key, hq]; rfl
  have hdel := lookup_del_same tbl q.key
  unfold update
  cases he : rteHashLookupData tbl q.key with
  | none =>
    rw [he] at hheld
    obtain rfl : held = [] := hheld
    exact create_moves hq hg he
  | some e =>
    rw [he] at hheld
    obtain ⟨f, p, gs, rfl, hholds⟩ := hheld
    have hr := hready e he
    dsimp only
    by_cases hflush : g.flush q = true
    · rw [if_pos hflush]
      exact flushed_moves hholds hr (passed_moves hkey hdel)
    rw [if_neg hflush]
    by_cases hover : e.pLen > 65535 - q.tcpDataLen g.nw
    · rw [if_pos hover]
      exact flushed_moves hholds hr (create_moves hq hg hdel)
    rw [if_neg hover]
    by_cases horder : outOfOrder e g.nw q = true
    · rw [if_pos horder]
      exact flushed_moves hholds hr (passed_moves hkey hdel)
    rw [if_neg horder]
    rw [Bool.not_eq_true] at hflush horder
    have hne : q.tcpDataLen g.nw ≠ 0 := by
      simp only [outOfOrder, Bool.or_eq_false_iff, decide_eq_false_iff_not] at horder
      exact horder.1.2
    have happ : Holds q.key (append env e g q) f p (gs ++ [g]) :=
      append_holds hholds (hg hflush hne) hover horder
    split_ifs
    · have hnone : Moves q.key (rteHashDelKey tbl q.key) [] ([], rteHashDelKey tbl q.key) := by
        refine ⟨nofun, fun _ _ => rfl, [], [], .nil, rfl, ?_⟩
        dsimp only
        rw [hdel]
        rfl
      have hmoves := flushed_moves happ hr.append hnone
      rw [List.append_nil] at hmoves
      exact hmoves
    · refine ⟨nofun, fun k' hk' => lookup_add_ne tbl _ hk', [], f :: gs ++ [g], .nil, rfl, ?_⟩
      dsimp only
      rw [lookup_add_same]
      exact ⟨f, p, gs ++ [g], rfl, happ⟩

/-! ### A frame -/

/-- What is asked of a frame of a flow: if it can be merged, it has no padding; and if the flow has an
entry, the frame gets as far as the tables, and the entry can be flushed. -/
structure Acceptable (env : Env) (tbl : Table) (f : Frame) (p : IpPart) : Prop where
  plain : f.flush p = false → p.tcpDataLen f.nw ≠ 0 → f.Plain p
  looked : (f.vif.groNeeded ∧ f.vif.mrgRxbuf) ∧ (env.router.target f).isSome ∨
    rteHashLookupData tbl p.key = none
  ready : ∀ e, rteHashLookupData tbl p.key = some e → env.router.Ready e

/-- **One frame**: it is dropped, and nothing else happens, or it moves. -/
theorem process_moves (hp : f.part = some p) (hf : Acceptable env tbl f p)
    (hheld : HeldBy p.key (rteHashLookupData tbl p.key) held) :
    dpdkGroProcess env tbl f = ([.cksumErr f], tbl) ∨
      Moves p.key tbl (held ++ [f]) (dpdkGroProcess env tbl f) := by
  have hkey : f.key = some p.key := by rw [Frame.key, hp]; rfl
  rcases process_cases env tbl hp with ⟨hout, heq⟩ | heq | ⟨dev, heq, -⟩
  · have hnone := hf.looked.resolve_left hout
    rw [hnone] at hheld
    obtain rfl : held = [] := hheld
    rw [heq]
    exact .inr (passed_moves hkey hnone)
  · exact .inl heq
  · rw [heq]
    exact .inr (update_moves hp (fun hflush hne => (hf.plain hflush hne).whole hp hflush) hheld
      hf.ready)

/-! ### Runs -/

inductive Event
  | frame (env : Env) (f : Frame)
  | tick (env : Env)

/-- What one event does. -/
def step (s : Sys) : Event → Option Sys
  | .frame env f =>
    let r := dpdkGroProcess env s.tbl f
    some
      { tbl := r.2
        out := s.out ++ r.1
        accepted := if r.1.any Out.dropped then s.accepted else s.accepted ++ [f] }
  | .tick env =>
    let r := dpdkGroFlushAllInactive env s.tbl
    some { s with tbl := r.2, out := s.out ++ r.1 }

/-- What is asked of an event. -/
def Careful (s : Sys) : Event → Prop
  | .frame env f => ∀ p, f.part = some p → Acceptable env s.tbl f p
  | .tick env => ∀ k e, rteHashLookupData s.tbl k = some e → env.idle e = true → env.router.Ready e

theorem Exact.process (h : Exact s) (hcare : ∀ p, f.part = some p → Acceptable env s.tbl f p) :
    Exact
      { tbl := (dpdkGroProcess env s.tbl f).2
        out := s.out ++ (dpdkGroProcess env s.tbl f).1
        accepted := if (dpdkGroProcess env s.tbl f).1.any Out.dropped then s.accepted
          else s.accepted ++ [f] } := by
  cases hp : f.part with
  | none =>
    have hkey : f.key = none := by rw [Frame.key, hp]; rfl
    rw [process_other hp]
    refine ⟨fun k => h.extend (outOf_append ..) (acceptedOf_append ..) ?_⟩
    intro held hheld
    refine ⟨[], held, ?_, ?_, hheld⟩
    · simp [Out.key, hkey]
    · simp [hkey]
  | some p =>
    obtain ⟨-, held₀, -, -, hheld₀⟩ := h.flows p.key
    have hkey : f.key = some p.key := by rw [Frame.key, hp]; rfl
    by_cases hdrop : dpdkGroProcess env s.tbl f = ([.cksumErr f], s.tbl)
    · rw [hdrop]
      refine ⟨fun k => ?_⟩
      have hnone : s.acceptedOf k = s.acceptedOf k ++ [] := (List.append_nil _).symm
      refine h.extend (outOf_append ..) hnone fun held hheld => ⟨[], held, ?_, by simp, hheld⟩
      simp [Out.key]
    · have hmove : ∀ held, HeldBy p.key (rteHashLookupData s.tbl p.key) held →
          Moves p.key s.tbl (held ++ [f]) (dpdkGroProcess env s.tbl f) :=
        fun held hheld => (process_moves hp (hcare p hp) hheld).resolve_left hdrop
      rw [(hmove held₀ hheld₀).not_dropped]
      exact h.frame hkey hmove

theorem Exact.round (h : Exact s)
    (hcare : ∀ k e, rteHashLookupData s.tbl k = some e → env.idle e = true → env.router.Ready e) :
    Exact
      { tbl := (dpdkGroFlushAllInactive env s.tbl).2
        out := s.out ++ (dpdkGroFlushAllInactive env s.tbl).1
        accepted := s.accepted } := by
  refine ⟨fun k => ?_⟩
  have hnone : s.acceptedOf k = s.acceptedOf k ++ [] := (List.append_nil _).symm
  refine h.extend (outOf_append ..) hnone fun held hheld => ?_
  rw [round_outs, round_lookup, List.append_nil]
  exact round_moves hheld fun e he => hcare k e he

theorem step_exact {s' : Sys} {ev : Event} (h : Exact s) (hcare : Careful s ev)
    (hstep : step s ev = some s') : Exact s' := by
  cases ev with
  | frame env f =>
    cases hstep
    exact h.process hcare
  | tick env =>
    cases hstep
    exact h.round hcare

theorem reach_exact (h : Reach step Careful {} s) : Exact s :=
  h.invariant Exact.init fun _ _ _ hs hcare hstep => step_exact hs hcare hstep

/-- **Receive offload is exact**: in every run the payloads that were delivered for a flow, followed by
what its entry waits with, are those of the frames of the flow that were accepted, and each packet that
was sent describes frames which came one after the other. -/
theorem gro_exact {s : Sys} (h : Reach step Careful {} s) (k : GroKey) :
    (s.outOf k).flatMap Out.payload ++ s.waiting k =
        ((s.acceptedOf k).map Frame.payload).flatten ∧
      ∀ m, .merged k m ∈ s.out → ∃ fs, fs <:+: s.acceptedOf k ∧ Describes k m fs := by
  obtain ⟨groups, held, hall, hflat, hheld⟩ := (reach_exact h).flows k
  have hkeys : ∀ o ∈ s.outOf k, o.key = some k := fun o ho => by
    simpa using (List.mem_filter.mp ho).2
  refine ⟨?_, fun m hm => ?_⟩
  · rw [explains_payload hkeys hall, hheld.payload_eq, ← hflat, List.map_append, List.flatten_append]
  · have hmem : Out.merged k m ∈ s.outOf k := List.mem_filter.mpr ⟨hm, by simp [Out.key]⟩
    obtain ⟨fs, hin, hdesc⟩ := explains_mem hall hmem
    refine ⟨fs, ?_, hdesc⟩
    rw [← hflat]
    exact hin.trans (List.prefix_append groups.flatten held).isInfix

end Library

/-! ### Two short segments -/

open scoped Sample

variable {s : Sys}

/-- A segment with a payload of two bytes, and the padding that makes the frame long enough. -/
def shortSegment (seq hi lo x y : Byte) (padded : Bool) : Mbuf where
  headroom := []
  data := [69, 0, 0, 42, 0, 0, 0, 0, 64, 6, 102, 204, 10, 0, 0, 1, 10, 0, 0, 2,
    0, 80, 0, 81, 0, 0, 0, seq, 0, 0, 0, 1, 80, 16, 0, 100, hi, lo, 0, 0, x, y] ++
    if padded then [0, 0, 0, 0] else []

/-- The two segments of a flow. -/
def shortFrame (second padded : Bool) : Frame where
  vif := { vifIdx := 3 }
  vgVifId := 1
  vgNhId := 5
  head := if second then shortSegment 3 151 195 3 4 padded else shortSegment 1 153 199 1 2 padded
  nwOff := 0
  fits := by revert second padded; decide

/-- A router with a virtual machine behind every nexthop. -/
def oneGuest : Router where
  nexthop _ := some { nhDev := some { vifIdx := 3 } }
  interface _ := some { vifIdx := 1 }
  pktTypeOk _ := true

/-- The two segments come, and the entry is flushed later. -/
def shortRun (padded : Bool) : List Event :=
  [.frame ⟨oneGuest, 0, true, true⟩ (shortFrame false padded),
    .frame ⟨oneGuest, 0, true, true⟩ (shortFrame true padded),
    .tick ⟨oneGuest, 10000, true, true⟩]

def shortKey : GroKey := ⟨false, [10, 0, 0, 1], [10, 0, 0, 2], 80, 81, 6, 3⟩

/-- What the IP header of both segments says. -/
def shortPart : IpPart := ⟨shortKey, 20, 42, 22, false⟩

/-- The entries of a table are for the virtual machine. -/
def forGuest (tbl : Table) : Bool :=
  (rteHashIterate tbl).all fun x => x.2.dstVifIdx = 3 ∧ x.2.dstVifGen = 0 ∧ x.2.srcVifGen = 0

theorem forGuest_ready {tbl : Table} {k : GroKey} {e : GroEntry} (h : forGuest tbl = true)
    (he : rteHashLookupData tbl k = some e) : oneGuest.Ready e := by
  have hx := List.all_eq_true.mp h _ (LawfulRteHash.mem_iterate.mpr he)
  simp only [decide_eq_true_eq] at hx
  exact ⟨_, _, _, rfl, rfl, rfl, hx.1.symm, hx.2.1.symm, rfl, hx.2.2.symm, nofun⟩

theorem shortFrame_part (second : Bool) : (shortFrame second false).part = some shortPart := by
  revert second
  decide +kernel

theorem shortFrame_plain (second : Bool) : (shortFrame second false).Plain shortPart := by
  refine ⟨Nat.zero_le _, ?_, ?_, ?_, ?_⟩ <;>
    · revert second
      decide +kernel

theorem shortFrame_careful (second : Bool) (h : forGuest s.tbl = true) :
    Careful s (.frame ⟨oneGuest, 0, true, true⟩ (shortFrame second false)) := by
  intro p hp
  obtain rfl : shortPart = p := Option.some.inj ((shortFrame_part second).symm.trans hp)
  refine ⟨fun _ _ => shortFrame_plain second, .inl ?_, fun e he => ?_⟩
  · clear hp
    revert second
    decide
  · exact forGuest_ready h he

/-- The state that the two segments lead to. -/
def shortState (n : ℕ) : Sys := ((runWhen step (fun _ _ => True) ((shortRun false).take n) {}).getD {})

theorem shortState_reach : Reach step Careful {} (shortState 3) := by
  have h₁ : Reach step Careful {} (shortState 1) :=
    Reach.init.step _ (shortFrame_careful false rfl) rfl
  have h₂ : Reach step Careful {} (shortState 2) :=
    h₁.step _ (shortFrame_careful true (by decide +kernel)) rfl
  exact h₂.step (.tick ⟨oneGuest, 10000, true, true⟩) (fun _ _ he _ => forGuest_ready (by decide +kernel) he) rfl

theorem gro_exact_short :
    ((shortState 3).outOf shortKey).flatMap Out.payload ++ (shortState 3).waiting shortKey =
        (((shortState 3).acceptedOf shortKey).map Frame.payload).flatten ∧
      (shortState 3).outOf shortKey ≠ [] ∧ (shortState 3).waiting shortKey = [] :=
  ⟨(gro_exact shortState_reach shortKey).1, by decide +kernel, by decide +kernel⟩

/-- **Padding is merged**: the payload of the second segment is lost, and two bytes of padding are
delivered for it. -/
theorem paddedFrame_garbles :
    (runWhen step (fun _ _ => True) (shortRun true) {}).map (fun s =>
        ((s.outOf shortKey).flatMap Out.payload ++ s.waiting shortKey,
          ((s.acceptedOf shortKey).map Frame.payload).flatten)) =
      some ([1, 2, 0, 0], [1, 2, 3, 4]) := by
  decide +kernel

end Vrouter.Gro
