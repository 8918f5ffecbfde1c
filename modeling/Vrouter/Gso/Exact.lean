import Vrouter.Gso.Fields
import Mathlib.Data.List.Forall2

/-! # Segmentation is exact

A packet is split at the borders of its buffers: the first buffer has the headers and the first part
of the payload, the others have the rest, and get a copy of the headers (`split_ok`).  Each segment
then carries its part, with the sequence number, the lengths and the flags that belong to it
(`IsSegment`), so the payloads of the segments are the payload of the packet
(`dpdkSegmentPacket_exact`).

The buffers of the packet all end up in the output, or freed, or with the caller.  A chain that has as
many buffers as there is room for is refused, since the loop compares after it has stored a buffer
(`fullOutput_refused`). -/

namespace Vrouter.Gso

open Vrouter.Lib Vrouter.Packet Vrouter.Dpdk

variable {c : Chain} {m m' : Buf} {hdr h₀ pay : List Byte} {h L n tot sent id : ℕ}
  {isIpv6 first last : Bool} {st : GsoState} {out : List Buf}

/-! ### Splitting -/

/-- What splitting keeps of a buffer: its address, its other fields and its private area. -/
def Buf.tag (m : Buf) : ℕ × MbufMd × VpType := (m.addr, m.md, m.vpType)

/-- The parts of the payload, one for each buffer. -/
def Chain.parts (c : Chain) (hlen : ℕ) : List (List Byte) :=
  c.head.data.drop hlen :: c.rest.map Buf.data

/-- A buffer with the headers and a part of the payload. -/
def Carries (hdr : List Byte) (m : Buf) (pay : List Byte) : Prop :=
  m.data = hdr ++ pay ∧ m.data.length < 2 ^ 16

theorem addr_of_tag {ms ms' : List Buf} (h : ms.map Buf.tag = ms'.map Buf.tag) :
    ms.map Buf.addr = ms'.map Buf.addr := by
  have hmap := congrArg (List.map Prod.fst) h
  rwa [List.map_map, List.map_map] at hmap

section Library

variable [Rte] [LawfulRte]

theorem addHeaders_data (hhdr : hdr.length = h) (hm : m.addHeaders hdr h = some m') :
    m'.data = hdr ++ m.data ∧ m'.tag = m.tag ∧
      m'.mbuf.headroom.length + m'.mbuf.data.length =
        m.mbuf.headroom.length + m.mbuf.data.length := by
  unfold Buf.addHeaders at hm
  by_cases hroom : h ≤ m.mbuf.headroom.length
  · rw [LawfulRte.prepend_eq hroom] at hm
    cases hm
    have hlen : (m.mbuf.headroom.drop (m.mbuf.headroom.length - h)).length = hdr.length := by
      rw [List.length_drop]
      omega
    have hset : setBytes (m.mbuf.headroom.drop (m.mbuf.headroom.length - h) ++ m.mbuf.data) 0 hdr =
        hdr ++ m.mbuf.data := by
      rw [setBytes_append_left (by omega)]
      have hself : slice (setBytes (m.mbuf.headroom.drop (m.mbuf.headroom.length - h)) 0 hdr) 0
          hdr.length = hdr := slice_setBytes_self (by omega)
      rw [slice, List.drop_zero, List.take_of_length_le (by rw [setBytes_length]; omega)] at hself
      rw [hself]
    refine ⟨hset, rfl, ?_⟩
    dsimp only
    rw [hset, List.length_append, List.length_take]
    omega
  · rw [LawfulRte.prepend_none (by omega)] at hm
    cases hm

omit [LawfulRte] in
theorem splitLoop_ok : ∀ (next out : List Buf) {res : List Buf}, out ≠ [] →
    splitLoop hdr n tot h next out = .ok res → ∃ added, res = out ++ added ∧
      List.Forall₂ (fun m m' => m.addHeaders hdr h = some m') next added
  | [], out, res, _, hres => ⟨[], by
      rw [List.append_nil]
      exact (Except.ok.inj hres).symm, .nil⟩
  | curr :: next, out, res, hout, hres => by
    unfold splitLoop at hres
    rw [if_neg hout] at hres
    cases hadd : curr.addHeaders hdr h with
    | none =>
      rw [hadd] at hres
      exact nomatch hres
    | some curr' =>
      rw [hadd] at hres
      dsimp only at hres
      split_ifs at hres
      obtain ⟨added, rfl, hall⟩ := splitLoop_ok next _ (by simp) hres
      exact ⟨curr' :: added, by simp, .cons hadd hall⟩

/-- When the loop fails, all buffers but the first are freed. -/
theorem splitLoop_error : ∀ (next out : List Buf) {freed : List Buf}, hdr.length = h → out ≠ [] →
    splitLoop hdr n tot h next out = .error freed →
      freed.map Buf.addr = (out.tail ++ next).map Buf.addr
  | [], out, freed, _, _, hres => nomatch hres
  | curr :: next, out, freed, hhdr, hout, hres => by
    unfold splitLoop at hres
    rw [if_neg hout] at hres
    cases hadd : curr.addHeaders hdr h with
    | none =>
      rw [hadd] at hres
      cases hres
      rfl
    | some curr' =>
      have haddr : curr'.addr = curr.addr := congrArg Prod.fst (addHeaders_data hhdr hadd).2.1
      have htail : (out ++ [curr']).tail = out.tail ++ [curr'] := List.tail_append_of_ne_nil hout
      rw [hadd] at hres
      dsimp only at hres
      split_ifs at hres
      · cases hres
        rw [htail]
        simp [haddr]
      · rw [splitLoop_error next _ hhdr (by simp) hres, htail]
        simp [haddr]

/-- The loop goes through when there is room for one buffer more than there are. -/
theorem splitLoop_succeeds : ∀ (next out : List Buf), out ≠ [] → out.length + next.length < n →
    out.length + next.length ≤ tot → (∀ m ∈ next, h ≤ m.mbuf.headroom.length) →
      ∃ res, splitLoop hdr n tot h next out = .ok res
  | [], out, _, _, _, _ => ⟨out, rfl⟩
  | curr :: next, out, hout, hn, htot, hroom => by
    rw [List.length_cons] at hn htot
    unfold splitLoop
    rw [if_neg hout, Buf.addHeaders, LawfulRte.prepend_eq (hroom curr List.mem_cons_self)]
    dsimp only [Option.map_some]
    rw [if_neg (by omega)]
    exact splitLoop_succeeds next _ (by simp) (by rw [List.length_append, List.length_singleton]; omega)
      (by rw [List.length_append, List.length_singleton]; omega)
      fun m hm => hroom m (List.mem_cons_of_mem _ hm)

omit [LawfulRte] in
/-- The loop goes through only then. -/
theorem splitLoop_fits : ∀ (next out : List Buf) {res : List Buf}, out.length < n →
    splitLoop hdr n tot h next out = .ok res → out.length + next.length < n
  | [], _, _, hout, _ => hout
  | curr :: next, out, res, _, hres => by
    unfold splitLoop at hres
    cases hadd : (if out = [] then some curr else curr.addHeaders hdr h) with
    | none =>
      rw [hadd] at hres
      cases hres
    | some curr' =>
      rw [hadd] at hres
      dsimp only at hres
      split_ifs at hres with hfull
      have hrest := splitLoop_fits next (out ++ [curr'])
        (by rw [List.length_append, List.length_singleton]; omega) hres
      rw [List.length_append, List.length_singleton] at hrest
      rw [List.length_cons]
      omega

omit [LawfulRte] in
theorem split_eq (hn : 1 < n) (htot : 0 < c.nbSegs) :
    dpdkSplitChainedMbuf c n h =
      splitLoop (c.head.data.take h) n c.nbSegs h c.rest [c.head] := by
  unfold dpdkSplitChainedMbuf Chain.bufs
  rw [splitLoop, if_pos rfl]
  dsimp only [List.length_nil]
  rw [if_neg (by omega)]
  rfl

omit [LawfulRte] in
theorem split_refused (hn : ¬ (1 < n ∧ 0 < c.nbSegs)) :
    dpdkSplitChainedMbuf c n h = .error c.rest := by
  unfold dpdkSplitChainedMbuf Chain.bufs
  rw [splitLoop, if_pos rfl]
  dsimp only [List.length_nil]
  rw [if_pos (by omega)]
  rfl

/-- **Splitting**: each part of the payload is in a buffer of its own, behind the headers. -/
theorem split_ok (hin : h ≤ c.head.data.length) (hout : dpdkSplitChainedMbuf c n h = .ok out) :
    List.Forall₂ (Carries (c.head.data.take h)) out (c.parts h) ∧
      out.map Buf.tag = c.bufs.map Buf.tag := by
  by_cases hn : 1 < n ∧ 0 < c.nbSegs
  swap
  · rw [split_refused hn] at hout
    exact nomatch hout
  rw [split_eq hn.1 hn.2] at hout
  have hhdr : (c.head.data.take h).length = h := by
    rw [List.length_take]
    omega
  have hfits := c.fits
  obtain ⟨added, rfl, hall⟩ := splitLoop_ok c.rest [c.head] (by simp) hout
  have hhead : Carries (c.head.data.take h) c.head (c.head.data.drop h) := by
    refine ⟨(List.take_append_drop h _).symm, ?_⟩
    have := hfits c.head List.mem_cons_self
    unfold Buf.data
    omega
  have hrest : ∀ rest added, List.Forall₂
      (fun m m' => Buf.addHeaders m (c.head.data.take h) h = some m') rest added →
      (∀ m ∈ rest, m.mbuf.headroom.length + m.mbuf.data.length < 2 ^ 16) →
      List.Forall₂ (Carries (c.head.data.take h)) added (rest.map Buf.data) ∧
        added.map Buf.tag = rest.map Buf.tag := by
    intro rest added hall hfits
    induction hall with
    | nil => exact ⟨.nil, rfl⟩
    | @cons m m' rest added hm _ ih =>
      obtain ⟨hdata, htag, hlen⟩ := addHeaders_data hhdr hm
      obtain ⟨hcarry, htags⟩ := ih fun m hm => hfits m (List.mem_cons_of_mem _ hm)
      have hlt := hfits m List.mem_cons_self
      refine ⟨.cons ⟨hdata, ?_⟩ hcarry, by rw [List.map_cons, List.map_cons, htag, htags]⟩
      unfold Buf.data
      omega
  obtain ⟨hcarry, htags⟩ := hrest c.rest added hall fun m hm => hfits m (List.mem_cons_of_mem _ hm)
  exact ⟨.cons hhead hcarry, by rw [List.singleton_append, List.map_cons, htags]; rfl⟩

end Library

/-! ### One segment -/

/-- The headers of a packet are in the first buffer: the outer ones end where the inner ones start, and
the inner ones are those of TCP. -/
structure Headers (isIpv6 : Bool) (L : ℕ) (h₀ : List Byte) : Prop where
  proto : (if isIpv6 then ip6Nxt (h₀.drop L) else ipProto (h₀.drop L)) = vrIpProtoTcp
  ip : 20 ≤ innerHlen isIpv6 (h₀.drop L)
  tcp : innerHlen isIpv6 (h₀.drop L) + 20 ≤ payloadOff isIpv6 (h₀.drop L)
  inside : L + payloadOff isIpv6 (h₀.drop L) ≤ h₀.length
  outer : OuterFits L h₀

/-- **What a segment is**: it carries a part of the payload, its sequence number is that of the packet
and what was sent before, its lengths are its own, and its flags depend on where it stands. -/
structure IsSegment (isIpv6 : Bool) (L : ℕ) (h₀ : List Byte) (sent : ℕ) (first last : Bool)
    (pay d : List Byte) : Prop where
  payload : tcpPayload isIpv6 (d.drop L) = pay
  seq : tcpSeq (d.drop L) (innerHlen isIpv6 (d.drop L)) =
    (tcpSeq (h₀.drop L) (innerHlen isIpv6 (h₀.drop L)) + sent) % 2 ^ 32
  len : L + innerLen isIpv6 (d.drop L) = d.length
  outer : dpdkGetEtherHeaderLen d + be16 d (dpdkGetEtherHeaderLen d + 2) = d.length
  udp : u8 d (dpdkGetEtherHeaderLen d + 9) = vrIpProtoUdp → dpdkGetEtherHeaderLen d + outerHl d +
    be16 d (dpdkGetEtherHeaderLen d + outerHl d + 4) = d.length
  flags : u8 (d.drop L) (innerHlen isIpv6 (d.drop L) + 13) =
    segmentFlags first last (u8 (h₀.drop L) (innerHlen isIpv6 (h₀.drop L) + 13))

/-- The state after some bytes of the payload were sent. -/
structure Along (isIpv6 : Bool) (L : ℕ) (h₀ : List Byte) (sent : ℕ) (st : GsoState) : Prop where
  version : st.isIpv6 = isIpv6
  mac : st.macHlen = L
  ip : st.ipHlen = innerHlen isIpv6 (h₀.drop L)
  hlen : st.hlen = L + payloadOff isIpv6 (h₀.drop L)
  seq : st.tcpSeq = (tcpSeq (h₀.drop L) (innerHlen isIpv6 (h₀.drop L)) + sent) % 2 ^ 32

theorem be32_lt (b : List Byte) (i : ℕ) : be32 b i < 2 ^ 32 := by
  have h1 := be16_lt b i
  have h2 := be16_lt b (i + 2)
  unfold be32
  omega

theorem Along.init {csum : Bool} (h : dpdkGsoInitState h₀ L isIpv6 csum = some st) :
    Along isIpv6 L h₀ 0 st := by
  unfold dpdkGsoInitState at h
  dsimp only at h
  by_cases hp : (if isIpv6 = true then ip6Nxt (h₀.drop L) else ipProto (h₀.drop L)) ≠ vrIpProtoTcp
  · rw [if_pos hp] at h
    exact nomatch h
  · rw [if_neg hp] at h
    cases h
    refine ⟨rfl, rfl, rfl, Nat.add_assoc _ _ _, ?_⟩
    have hlt : tcpSeq (h₀.drop L) (innerHlen isIpv6 (h₀.drop L)) < 2 ^ 32 := be32_lt _ _
    rw [Nat.add_zero, Nat.mod_eq_of_lt hlt]
    rfl

theorem Along.next (h : Along isIpv6 L h₀ sent st) {pktLen n : ℕ} (hlen : pktLen = st.hlen + n) :
    Along isIpv6 L h₀ (sent + n) (st.next pktLen) := by
  obtain ⟨hv, hm, hi, hh, -⟩ := next_keeps st pktLen
  refine ⟨hv.trans h.version, hm.trans h.mac, hi.trans h.ip, hh.trans h.hlen, ?_⟩
  change (st.tcpSeq + (pktLen + 2 ^ 32 - st.hlen)) % 2 ^ 32 = _
  rw [h.seq]
  omega

theorem Headers.copied (hh : Headers isIpv6 L h₀) {b : List Byte}
    (hb : ∀ j < L + payloadOff isIpv6 (h₀.drop L), u8 b j = u8 h₀ j) :
    innerHlen isIpv6 (b.drop L) = innerHlen isIpv6 (h₀.drop L) ∧
      payloadOff isIpv6 (b.drop L) = payloadOff isIpv6 (h₀.drop L) := by
  have hip := hh.ip
  have htcp := hh.tcp
  have hbyte : ∀ j < payloadOff isIpv6 (h₀.drop L), u8 (b.drop L) j = u8 (h₀.drop L) j := by
    intro j hj
    rw [u8_drop, u8_drop, hb _ (by omega)]
  exact payloadOff_congr (hbyte _ (by omega)) (hbyte _ (by omega))

theorem OuterFits.congr {b d : List Byte} (h : OuterFits L b) (hd : ∀ j < L, u8 d j = u8 b j) :
    OuterFits L d := by
  have heth := dpdkGetEtherHeaderLen_le b
  have hip := h.ip
  have hfits := h.fits
  have hle : dpdkGetEtherHeaderLen b + 20 ≤ L := by
    split_ifs at hfits <;> omega
  have heq : dpdkGetEtherHeaderLen d = dpdkGetEtherHeaderLen b := by
    unfold dpdkGetEtherHeaderLen
    rw [be16_of_u8 (hd 12 (by omega)) (hd 13 (by omega))]
  have h0 := hd (dpdkGetEtherHeaderLen b) (by omega)
  refine ⟨?_, ?_⟩
  · rw [heq, h0]
    exact hip
  · rw [heq, h0, hd _ (by omega)]
    exact hfits

/-- A buffer with the headers has the bytes of the headers. -/
theorem Carries.headers (hh : Headers isIpv6 L h₀)
    (hm : Carries (h₀.take (L + payloadOff isIpv6 (h₀.drop L))) m pay) :
    m.data.length = L + payloadOff isIpv6 (h₀.drop L) + pay.length ∧
      ∀ j < L + payloadOff isIpv6 (h₀.drop L), u8 m.data j = u8 h₀ j := by
  have hhdr := List.length_take_of_le hh.inside
  refine ⟨by rw [hm.1, List.length_append, hhdr], fun j hj => ?_⟩
  rw [hm.1, u8_append_left (by omega), u8_take hj]

/-- The segments of a packet, with what was sent before them. -/
def Segments (isIpv6 : Bool) (L : ℕ) (h₀ : List Byte) : ℕ → Bool → List (List Byte) → List Buf → Prop
  | _, _, [], [] => True
  | sent, first, pay :: pays, m :: ms =>
    IsSegment isIpv6 L h₀ sent first ms.isEmpty pay m.data ∧
      Segments isIpv6 L h₀ (sent + pay.length) false pays ms
  | _, _, _, _ => False

theorem isEmpty_of_length {α β : Type} {as : List α} {bs : List β} (h : as.length = bs.length) :
    as.isEmpty = bs.isEmpty := by
  cases as <;> cases bs <;> simp_all

section Segment

variable [Rte]

theorem segmentOne_data (st : GsoState) (first last : Bool) (m : Buf) :
    (segmentOne st first last m).data = m.data.take st.macHlen ++
      segmentInner st first last m.md.olFlags m.data.length (m.data.drop st.macHlen) := rfl

theorem segmentOne_length (st : GsoState) (first last : Bool) (m : Buf) :
    (segmentOne st first last m).data.length = m.data.length := by
  rw [segmentOne_data, List.length_append, segmentInner_length, ← List.length_append,
    List.take_append_drop]

theorem segmentOne_inner (hL : L ≤ m.data.length) (hst : st.macHlen = L) :
    (segmentOne st first last m).data.drop L =
      segmentInner st first last m.md.olFlags m.data.length (m.data.drop L) := by
  rw [segmentOne_data, hst]
  apply List.drop_left'
  rw [List.length_take, Nat.min_eq_left hL]

theorem segmentOne_outer (hL : L ≤ m.data.length) (hst : st.macHlen = L) {j : ℕ} (hj : j < L) :
    u8 (segmentOne st first last m).data j = u8 m.data j := by
  rw [segmentOne_data, hst, u8_append_left (by rw [List.length_take]; omega), u8_take hj]

/-- **One segment**, after both passes. -/
theorem segment_final (hh : Headers isIpv6 L h₀) (hst : Along isIpv6 L h₀ sent st)
    (hm : Carries (h₀.take (L + payloadOff isIpv6 (h₀.drop L))) m pay) :
    IsSegment isIpv6 L h₀ sent first last pay
      (writeOuter id (segmentOne st first last m).data) := by
  obtain ⟨hmlen, hbytes⟩ := hm.headers hh
  obtain ⟨hdata, hlt⟩ := hm
  have hip := hh.ip
  have htcp := hh.tcp
  obtain ⟨hhlen, hoff⟩ := hh.copied hbytes
  -- the first pass
  have hL : L ≤ m.data.length := by omega
  obtain ⟨d, hd⟩ : ∃ d, d = (segmentOne st first last m).data := ⟨_, rfl⟩
  have hdlen : d.length = m.data.length := hd ▸ segmentOne_length st first last m
  have hinner : d.drop L = segmentInner st first last m.md.olFlags m.data.length (m.data.drop L) :=
    hd ▸ segmentOne_inner hL hst.mac
  have hiplen : (m.data.drop L).length = payloadOff isIpv6 (h₀.drop L) + pay.length := by
    rw [List.length_drop, hmlen]
    omega
  have hst20 : 20 ≤ st.ipHlen := hst.ip ▸ hip
  have hstip : st.ipHlen = innerHlen st.isIpv6 (m.data.drop L) := by
    rw [hst.version, hhlen, hst.ip]
  have houter : ∀ j < L, u8 d j = u8 h₀ j := by
    intro j hj
    rw [hd, segmentOne_outer hL hst.mac hj, hbytes j (by omega)]
  have hfits := hh.outer.congr houter
  -- the second pass
  have hdrop : (writeOuter id d).drop L = d.drop L := writeOuter_drop hfits
  obtain ⟨heth, hhl, hproto⟩ : _ ∧ outerHl (writeOuter id d) = _ ∧ _ := writeOuter_keeps hfits
  obtain ⟨houtlen, hudplen⟩ : be16 (writeOuter id d) _ = _ ∧ _ :=
    writeOuter_len hfits (by omega) (hdlen ▸ hlt)
  have hfit := hfits.fits
  rw [← outerHl] at hfit
  have hmac : st.macHlen + (m.data.drop L).length = m.data.length := by
    rw [hst.mac, hiplen]
    omega
  have hoff' : payloadOff st.isIpv6 (m.data.drop L) = payloadOff isIpv6 (h₀.drop L) := by
    rw [hst.version, hoff]
  have hihlen : innerHlen isIpv6 (d.drop L) = st.ipHlen := by
    rw [hinner, ← hst.version]
    exact (segmentInner_off hstip hst20).1
  have hipoff : st.ipHlen + 20 ≤ payloadOff isIpv6 (h₀.drop L) := hst.ip ▸ htcp
  rw [← hd]
  refine ⟨?_, ?_, ?_, ?_, ?_, ?_⟩
  · rw [hdrop, hinner, ← hst.version, segmentInner_payload hstip hst20 (by omega) (by omega) hmac hlt,
      hoff', List.drop_drop, hdata]
    exact List.drop_left' (List.length_take_of_le hh.inside)
  · have hseq : st.tcpSeq < 2 ^ 32 := by
      rw [hst.seq]
      exact Nat.mod_lt _ (by decide)
    rw [hdrop, hihlen, hinner, segmentInner_seq hst20 (by omega) hseq, hst.seq]
  · rw [hdrop, hinner, ← hst.version, segmentInner_len hstip hst20 (by omega) hmac hlt,
      writeOuter_length, hdlen]
    omega
  · rw [heth, houtlen, writeOuter_length]
    split_ifs at hfit <;> omega
  · rw [heth, hhl, writeOuter_length]
    intro hudp
    rw [hproto] at hudp
    rw [hudplen hudp]
    rw [if_pos hudp] at hfit
    omega
  · rw [hdrop, hihlen, hinner, segmentInner_flags hst20 (by omega), hst.ip]
    congr 1
    rw [u8_drop, u8_drop, hbytes _ (by omega)]

/-! ### All segments -/

variable [LawfulRte]

theorem adjust_data (hL : L ≤ m.data.length) (vrIpId : ℕ) :
    (dpdkAdjustOuterHeader L vrIpId m).1 = m.withData (writeOuter
        (if m.vpType = .ipoip then ipId (m.data.drop L) else swap16 (vrGenerateUniqueIpId vrIpId))
        m.data) ∧
      (dpdkAdjustOuterHeader L vrIpId m).2 =
        if m.vpType = .ipoip then vrIpId else vrGenerateUniqueIpId vrIpId := by
  have hadj := LawfulRte.adj_eq (m := m.mbuf) hL
  have hprep := prepend_of_adj (m := m.mbuf) hL
  unfold dpdkAdjustOuterHeader
  dsimp only
  rw [hadj, Option.getD_some, hprep, Option.getD_some]
  split_ifs <;> exact ⟨rfl, rfl⟩

omit [LawfulRte] in
theorem segmentLoop_length : ∀ (ms : List Buf) (first : Bool) (st : GsoState),
    (segmentLoop first st ms).length = ms.length
  | [], _, _ => rfl
  | m :: ms, first, st => by
    rw [segmentLoop, List.length_cons, List.length_cons, segmentLoop_length ms]

variable {mbufIn : MbufMd}

omit [LawfulRte] in
theorem adjustLoop_cons (v : ℕ) (m : Buf) (ms : List Buf) : adjustLoop L mbufIn v (m :: ms) =
    { (dpdkAdjustOuterHeader L v m).1 with
        md := finalMd mbufIn (dpdkAdjustOuterHeader L v m).1.md } ::
      adjustLoop L mbufIn (dpdkAdjustOuterHeader L v m).2 ms := rfl

omit [LawfulRte] in
theorem adjustLoop_length : ∀ (ms : List Buf) (v : ℕ),
    (adjustLoop L mbufIn v ms).length = ms.length
  | [], _ => rfl
  | m :: ms, v => by
    rw [adjustLoop, List.length_cons, List.length_cons, adjustLoop_length ms]

/-- **The loops**: what comes out of both passes are the segments of the packet. -/
theorem loops_segments (hh : Headers isIpv6 L h₀) : ∀ {out : List Buf} {pays : List (List Byte)}
    (first : Bool) {sent : ℕ} {st : GsoState} (v : ℕ), Along isIpv6 L h₀ sent st →
    List.Forall₂ (Carries (h₀.take (L + payloadOff isIpv6 (h₀.drop L)))) out pays →
    Segments isIpv6 L h₀ sent first pays (adjustLoop L mbufIn v (segmentLoop first st out)) ∧
      (adjustLoop L mbufIn v (segmentLoop first st out)).map Buf.addr = out.map Buf.addr := by
  intro out pays first sent st v hst hall
  induction hall generalizing first sent st v with
  | nil => exact ⟨trivial, rfl⟩
  | @cons m pay ms pays hm _ ih =>
    have hlen : m.data.length = st.hlen + pay.length := by
      rw [hst.hlen]
      exact (hm.headers hh).1
    have hL : L ≤ (segmentOne st first ms.isEmpty m).data.length := by
      rw [segmentOne_length, hlen, hst.hlen]
      omega
    obtain ⟨hone, -⟩ := adjust_data hL v
    obtain ⟨hrest, haddrs⟩ := ih false (dpdkAdjustOuterHeader L v (segmentOne st first ms.isEmpty m)).2
      (hst.next hlen)
    have hempty : (adjustLoop L mbufIn (dpdkAdjustOuterHeader L v (segmentOne st first ms.isEmpty m)).2
        (segmentLoop false (st.next m.data.length) ms)).isEmpty = ms.isEmpty :=
      isEmpty_of_length (by rw [adjustLoop_length, segmentLoop_length])
    rw [segmentLoop, adjustLoop_cons]
    refine ⟨⟨?_, hrest⟩, ?_⟩
    · rw [hempty, hone]
      exact segment_final hh hst hm
    · rw [List.map_cons, List.map_cons, hone, haddrs]
      rfl

end Segment

theorem Segments.payloads : ∀ {pays : List (List Byte)} {ms : List Buf} {sent : ℕ} {first : Bool},
    Segments isIpv6 L h₀ sent first pays ms →
      ms.map (fun m => tcpPayload isIpv6 (m.data.drop L)) = pays
  | [], [], _, _, _ => rfl
  | pay :: pays, m :: ms, _, _, h => by
    rw [List.map_cons, h.1.payload, Segments.payloads h.2]
  | [], _ :: _, _, _, h => h.elim
  | _ :: _, [], _, _, h => h.elim

theorem Segments.get : ∀ {pays : List (List Byte)} {ms : List Buf} {sent : ℕ} {first : Bool}
    {k : ℕ} {m : Buf}, Segments isIpv6 L h₀ sent first pays ms → ms[k]? = some m →
      IsSegment isIpv6 L h₀ (sent + ((pays.take k).map List.length).sum) (first && k == 0)
        (k + 1 == ms.length) (tcpPayload isIpv6 (m.data.drop L)) m.data
  | _, [], _, _, _, _, _, hm => nomatch hm
  | [], _ :: _, _, _, _, _, h, _ => h.elim
  | pay :: pays, m' :: ms, sent, first, 0, m, h, hm => by
    obtain rfl : m' = m := Option.some.inj hm
    have hpay := h.1.payload
    have hlast : (0 + 1 == (m' :: ms).length) = ms.isEmpty := by
      cases ms <;> simp
    rw [hlast, hpay, beq_self_eq_true, Bool.and_true]
    exact h.1
  | pay :: pays, m' :: ms, sent, first, k + 1, m, h, hm => by
    have hget := Segments.get h.2 (k := k) (m := m) hm
    have hlast : (k + 1 + 1 == (m' :: ms).length) = (k + 1 == ms.length) := by
      rw [List.length_cons, Bool.eq_iff_iff, beq_iff_eq, beq_iff_eq]
      omega
    have hfirst : (first && k + 1 == 0) = (false && k == 0) := by
      rw [beq_false_of_ne (by omega), Bool.and_false, Bool.false_and]
    rw [hlast, hfirst, List.take_succ_cons, List.map_cons, List.sum_cons, ← Nat.add_assoc]
    exact hget

/-! ### The laws -/

/-- The payload of a packet. -/
def Chain.payload (c : Chain) (isIpv6 : Bool) (L : ℕ) : List Byte :=
  (c.bufs.flatMap Buf.data).drop (L + payloadOff isIpv6 (c.head.data.drop L))

/-- The payload of a segment. -/
def Buf.payload (isIpv6 : Bool) (L : ℕ) (m : Buf) : List Byte := tcpPayload isIpv6 (m.data.drop L)

/-- The flags of the TCP header of a segment. -/
def Buf.flags (isIpv6 : Bool) (L : ℕ) (m : Buf) : ℕ :=
  u8 (m.data.drop L) (innerHlen isIpv6 (m.data.drop L) + 13)

/-- The sequence number of a segment. -/
def Buf.seq (isIpv6 : Bool) (L : ℕ) (m : Buf) : ℕ :=
  tcpSeq (m.data.drop L) (innerHlen isIpv6 (m.data.drop L))

/-- The lengths in the headers of a segment end where the segment ends. -/
structure LengthsMatch (isIpv6 : Bool) (L : ℕ) (d : List Byte) : Prop where
  inner : L + innerLen isIpv6 (d.drop L) = d.length
  outer : dpdkGetEtherHeaderLen d + be16 d (dpdkGetEtherHeaderLen d + 2) = d.length
  udp : u8 d (dpdkGetEtherHeaderLen d + 9) = vrIpProtoUdp → dpdkGetEtherHeaderLen d + outerHl d +
    be16 d (dpdkGetEtherHeaderLen d + outerHl d + 4) = d.length

/-- **The segments are those of the packet.** -/
structure Exactly (c : Chain) (isIpv6 : Bool) (L : ℕ) (out : List Buf) : Prop where
  payload : out.flatMap (Buf.payload isIpv6 L) = c.payload isIpv6 L
  seq : ∀ k m, out[k]? = some m → m.seq isIpv6 L = (c.head.seq isIpv6 L +
    ((out.take k).flatMap (Buf.payload isIpv6 L)).length) % 2 ^ 32
  lengths : ∀ m ∈ out, LengthsMatch isIpv6 L m.data
  notLast : ∀ k m, out[k]? = some m → k + 1 < out.length →
    m.flags isIpv6 L &&& (rteTcpFinFlag + rteTcpPshFlag) = 0
  notFirst : ∀ k m, out[k]? = some m → 0 < k → m.flags isIpv6 L &&& rteTcpCwrFlag = 0

/-- **Every buffer has one owner**: on success each one is in one output; on failure each one is freed
once, or still in the chain that starts with the first one, which the caller has. -/
def Owned (c : Chain) : Result → Prop
  | .segments out => out.map Buf.addr = c.bufs.map Buf.addr
  | .failed _ left freed =>
    ((left ++ freed).map Buf.addr).Perm (c.bufs.map Buf.addr) ∧ left.head? = some c.head

theorem segmentFlags_notLast (flags : ℕ) :
    segmentFlags first false flags &&& (rteTcpFinFlag + rteTcpPshFlag) = 0 := by
  unfold segmentFlags
  dsimp only
  rw [if_neg Bool.false_ne_true, Nat.and_assoc]
  exact Nat.and_zero _

theorem segmentFlags_notFirst (flags : ℕ) : segmentFlags false last flags &&& rteTcpCwrFlag = 0 := by
  unfold segmentFlags
  dsimp only
  rw [if_neg Bool.false_ne_true]
  split_ifs
  · rw [Nat.and_assoc]
    exact Nat.and_zero _
  · rw [Nat.and_assoc, Nat.and_assoc]
    exact Nat.and_zero _

theorem parts_flatten (hin : h ≤ c.head.data.length) :
    (c.parts h).flatten = (c.bufs.flatMap Buf.data).drop h := by
  rw [Chain.parts, List.flatten_cons, Chain.bufs, List.flatMap_cons,
    List.drop_append_of_le_length hin]
  rfl

theorem Segments.exactly (hin : L + payloadOff isIpv6 (c.head.data.drop L) ≤
      c.head.data.length)
    (hs : Segments isIpv6 L c.head.data 0 true
      (c.parts (L + payloadOff isIpv6 (c.head.data.drop L))) out) : Exactly c isIpv6 L out := by
  have hpays : out.map (Buf.payload isIpv6 L) = _ := hs.payloads
  have hget : ∀ {k : ℕ} {m : Buf}, out[k]? = some m → IsSegment isIpv6 L c.head.data _ (true && k == 0)
      (k + 1 == out.length) (m.payload isIpv6 L) m.data := fun hm => hs.get hm
  refine ⟨?_, fun k m hm => ?_, fun m hm => ?_, fun k m hm hlast => ?_, fun k m hm hfirst => ?_⟩
  · rw [List.flatMap_def, hpays, parts_flatten hin]
    rfl
  · have hseq := (hget hm).seq
    have hsum : ((out.take k).flatMap (Buf.payload isIpv6 L)).length =
        (((c.parts (L + payloadOff isIpv6 (c.head.data.drop L))).take k).map List.length).sum := by
      rw [← hpays, List.flatMap_def, List.length_flatten, ← List.map_take]
    rw [hsum, ← Nat.zero_add ((List.map List.length _).sum)]
    exact hseq
  · obtain ⟨k, hk⟩ := List.getElem?_of_mem hm
    have hseg := hget hk
    exact ⟨hseg.len, hseg.outer, hseg.udp⟩
  · have hflags := (hget hm).flags
    have hno : (k + 1 == out.length) = false := beq_false_of_ne (by omega)
    rw [hno] at hflags
    rw [Buf.flags, hflags]
    exact segmentFlags_notLast _
  · have hflags := (hget hm).flags
    have hno : (k == 0) = false := beq_false_of_ne (by omega)
    rw [hno, Bool.and_false] at hflags
    rw [Buf.flags, hflags]
    exact segmentFlags_notFirst _

section Packet

variable {vrIpId outNum mss : ℕ} {csum : Bool}

theorem init_some (csum : Bool) (h : Headers isIpv6 L h₀) :
    ∃ st, dpdkGsoInitState h₀ L isIpv6 csum = some st := by
  unfold dpdkGsoInitState
  dsimp only
  rw [if_neg (not_not.mpr h.proto)]
  exact ⟨_, rfl⟩

/-- Nothing but the number of buffers stands against segmentation: what the first buffer says of the
chain is right, the payload fits into as many segments as there may be, and the other buffers have
room for the headers. -/
structure Ready (c : Chain) (isIpv6 : Bool) (L outNum mss : ℕ) : Prop where
  nbSegs : c.nbSegs = c.bufs.length
  pktLen : c.pktLen = (c.bufs.flatMap Buf.data).length
  payload : (c.payload isIpv6 L).length ≤ mss * outNum
  room : ∀ m ∈ c.rest, L + payloadOff isIpv6 (c.head.data.drop L) ≤ m.mbuf.headroom.length

variable [Rte]

theorem segments_eq (hout : dpdkSegmentPacket vrIpId c isIpv6 L outNum mss csum = .segments out) :
    ∃ st split, dpdkGsoInitState c.head.data L isIpv6 csum = some st ∧
      dpdkSplitChainedMbuf c outNum st.hlen = .ok split ∧
      out = adjustLoop L (internalMd st c.head.md) vrIpId (segmentLoop true st split) := by
  unfold dpdkSegmentPacket at hout
  cases hst : dpdkGsoInitState c.head.data L isIpv6 csum with
  | none =>
    rw [hst] at hout
    exact nomatch hout
  | some st =>
    rw [hst] at hout
    dsimp only at hout
    split_ifs at hout
    cases hsplit : dpdkSplitChainedMbuf c outNum st.hlen with
    | error freed =>
      rw [hsplit] at hout
      exact nomatch hout
    | ok split =>
      rw [hsplit] at hout
      exact ⟨st, split, rfl, hsplit, (Result.segments.inj hout).symm⟩

variable [LawfulRte]

theorem segmentPacket_segments (hh : Headers isIpv6 L c.head.data)
    (hout : dpdkSegmentPacket vrIpId c isIpv6 L outNum mss csum = .segments out) :
    Exactly c isIpv6 L out ∧ out.map Buf.addr = c.bufs.map Buf.addr := by
  obtain ⟨st, split, hst, hsplit, rfl⟩ := segments_eq hout
  have halong := Along.init hst
  rw [halong.hlen] at hsplit
  obtain ⟨hcarry, htag⟩ := split_ok hh.inside hsplit
  obtain ⟨hs, haddr'⟩ := loops_segments hh true vrIpId halong hcarry
  exact ⟨hs.exactly hh.inside, haddr'.trans (addr_of_tag htag)⟩

theorem segmentPacket_owned (hh : Headers isIpv6 L c.head.data) :
    Owned c (dpdkSegmentPacket vrIpId c isIpv6 L outNum mss csum) := by
  have hall : ∀ ret, Owned c (.failed ret c.bufs []) := by
    intro ret
    exact ⟨by rw [List.append_nil], rfl⟩
  cases hres : dpdkSegmentPacket vrIpId c isIpv6 L outNum mss csum with
  | segments out => exact (segmentPacket_segments hh hres).2
  | failed ret left freed =>
    obtain ⟨st, hst⟩ := init_some csum hh
    have halong := Along.init hst
    unfold dpdkSegmentPacket at hres
    rw [hst] at hres
    dsimp only at hres
    split_ifs at hres with hmss
    · rw [← hres]
      exact hall (-22)
    · cases hsplit : dpdkSplitChainedMbuf c outNum st.hlen with
      | ok split =>
        rw [hsplit] at hres
        exact nomatch hres
      | error freed' =>
        rw [hsplit] at hres
        rw [← hres]
        have hhdr : (c.head.data.take st.hlen).length = st.hlen := by
          rw [List.length_take, halong.hlen, Nat.min_eq_left hh.inside]
        have haddrs : freed'.map Buf.addr = c.rest.map Buf.addr := by
          by_cases hn : 1 < outNum ∧ 0 < c.nbSegs
          · rw [split_eq hn.1 hn.2] at hsplit
            have := splitLoop_error c.rest [c.head] hhdr (by simp) hsplit
            rwa [List.tail_cons, List.nil_append] at this
          · rw [split_refused hn] at hsplit
            rw [← Except.error.inj hsplit]
        refine ⟨?_, rfl⟩
        rw [List.singleton_append, List.map_cons, haddrs]
        exact List.Perm.refl _

theorem segmentPacket_succeeds (hh : Headers isIpv6 L c.head.data)
    (hr : Ready c isIpv6 L outNum mss) (hnum : c.bufs.length < outNum) :
    ∃ out, dpdkSegmentPacket vrIpId c isIpv6 L outNum mss csum = .segments out := by
  obtain ⟨st, hst⟩ := init_some csum hh
  have halong := Along.init hst
  have hin := hh.inside
  have hsegs := hr.nbSegs
  have hpkt := hr.pktLen
  have hpay := hr.payload
  have hlen : c.bufs.length = c.rest.length + 1 := rfl
  have hdata : c.head.data.length ≤ (c.bufs.flatMap Buf.data).length := by
    rw [Chain.bufs, List.flatMap_cons, List.length_append]
    omega
  rw [Chain.payload, List.length_drop] at hpay
  have hmss : ¬ mss * outNum < (c.pktLen + 2 ^ 32 - st.hlen) % 2 ^ 16 := by
    rw [halong.hlen]
    omega
  obtain ⟨res, hres⟩ : ∃ res, splitLoop (c.head.data.take st.hlen) outNum c.nbSegs st.hlen c.rest
      [c.head] = .ok res := by
    refine splitLoop_succeeds c.rest [c.head] (by simp) ?_ ?_ ?_
    · rw [List.length_singleton]
      omega
    · rw [List.length_singleton]
      omega
    · rw [halong.hlen]
      exact hr.room
  unfold dpdkSegmentPacket
  rw [hst]
  dsimp only
  rw [if_neg hmss, split_eq (by omega) (by omega), hres]
  exact ⟨_, rfl⟩

omit [LawfulRte] in
theorem segmentPacket_fits (hout : dpdkSegmentPacket vrIpId c isIpv6 L outNum mss csum = .segments out) :
    c.bufs.length < outNum := by
  obtain ⟨st, split, -, hsplit, -⟩ := segments_eq hout
  by_cases hn : 1 < outNum ∧ 0 < c.nbSegs
  · rw [split_eq hn.1 hn.2] at hsplit
    have hfits := splitLoop_fits c.rest [c.head] hn.1 hsplit
    rwa [List.length_singleton, Nat.add_comm] at hfits
  · rw [split_refused hn] at hsplit
    cases hsplit

/-- **Segmentation is exact**: whenever it succeeds, the segments are those of the packet; on every
return every buffer has one owner; and a chain that nothing else stands against succeeds exactly if it
has fewer buffers than there is room for. -/
theorem dpdkSegmentPacket_exact (hh : Headers isIpv6 L c.head.data) :
    (∀ out, dpdkSegmentPacket vrIpId c isIpv6 L outNum mss csum = .segments out →
      Exactly c isIpv6 L out) ∧
    Owned c (dpdkSegmentPacket vrIpId c isIpv6 L outNum mss csum) ∧
    (Ready c isIpv6 L outNum mss →
      ((∃ out, dpdkSegmentPacket vrIpId c isIpv6 L outNum mss csum = .segments out) ↔
        c.bufs.length < outNum)) :=
  ⟨fun _ hout => (segmentPacket_segments hh hout).1, segmentPacket_owned hh,
    fun hr => ⟨fun hex => hex.elim fun _ hout => segmentPacket_fits hout,
      segmentPacket_succeeds hh hr⟩⟩

end Packet

/-! ### A chain of two buffers -/

open scoped Sample

/-- The headers of a packet in a GRE tunnel: Ethernet, IPv4 and GRE with a label, then IPv4 and TCP with
the flags CWR, PSH and FIN. -/
def greHeaders : List Byte :=
  [0, 0, 0, 0, 0, 1, 0, 0, 0, 0, 0, 2, 8, 0,
    69, 0, 0, 72, 0, 0, 0, 0, 64, 47, 0, 0, 192, 168, 0, 1, 192, 168, 0, 2,
    0, 0, 136, 71, 0, 1, 65, 64,
    69, 0, 0, 44, 0, 7, 0, 0, 64, 6, 0, 0, 10, 0, 0, 1, 10, 0, 0, 2,
    0, 80, 0, 81, 0, 0, 0, 1, 0, 0, 0, 1, 80, 153, 0, 100, 0, 0, 0, 0]

/-- A packet with four bytes of payload, two in each buffer. -/
def twoBuffers : Chain where
  head := { addr := 1, mbuf := ⟨[], greHeaders ++ [1, 2]⟩ }
  rest := [{ addr := 2, mbuf := ⟨List.replicate 82 0, [3, 4]⟩ }]
  nbSegs := 2
  pktLen := 86
  fits := by decide
  distinct := by decide

theorem twoBuffers_headers : Headers false 42 twoBuffers.head.data where
  proto := by decide
  ip := by decide
  tcp := by decide
  inside := by decide
  outer := ⟨by decide, by decide⟩

theorem twoBuffers_ready (outNum : ℕ) (h : 2 ≤ outNum) : Ready twoBuffers false 42 outNum 2 where
  nbSegs := rfl
  pktLen := by decide
  payload := by
    have hlen : (twoBuffers.payload false 42).length = 4 := by decide +kernel
    omega
  room := by decide +kernel

theorem dpdkSegmentPacket_two :
    twoBuffers.bufs.length < 3 ∧ Owned twoBuffers (dpdkSegmentPacket 0 twoBuffers false 42 3 2 false) ∧
      ∃ out, dpdkSegmentPacket 0 twoBuffers false 42 3 2 false = .segments out ∧
        Exactly twoBuffers false 42 out := by
  obtain ⟨hexact, howned, hsucc⟩ :=
    @dpdkSegmentPacket_exact twoBuffers 42 false 0 3 2 false _ _ twoBuffers_headers
  obtain ⟨out, hout⟩ := (hsucc (twoBuffers_ready 3 (by decide))).mpr (by decide)
  exact ⟨by decide, howned, out, hout, hexact out hout⟩

/-- **A full output is refused**: a chain of two buffers, for which there is room for two segments,
fails. -/
theorem fullOutput_refused : twoBuffers.bufs.length = 2 ∧ Ready twoBuffers false 42 2 2 ∧
    dpdkSegmentPacket 0 twoBuffers false 42 2 2 false =
      .failed (-1) [twoBuffers.head] [{ addr := 2, mbuf := ⟨[], greHeaders ++ [3, 4]⟩ }] :=
  ⟨rfl, twoBuffers_ready 2 le_rfl, by decide +kernel⟩

end Vrouter.Gso
