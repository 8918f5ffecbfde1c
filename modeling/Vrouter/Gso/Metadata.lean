import Vrouter.Gso.Exact

/-! # What a segment has from the head of its packet

Beside its inner bytes, a segment has the outer header of the packet, with the length, the
identification and the checksum that `dpdk_adjust_outer_header` writes, and the fields of its buffer.
They should be those that the head of the packet gives (`ofHead`).  Whether the identification is that
of the inner header is decided by the packet structure in the private area of the segment's own buffer,
though, and only that of the first buffer was written for this packet.  So the segments are those of the
head exactly if the types in the other private areas lead to the same identifications and the other
buffers came without flags of their own, and two packets that differ in these types only have the same
segments exactly if their identifications are the same (`segments_of_head`).  What an earlier use of a
buffer has left shows otherwise (`staleType_differs`). -/

namespace Vrouter.Gso

open Vrouter.Lib Vrouter.Packet Vrouter.Dpdk

/-! ### Identifications -/

/-- The identifications of the outer headers, for packets with these types and inner
identifications. -/
def outerIds : ℕ → List (VpType × ℕ) → List ℕ
  | _, [] => []
  | vrIpId, (type, inner) :: l =>
    if type = .ipoip then inner :: outerIds vrIpId l
    else swap16 (vrGenerateUniqueIpId vrIpId) :: outerIds (vrGenerateUniqueIpId vrIpId) l

/-- The words where an IPv4 header has its identification, in the inner headers of segments: in an IPv6
header the length of the payload is there. -/
def innerIdsFrom (isIpv6 : Bool) (tcpLen : ℕ) : ℕ → List (List Byte) → List ℕ
  | _, [] => []
  | id, pay :: pays =>
    swap16 (if isIpv6 then tcpLen + pay.length else id) ::
      innerIdsFrom isIpv6 tcpLen ((id + 1) % 2 ^ 16) pays

/-- The inner identifications of the segments of a packet. -/
def Chain.innerIds (c : Chain) (isIpv6 : Bool) (L : ℕ) : List ℕ :=
  let ip := c.head.data.drop L
  innerIdsFrom isIpv6 (tcpOffset ip (innerHlen isIpv6 ip) * 4) (be16 ip 4)
    (c.parts (L + payloadOff isIpv6 ip))

/-- The identifications by the types that the private areas of the buffers say. -/
def Chain.ownIds (c : Chain) (isIpv6 : Bool) (L vrIpId : ℕ) : List ℕ :=
  outerIds vrIpId ((c.bufs.map Buf.vpType).zip (c.innerIds isIpv6 L))

/-- The identifications by the type of the packet. -/
def Chain.headIds (c : Chain) (isIpv6 : Bool) (L vrIpId : ℕ) : List ℕ :=
  outerIds vrIpId ((c.innerIds isIpv6 L).map (Prod.mk c.head.vpType))

variable {c c' : Chain} {m : Buf} {out ms : List Buf} {h₀ : List Byte} {L n hdrLen vrIpId : ℕ}
  {outNum mss id : ℕ} {isIpv6 csum first last : Bool} {st : GsoState} {mbufIn : MbufMd}

theorem outerIds_length : ∀ (l : List (VpType × ℕ)) (v : ℕ), (outerIds v l).length = l.length
  | [], _ => rfl
  | (type, inner) :: l, v => by
    unfold outerIds
    split_ifs <;> rw [List.length_cons, List.length_cons, outerIds_length l]

theorem outerIds_lt : ∀ {l : List (VpType × ℕ)} (v : ℕ), (∀ x ∈ l, x.2 < 2 ^ 16) →
    ∀ id ∈ outerIds v l, id < 2 ^ 16
  | [], _, _ => by simp [outerIds]
  | (type, inner) :: l, v, hl => by
    have hrest := fun v => outerIds_lt v fun x hx => hl x (List.mem_cons_of_mem _ hx)
    unfold outerIds
    split_ifs
    · exact List.forall_mem_cons.mpr ⟨hl _ List.mem_cons_self, hrest _⟩
    · exact List.forall_mem_cons.mpr ⟨swap16_lt _, hrest _⟩

theorem innerIdsFrom_length (tcpLen : ℕ) : ∀ (pays : List (List Byte)) (id : ℕ),
    (innerIdsFrom isIpv6 tcpLen id pays).length = pays.length
  | [], _ => rfl
  | pay :: pays, id => by
    rw [innerIdsFrom, List.length_cons, List.length_cons, innerIdsFrom_length tcpLen pays]

theorem innerIdsFrom_lt (tcpLen : ℕ) : ∀ (pays : List (List Byte)) (id : ℕ),
    ∀ x ∈ innerIdsFrom isIpv6 tcpLen id pays, x < 2 ^ 16
  | [], _ => by simp [innerIdsFrom]
  | pay :: pays, id =>
    List.forall_mem_cons.mpr ⟨swap16_lt _, innerIdsFrom_lt tcpLen pays _⟩

theorem Chain.innerIds_length (c : Chain) (isIpv6 : Bool) (L : ℕ) :
    (c.innerIds isIpv6 L).length = c.bufs.length := by
  rw [Chain.innerIds, innerIdsFrom_length, Chain.parts, List.length_cons, List.length_map]
  rfl

theorem Chain.ownIds_length (c : Chain) (isIpv6 : Bool) (L vrIpId : ℕ) :
    (c.ownIds isIpv6 L vrIpId).length = c.bufs.length := by
  rw [Chain.ownIds, outerIds_length, List.length_zip, c.innerIds_length, List.length_map, Nat.min_self]

theorem Chain.ownIds_lt (c : Chain) (isIpv6 : Bool) (L vrIpId : ℕ) :
    ∀ x ∈ c.ownIds isIpv6 L vrIpId, x < 2 ^ 16 :=
  outerIds_lt _ fun x hx => innerIdsFrom_lt _ _ _ x.2 (List.of_mem_zip hx).2

theorem Chain.headIds_lt (c : Chain) (isIpv6 : Bool) (L vrIpId : ℕ) :
    ∀ x ∈ c.headIds isIpv6 L vrIpId, x < 2 ^ 16 := by
  refine outerIds_lt _ fun x hx => ?_
  obtain ⟨id, hid, rfl⟩ := List.mem_map.mp hx
  exact innerIdsFrom_lt _ _ _ id hid

/-- The identification can be read off the outer header. -/
theorem writeOuter_id {b : List Byte} (h : OuterFits L b) (hL : L ≤ b.length) (hid : id < 2 ^ 16) :
    le16 (writeOuter id b) (dpdkGetEtherHeaderLen b + 4) = id := by
  have hip := h.ip
  have hfits := h.fits
  rw [← outerHl] at hip hfits
  obtain ⟨w, hw⟩ := writeOuter_eq id b
  have hself : le16 (writeOuterIp id b) (dpdkGetEtherHeaderLen b + 4) = id := by
    unfold writeOuterIp
    refine le16_set16_self ?_ hid
    rw [set16_length]
    split_ifs at hfits <;> omega
  rw [hw]
  split_ifs
  · rw [le16_set16_of_disjoint (by omega), le16_set16_of_disjoint (by omega), hself]
  · rw [le16_set16_of_disjoint (by omega), hself]

theorem writeOuter_injective {b : List Byte} {id' : ℕ} (h : OuterFits L b) (hL : L ≤ b.length)
    (hid : id < 2 ^ 16) (hid' : id' < 2 ^ 16) : writeOuter id b = writeOuter id' b ↔ id = id' := by
  refine ⟨fun heq => ?_, fun heq => heq ▸ rfl⟩
  rw [← writeOuter_id h hL hid, heq, writeOuter_id h hL hid']

/-! ### The private areas -/

/-- A buffer without its private area. -/
def Buf.public (m : Buf) : Buf := { m with vpType := .null }

/-- Two packets that differ only in the private areas of the buffers behind the first. -/
structure SameButPrivate (c c' : Chain) : Prop where
  head : c'.head = c.head
  rest : c'.rest.map Buf.public = c.rest.map Buf.public
  nbSegs : c'.nbSegs = c.nbSegs
  pktLen : c'.pktLen = c.pktLen

theorem SameButPrivate.bufs (h : SameButPrivate c c') :
    c'.bufs.map Buf.public = c.bufs.map Buf.public := by
  rw [Chain.bufs, Chain.bufs, List.map_cons, List.map_cons, h.head, h.rest]

section Library

variable [Rte]

theorem addHeaders_public (m : Buf) (hdr : List Byte) :
    m.public.addHeaders hdr hdrLen = (m.addHeaders hdr hdrLen).map Buf.public := by
  change Option.map _ (rtePktmbufPrepend m.mbuf hdrLen) = Option.map _ (Option.map _ _)
  rw [Option.map_map]
  rfl

/-- Splitting does not look at the private areas. -/
theorem splitLoop_public (hdr : List Byte) (n tot hdrLen : ℕ) : ∀ next out : List Buf,
    splitLoop hdr n tot hdrLen (next.map Buf.public) (out.map Buf.public) =
      match splitLoop hdr n tot hdrLen next out with
      | .ok res => .ok (res.map Buf.public)
      | .error freed => .error (freed.map Buf.public)
  | [], out => rfl
  | curr :: next, out => by
    have hcurr : (if out.map Buf.public = [] then some curr.public
        else curr.public.addHeaders hdr hdrLen) =
        (if out = [] then some curr else curr.addHeaders hdr hdrLen).map Buf.public := by
      rw [addHeaders_public]
      cases out <;> rfl
    rw [List.map_cons, splitLoop, splitLoop, hcurr]
    cases (if out = [] then some curr else curr.addHeaders hdr hdrLen) with
    | none => simp
    | some curr' =>
      dsimp only [Option.map_some]
      rw [List.length_map]
      split_ifs
      · simp
      · have hrest := splitLoop_public hdr n tot hdrLen next (out ++ [curr'])
        rw [List.map_append, List.map_singleton] at hrest
        exact hrest

theorem segmentLoop_public : ∀ (ms : List Buf) (first : Bool) (st : GsoState),
    segmentLoop first st (ms.map Buf.public) = (segmentLoop first st ms).map Buf.public
  | [], _, _ => rfl
  | m :: ms, first, st => by
    have hrest := segmentLoop_public ms false (st.next m.data.length)
    rw [List.map_cons, segmentLoop, segmentLoop, List.map_cons, List.isEmpty_map]
    exact congrArg _ hrest

theorem split_public (h : SameButPrivate c c') (hout : dpdkSplitChainedMbuf c n hdrLen = .ok out) :
    ∃ out', dpdkSplitChainedMbuf c' n hdrLen = .ok out' ∧
      out'.map Buf.public = out.map Buf.public := by
  have hsame : splitLoop (c'.head.data.take hdrLen) n c'.nbSegs hdrLen (c'.bufs.map Buf.public) [] =
      splitLoop (c.head.data.take hdrLen) n c.nbSegs hdrLen (c.bufs.map Buf.public) [] := by
    rw [h.head, h.nbSegs, h.bufs]
  have hc := splitLoop_public (c.head.data.take hdrLen) n c.nbSegs hdrLen c.bufs []
  have hc' := splitLoop_public (c'.head.data.take hdrLen) n c'.nbSegs hdrLen c'.bufs []
  rw [List.map_nil] at hc hc'
  unfold dpdkSplitChainedMbuf at hout ⊢
  rw [hout] at hc
  rw [hsame, hc] at hc'
  cases hsplit : splitLoop (c'.head.data.take hdrLen) n c'.nbSegs hdrLen c'.bufs [] with
  | error freed =>
    rw [hsplit] at hc'
    cases hc'
  | ok out' =>
    rw [hsplit] at hc'
    exact ⟨out', rfl, (Except.ok.inj hc').symm⟩

/-! ### The first pass -/

theorem internalMd_next (st : GsoState) (k : ℕ) (md : MbufMd) :
    internalMd (st.next k) md = internalMd st md := by
  obtain ⟨hv, hm, hi, -, ho⟩ := next_keeps st k
  rw [internalMd, internalMd, hv, hm, hi, ho]

theorem segmentLoop_tags : ∀ (ms : List Buf) (first : Bool) (st : GsoState),
    (segmentLoop first st ms).map Buf.tag =
      ms.map fun m => (m.addr, internalMd st m.md, m.vpType)
  | [], _, _ => rfl
  | m :: ms, first, st => by
    rw [segmentLoop, List.map_cons, List.map_cons, segmentLoop_tags ms]
    simp only [internalMd_next]
    rfl

theorem segmentInner_id {olFlags pktLen : ℕ} {ip : List Byte} (h20 : 20 ≤ st.ipHlen)
    (hlen : 20 ≤ ip.length) : ipId (segmentInner st first last olFlags pktLen ip) =
      swap16 (if st.isIpv6 then (pktLen + 2 ^ 32 - st.macHlen - st.ipHlen) % 2 ^ 16 else st.ipId) := by
  have hflags : (writeFlags first last ip st.ipHlen).length = ip.length := writeFlags_length
  have hkeep : ∀ j, j = 4 ∨ j = 5 → u8 (segmentInner st first last olFlags pktLen ip) j =
      u8 (writeLengths st pktLen (writeFlags first last ip st.ipHlen)) j := by
    intro j hj
    rw [segmentInner_eq, writeCsums_u8 (by omega) (fun _ => by omega)]
  have hle : le16 (segmentInner st first last olFlags pktLen ip) 4 =
      le16 (writeLengths st pktLen (writeFlags first last ip st.ipHlen)) 4 := by
    rw [le16, le16, hkeep 4 (.inl rfl), hkeep 5 (.inr rfl)]
  rw [ipId, hle, writeLengths, (setBytes_sameOutside ..).le16 (.inl (by omega))]
  split_ifs
  · exact le16_set16_self (by omega) (swap16_lt _)
  · rw [le16_set16_of_disjoint (by omega), le16_set16_self (by omega) (swap16_lt _)]

/-- The segments after the first pass: the outer header of the packet is in front of them, and their
inner identifications count up. -/
theorem segmentLoop_inner (hh : Headers isIpv6 L h₀) {pays : List (List Byte)} (first : Bool) {sent : ℕ}
    (hst : Along isIpv6 L h₀ sent st)
    (hall : List.Forall₂ (Carries (h₀.take (L + payloadOff isIpv6 (h₀.drop L)))) out pays) :
    (∀ m ∈ segmentLoop first st out, L ≤ m.data.length ∧ h₀.take L ++ m.data.drop L = m.data) ∧
      (segmentLoop first st out).map (fun m => ipId (m.data.drop L)) =
        innerIdsFrom isIpv6 (tcpOffset (h₀.drop L) (innerHlen isIpv6 (h₀.drop L)) * 4) st.ipId
          pays := by
  induction hall generalizing first sent st with
  | nil => exact ⟨by simp [segmentLoop], rfl⟩
  | @cons m pay ms pays hm _ ih =>
    obtain ⟨hlen, hbytes⟩ := hm.headers hh
    have hip := hh.ip
    have htcp := hh.tcp
    have hin := hh.inside
    have hL : L ≤ m.data.length := by omega
    obtain ⟨hrest, hids⟩ := ih false (hst.next (hst.hlen.symm ▸ hlen))
    have htake : m.data.take L = h₀.take L := by
      rw [hm.1, List.take_append_of_le_length (by rw [List.length_take]; omega), List.take_take,
        Nat.min_eq_left (by omega)]
    have hinner : (segmentOne st first ms.isEmpty m).data.drop L = _ := segmentOne_inner hL hst.mac
    rw [segmentLoop]
    refine ⟨List.forall_mem_cons.mpr ⟨⟨by rwa [segmentOne_length], ?_⟩, hrest⟩, ?_⟩
    · rw [hinner, segmentOne_data, hst.mac, htake]
    · rw [List.map_cons, innerIdsFrom, hids, hinner,
        segmentInner_id (hst.ip ▸ hip) (by rw [List.length_drop]; omega), hst.version, hst.mac, hst.ip]
      congr 2
      have hlt := hm.2
      unfold payloadOff at hlen
      split_ifs <;> omega

/-! ### The second pass -/

/-- What the second pass makes of a buffer. -/
def finish (mbufIn : MbufMd) (id : ℕ) (m : Buf) : Buf :=
  { m.withData (writeOuter id m.data) with md := finalMd mbufIn m.md }

variable [LawfulRte]

theorem adjustLoop_eq : ∀ (ms : List Buf) (v : ℕ), (∀ m ∈ ms, L ≤ m.data.length) →
    adjustLoop L mbufIn v ms = List.zipWith (finish mbufIn)
      (outerIds v (ms.map fun m => (m.vpType, ipId (m.data.drop L)))) ms
  | [], _, _ => rfl
  | m :: ms, v, hms => by
    have hrest := fun v => adjustLoop_eq ms v fun m hm => hms m (List.mem_cons_of_mem _ hm)
    obtain ⟨hone, hnext⟩ := adjust_data (hms m List.mem_cons_self) v
    rw [adjustLoop_cons, hone, hnext, List.map_cons, outerIds, hrest]
    split_ifs <;> rfl

/-- The segments of a packet, as both passes make them. -/
theorem segments_finish (hh : Headers isIpv6 L c.head.data)
    (hst : dpdkGsoInitState c.head.data L isIpv6 csum = some st)
    (hout : dpdkSegmentPacket vrIpId c isIpv6 L outNum mss csum = .segments out) :
    ∃ split, dpdkSplitChainedMbuf c outNum st.hlen = .ok split ∧
      out = List.zipWith (finish (internalMd st c.head.md)) (c.ownIds isIpv6 L vrIpId)
        (segmentLoop true st split) ∧
      (segmentLoop true st split).map Buf.tag =
        c.bufs.map (fun m => (m.addr, internalMd st m.md, m.vpType)) ∧
      (∀ m ∈ segmentLoop true st split, L ≤ m.data.length ∧
        c.head.data.take L ++ m.data.drop L = m.data) ∧
      (segmentLoop true st split).map (fun m => ipId (m.data.drop L)) = c.innerIds isIpv6 L := by
  obtain ⟨st', split, hst', hsplit, rfl⟩ := segments_eq hout
  cases hst.symm.trans hst'
  have halong := Along.init hst
  have hid : st.ipId = be16 (c.head.data.drop L) 4 := by
    unfold dpdkGsoInitState at hst
    dsimp only at hst
    rw [if_neg (not_not.mpr hh.proto)] at hst
    cases hst
    rfl
  obtain ⟨hcarry, htag⟩ := split_ok hh.inside (halong.hlen ▸ hsplit)
  obtain ⟨hdata, hids⟩ := segmentLoop_inner hh true halong hcarry
  rw [hid] at hids
  have htags : (segmentLoop true st split).map Buf.tag =
      c.bufs.map fun m => (m.addr, internalMd st m.md, m.vpType) := by
    rw [segmentLoop_tags]
    have hmap := congrArg (List.map fun t : ℕ × MbufMd × VpType => (t.1, internalMd st t.2.1, t.2.2)) htag
    rwa [List.map_map, List.map_map] at hmap
  refine ⟨split, hsplit, ?_, htags, hdata, hids⟩
  have htypes : (segmentLoop true st split).map Buf.vpType = c.bufs.map Buf.vpType := by
    have hmap := congrArg (List.map fun t : ℕ × MbufMd × VpType => t.2.2) htags
    rwa [List.map_map, List.map_map] at hmap
  rw [adjustLoop_eq _ _ fun m hm => (hdata m hm).1, Chain.ownIds, ← htypes, Chain.innerIds, ← hids,
    List.zip_map']

/-! ### Segments of the head -/

omit [LawfulRte] in
/-- The data and the fields of the segments with these inner bytes, as the head of the packet gives
them. -/
def ofHead (c : Chain) (L vrIpId : ℕ) (st : GsoState) (inners : List (List Byte)) :
    List (List Byte × MbufMd) :=
  List.zipWith (fun id inner => (writeOuter id (c.head.data.take L ++ inner), internalMd st c.head.md))
    (outerIds vrIpId (inners.map fun inner => (c.head.vpType, ipId inner))) inners

omit [Rte] [LawfulRte] in
theorem zipWith_eq_iff {α β γ : Type} {f g : α → β → γ} {P : β → Prop} {as bs : List α} {l : List β}
    (ha : as.length = l.length) (hb : bs.length = l.length)
    (h : ∀ a ∈ as, ∀ b ∈ bs, ∀ x ∈ l, f a x = g b x ↔ a = b ∧ P x) :
    List.zipWith f as l = List.zipWith g bs l ↔ as = bs ∧ ∀ x ∈ l, P x := by
  induction l generalizing as bs with
  | nil =>
    obtain rfl := List.length_eq_zero_iff.mp ha
    obtain rfl := List.length_eq_zero_iff.mp hb
    simp
  | cons x l ih =>
    obtain ⟨a, as, rfl⟩ := List.exists_cons_of_length_eq_add_one ha
    obtain ⟨b, bs, rfl⟩ := List.exists_cons_of_length_eq_add_one hb
    have hrest := ih (Nat.succ.inj ha) (Nat.succ.inj hb) fun a ha b hb x hx =>
      h a (List.mem_cons_of_mem _ ha) b (List.mem_cons_of_mem _ hb) x (List.mem_cons_of_mem _ hx)
    rw [List.zipWith_cons_cons, List.zipWith_cons_cons, List.cons_eq_cons, List.cons_eq_cons,
      List.forall_mem_cons, hrest, h a List.mem_cons_self b List.mem_cons_self x List.mem_cons_self]
    tauto

omit [LawfulRte] in
/-- The fields of a segment are those of the head exactly if its flags are among those of the head. -/
theorem finalMd_eq_iff (md head : MbufMd) :
    finalMd (internalMd st head) (internalMd st md) = internalMd st head ↔
      md.olFlags ||| (internalMd st head).olFlags = (internalMd st head).olFlags := by
  have hflags : (internalMd st md).olFlags ||| (internalMd st head).olFlags =
      md.olFlags ||| (internalMd st head).olFlags := by
    unfold internalMd
    split_ifs
    · dsimp only
      rw [Nat.or_assoc, Nat.or_left_comm (txFlags st.isIpv6), Nat.or_self]
    · rfl
  rw [← hflags]
  refine ⟨fun h => congrArg MbufMd.olFlags h, fun h => ?_⟩
  unfold finalMd
  rw [h]

omit [Rte] [LawfulRte] in
theorem OuterFits.behind {outer d : List Byte} (hL : outer.length = L) (h : OuterFits L outer)
    (hd : outer ++ d.drop L = d) : OuterFits L d :=
  h.congr fun j hj => by rw [← hd, u8_append_left (by omega)]

theorem segments_ofHead_iff (hh : Headers isIpv6 L c.head.data)
    (hst : dpdkGsoInitState c.head.data L isIpv6 csum = some st)
    (hout : dpdkSegmentPacket vrIpId c isIpv6 L outNum mss csum = .segments out) :
    out.map (fun m => (m.data, m.md)) = ofHead c L vrIpId st (out.map fun m => m.data.drop L) ↔
      c.ownIds isIpv6 L vrIpId = c.headIds isIpv6 L vrIpId ∧
        ∀ m ∈ c.rest, m.md.olFlags ||| (internalMd st c.head.md).olFlags =
          (internalMd st c.head.md).olFlags := by
  obtain ⟨split, -, rfl, htags, hdata, hids⟩ := segments_finish hh hst hout
  generalize segmentLoop true st split = segs at htags hdata hids ⊢
  have hin := hh.inside
  have hlenL : (c.head.data.take L).length = L := by
    rw [List.length_take]
    omega
  have hfits : ∀ m ∈ segs, OuterFits L m.data := fun m hm =>
    OuterFits.behind hlenL (hh.outer.congr fun j hj => u8_take hj) (hdata m hm).2
  have hlen : segs.length = c.bufs.length := by simpa using congrArg List.length htags
  have hown : (c.ownIds isIpv6 L vrIpId).length = segs.length := by rw [c.ownIds_length, hlen]
  have hhead : (c.headIds isIpv6 L vrIpId).length = segs.length := by
    rw [Chain.headIds, outerIds_length, List.length_map, c.innerIds_length, hlen]
  -- the inner bytes are those of the first pass
  have hinners : (List.zipWith (finish (internalMd st c.head.md)) (c.ownIds isIpv6 L vrIpId) segs).map
      (fun m => m.data.drop L) = segs.map fun m => m.data.drop L := by
    rw [List.map_zipWith]
    refine List.ext_getElem (by simp [hown]) fun k hk hk' => ?_
    rw [List.getElem_zipWith, List.getElem_map]
    exact writeOuter_drop (hfits _ (List.getElem_mem _))
  have hof : ofHead c L vrIpId st (segs.map fun m => m.data.drop L) =
      List.zipWith (fun id m => (writeOuter id m.data, internalMd st c.head.md))
        (c.headIds isIpv6 L vrIpId) segs := by
    rw [ofHead, Chain.headIds, ← hids, List.map_map, List.map_map, List.zipWith_map_right]
    change List.zipWith _ (outerIds vrIpId (segs.map fun m => (c.head.vpType, ipId (m.data.drop L)))) _ =
      List.zipWith _ (outerIds vrIpId (segs.map fun m => (c.head.vpType, ipId (m.data.drop L)))) _
    refine List.ext_getElem (by simp) fun k hk hk' => ?_
    rw [List.getElem_zipWith, List.getElem_zipWith, (hdata _ (List.getElem_mem _)).2]
  rw [hinners, hof, List.map_zipWith, zipWith_eq_iff
    (P := fun m => finalMd (internalMd st c.head.md) m.md = internalMd st c.head.md) hown hhead]
  · have hmds : segs.map Buf.md = c.bufs.map fun m => internalMd st m.md := by
      have hmap := congrArg (List.map fun t : ℕ × MbufMd × VpType => t.2.1) htags
      rwa [List.map_map, List.map_map] at hmap
    have hall : (∀ m ∈ segs, finalMd (internalMd st c.head.md) m.md = internalMd st c.head.md) ↔
        ∀ md ∈ segs.map Buf.md, finalMd (internalMd st c.head.md) md = internalMd st c.head.md := by
      simp only [List.mem_map, forall_exists_index, and_imp, forall_apply_eq_imp_iff₂]
    rw [hall, hmds, List.forall_mem_map, Chain.bufs, List.forall_mem_cons]
    simp only [finalMd_eq_iff]
    have hself : c.head.md.olFlags ||| (internalMd st c.head.md).olFlags =
        (internalMd st c.head.md).olFlags := by
      unfold internalMd
      split_ifs
      · dsimp only
        rw [← Nat.or_assoc, Nat.or_self]
      · exact Nat.or_self _
    exact and_congr_right fun _ => and_iff_right hself
  · intro a ha b hb m hm
    have hinj := writeOuter_injective (hfits m hm) (hdata m hm).1 (c.ownIds_lt isIpv6 L vrIpId a ha)
      (c.headIds_lt isIpv6 L vrIpId b hb)
    rw [← hinj]
    exact Prod.ext_iff

/-- Two packets that differ in the private areas have the same segments exactly if the identifications
are the same. -/
theorem segments_public_iff (hh : Headers isIpv6 L c.head.data) (hsame : SameButPrivate c c')
    (hout : dpdkSegmentPacket vrIpId c isIpv6 L outNum mss csum = .segments out) :
    ∃ out', dpdkSegmentPacket vrIpId c' isIpv6 L outNum mss csum = .segments out' ∧
      (out'.map Buf.public = out.map Buf.public ↔
        c'.ownIds isIpv6 L vrIpId = c.ownIds isIpv6 L vrIpId) := by
  obtain ⟨st, hst⟩ := init_some csum hh
  obtain ⟨split, hsplit, rfl, htags, hdata, -⟩ := segments_finish hh hst hout
  obtain ⟨split', hsplit', hpublic⟩ := split_public hsame hsplit
  have hres : dpdkSegmentPacket vrIpId c' isIpv6 L outNum mss csum =
      .segments (adjustLoop L (internalMd st c'.head.md) vrIpId (segmentLoop true st split')) := by
    unfold dpdkSegmentPacket at hout ⊢
    rw [hst] at hout
    rw [hsame.head, hsame.pktLen, hst]
    dsimp only at hout ⊢
    rw [hsplit']
    split_ifs at hout ⊢
    rfl
  refine ⟨_, hres, ?_⟩
  have hh' : Headers isIpv6 L c'.head.data := hsame.head.symm ▸ hh
  have hst' : dpdkGsoInitState c'.head.data L isIpv6 csum = some st := hsame.head.symm ▸ hst
  obtain ⟨split'', hsplit'', hfinish, -⟩ := segments_finish hh' hst' hres
  cases hsplit'.symm.trans hsplit''
  rw [hfinish, hsame.head]
  -- both packets come out of the first pass alike
  have hloop : (segmentLoop true st split').map Buf.public =
      (segmentLoop true st split).map Buf.public := by
    rw [← segmentLoop_public, ← segmentLoop_public, hpublic]
  have hmap : ∀ (ids : List ℕ) (ms : List Buf),
      (List.zipWith (finish (internalMd st c.head.md)) ids ms).map Buf.public =
        List.zipWith (finish (internalMd st c.head.md)) ids (ms.map Buf.public) := by
    intro ids ms
    rw [List.map_zipWith, List.zipWith_map_right]
    rfl
  have hlen : ((segmentLoop true st split).map Buf.public).length = c.bufs.length := by
    simpa using congrArg List.length htags
  have hlen' : c'.bufs.length = c.bufs.length := by simpa using congrArg List.length hsame.bufs
  rw [hmap, hmap, hloop, zipWith_eq_iff (P := fun _ => True) (by rw [c'.ownIds_length, hlen, hlen'])
    (by rw [c.ownIds_length, hlen])]
  · simp
  · intro a ha b hb x hx
    obtain ⟨m, hm, rfl⟩ := List.mem_map.mp hx
    have hin := hh.inside
    have hfits := OuterFits.behind (by rw [List.length_take]; omega)
      (hh.outer.congr fun j hj => u8_take hj) (hdata m hm).2
    have hinj := writeOuter_injective hfits (hdata m hm).1 (c'.ownIds_lt isIpv6 L vrIpId a ha)
      (c.ownIds_lt isIpv6 L vrIpId b hb)
    rw [and_true, ← hinj]
    refine ⟨fun heq => congrArg Buf.data heq, fun heq => ?_⟩
    unfold finish
    rw [show m.public.data = m.data from rfl, heq]

/-- **Segments depend on the head of their packet** and on their own inner bytes exactly if the private
areas of the other buffers lead to the identifications that the type of the head gives, and the flags of
these buffers are among those of the head; and the private areas do not show in the segments exactly if
they lead to the same identifications. -/
theorem segments_of_head (hh : Headers isIpv6 L c.head.data)
    (hst : dpdkGsoInitState c.head.data L isIpv6 csum = some st)
    (hout : dpdkSegmentPacket vrIpId c isIpv6 L outNum mss csum = .segments out) :
    (out.map (fun m => (m.data, m.md)) = ofHead c L vrIpId st (out.map fun m => m.data.drop L) ↔
      c.ownIds isIpv6 L vrIpId = c.headIds isIpv6 L vrIpId ∧
        ∀ m ∈ c.rest, m.md.olFlags ||| (internalMd st c.head.md).olFlags =
          (internalMd st c.head.md).olFlags) ∧
    ∀ c', SameButPrivate c c' →
      ∃ out', dpdkSegmentPacket vrIpId c' isIpv6 L outNum mss csum = .segments out' ∧
        (out'.map Buf.public = out.map Buf.public ↔
          c'.ownIds isIpv6 L vrIpId = c.ownIds isIpv6 L vrIpId) :=
  ⟨segments_ofHead_iff hh hst hout, fun _ hsame => segments_public_iff hh hsame hout⟩

end Library

/-! ### A buffer that was used before -/

open scoped Sample

/-- The packet of two buffers with IPv4 inside; the second buffer was used before. -/
def staleType (type : VpType) : Chain where
  head := { twoBuffers.head with vpType := .ipoip }
  rest := [{ addr := 2, mbuf := ⟨List.replicate 82 0, [3, 4]⟩, vpType := type }]
  nbSegs := 2
  pktLen := 86
  fits := by cases type <;> decide
  distinct := by cases type <;> decide

/-- The identifications of the outer headers of the segments. -/
def idsOf : Result → List ℕ
  | .segments out => out.map fun m => be16 m.data 18
  | .failed .. => []

theorem segments_of_head_stale : ∃ st out,
    dpdkSegmentPacket 0 (staleType .ipoip) false 42 3 2 false = .segments out ∧
    out.map (fun m => (m.data, m.md)) =
      ofHead (staleType .ipoip) 42 0 st (out.map fun m => m.data.drop 42) := by
  obtain ⟨st, hst⟩ := init_some false twoBuffers_headers
  have hids : idsOf (dpdkSegmentPacket 0 (staleType .ipoip) false 42 3 2 false) = [7, 8] := by
    decide +kernel
  cases hout : dpdkSegmentPacket 0 (staleType .ipoip) false 42 3 2 false with
  | segments out =>
    have hhead : Headers false 42 (staleType .ipoip).head.data := twoBuffers_headers
    refine ⟨st, out, rfl, (segments_of_head hhead hst hout).1.mpr ⟨by decide +kernel, ?_⟩⟩
    intro m hm
    obtain rfl := List.mem_singleton.mp hm
    exact Nat.zero_or _
  | failed ret left freed =>
    rw [hout] at hids
    cases hids

/-- **Stale metadata shows**: two packets that differ only in what the private area of the second buffer
says have different segments. -/
theorem staleType_differs : SameButPrivate (staleType .ipoip) (staleType .ip) ∧
    idsOf (dpdkSegmentPacket 0 (staleType .ipoip) false 42 3 2 false) = [7, 8] ∧
    idsOf (dpdkSegmentPacket 0 (staleType .ip) false 42 3 2 false) = [7, 1] := by
  refine ⟨⟨rfl, rfl, rfl, rfl⟩, ?_, ?_⟩ <;> decide +kernel

end Vrouter.Gso
