import Vrouter.Gro.Model

/-! # What an entry holds, and what its flush sends

An entry stands for the frames that were merged into it (`Holds`): the first one with its headers, and
of the others the payloads, one buffer for each.  When the entry is flushed, only fields of the
headers are written (`header_u8`), so what is sent is a packet of the same flow whose payload is that
of the frames, in order, whose sequence number is that of the first one, and whose lengths are those
of its buffers (`packet_describes`). -/

namespace Vrouter.Gro

open Vrouter.Lib Vrouter.Packet Vrouter.Dpdk

variable {f : Frame} {p q : IpPart} {e : GroEntry} {k : GroKey} {b c : List Byte} {j t v : ℕ}

/-! ### Frames -/

/-- What the IP header of a frame says. -/
def Frame.part (f : Frame) : Option IpPart := parseIp f.vif.vifIdx f.nw

def Frame.key (f : Frame) : Option GroKey := f.part.map IpPart.key

/-- The payload of a TCP segment, as the IP length ends it. -/
def IpPart.payload (p : IpPart) (b : List Byte) : List Byte :=
  slice b (p.hlen + tcpHlen b p.hlen) (p.l4Len - tcpHlen b p.hlen)

/-- The payload of a frame. -/
def Frame.payload (f : Frame) : List Byte := (f.part.map fun p => p.payload f.bytes).getD []

/-- The sequence number of a frame. -/
def Frame.seq (f : Frame) : ℕ := (f.part.map fun p => tcpSeq f.bytes p.hlen).getD 0

/-- A frame whose buffers end where the IP length says, with its headers in the first one. -/
structure Frame.Plain (f : Frame) (p : IpPart) : Prop where
  inside : f.nwOff ≤ f.head.data.length
  ip : 20 ≤ p.hlen
  tcp : 20 ≤ tcpHlen f.nw p.hlen
  headers : p.hlen + tcpHlen f.nw p.hlen ≤ f.nw.length
  length : f.bytes.length = p.hlen + p.l4Len

/-- A segment that can be merged. -/
structure Frame.Whole (f : Frame) (p : IpPart) : Prop extends f.Plain p where
  part : f.part = some p
  single : f.rest = []
  hlen : p.hlen = if p.key.isIpv6 then 40 else 20
  even : p.tcpDataLen f.nw % 2 = 0
  option : tcpHlen f.nw p.hlen = 20 ∨ tcpHlen f.nw p.hlen = 32

/-- What the IP header of a TCP segment is read as. -/
structure Parsed (v : ℕ) (b : List Byte) (p : IpPart) : Prop where
  version : vrIpIsIp4 b = true ∨ vrIpIsIp6 b = true
  vifIdx : p.key.vifIdx = v
  proto : p.key.proto = vrIpProtoTcp
  ipSrc : p.key.ipSrc.length ≤ 16
  ipDst : p.key.ipDst.length ≤ 16
  hlen : p.hlen = if p.key.isIpv6 then 40 else ipHl b * 4
  ipPktLen : p.ipPktLen = if p.key.isIpv6 then (be16 b 4 + 40) % 2 ^ 16 else be16 b 2
  l4Len : p.l4Len = if p.key.isIpv6 then be16 b 4 else (be16 b 2 + 2 ^ 16 - ipHl b * 4) % 2 ^ 16

theorem parseIp_parsed (h : parseIp v b = some p) : Parsed v b p := by
  unfold parseIp at h
  split_ifs at h with h6 hnxt h4 hproto
  · cases h
    exact ⟨.inr h6, rfl, not_not.mp hnxt, slice_length_le b 8 16, slice_length_le b 24 16, rfl, rfl,
      rfl⟩
  · cases h
    exact ⟨.inl h4, rfl, not_not.mp hproto, (slice_length_le b 12 4).trans (by decide),
      (slice_length_le b 16 4).trans (by decide), rfl, rfl, rfl⟩

theorem parseIp_hlen (h : parseIp v b = some p) (hflush : p.flush = false) :
    p.hlen = if p.key.isIpv6 then 40 else 20 := by
  unfold parseIp at h
  split_ifs at h
  · cases h
    rfl
  · cases h
    simp only [Bool.or_eq_false_iff, decide_eq_false_iff_not, not_not] at hflush
    exact hflush.2

theorem Frame.Plain.whole (h : f.Plain p) (hp : f.part = some p) (hflush : f.flush p = false) :
    f.Whole p := by
  simp only [Frame.flush, Bool.or_eq_false_iff, Bool.and_eq_false_iff, decide_eq_false_iff_not,
    not_not] at hflush
  obtain ⟨⟨⟨⟨hrest, hip⟩, -⟩, hopt⟩, hodd⟩ := hflush
  have htcp := h.tcp
  have hlt : tcpHlen f.nw p.hlen < 64 := by
    have := u8_lt f.nw (p.hlen + 12)
    unfold tcpHlen tcpOffset
    omega
  refine ⟨h, hp, hrest, parseIp_hlen hp hip, by omega, ?_⟩
  unfold optionLen tcpolenTstampAppa at hopt
  omega

theorem Frame.nw_lt (f : Frame) : f.nw.length < 2 ^ 16 := by
  have hfits := f.fits
  rw [Frame.nw, List.length_drop]
  omega

theorem computedCsum_lt [Rte] (f : Frame) (p : IpPart) : f.computedCsum p < 2 ^ 16 := by
  unfold Frame.computedCsum
  dsimp only
  split_ifs <;> first | decide | exact Fin.isLt _

namespace Frame.Whole

variable (h : f.Whole p)

include h

theorem bytes_eq : f.bytes = f.nw := by
  rw [Frame.bytes, h.single, chainData_nil, List.append_nil]

theorem nw_length : f.nw.length = p.hlen + p.l4Len := by
  rw [← h.bytes_eq]
  exact h.length

theorem data_length : f.head.data.length = f.nwOff + f.nw.length := by
  have hin := h.inside
  rw [Frame.nw, List.length_drop]
  omega

theorem tcpDataLen_eq : p.tcpDataLen f.nw = p.l4Len - tcpHlen f.nw p.hlen := by
  have hlen := h.nw_length
  have hlt := f.nw_lt
  have hhdr := h.headers
  unfold IpPart.tcpDataLen
  omega

theorem payload_eq : f.payload = f.nw.drop (p.hlen + tcpHlen f.nw p.hlen) := by
  have hlen := h.nw_length
  have hhdr := h.headers
  rw [Frame.payload, h.part]
  change p.payload f.bytes = _
  rw [h.bytes_eq, IpPart.payload, slice, List.take_of_length_le (by rw [List.length_drop]; omega)]

theorem payload_length : f.payload.length = p.tcpDataLen f.nw := by
  have hlen := h.nw_length
  have hhdr := h.headers
  rw [h.payload_eq, List.length_drop, h.tcpDataLen_eq]
  omega

theorem seq_eq : f.seq = tcpSeq f.nw p.hlen := by
  rw [Frame.seq, h.part, h.bytes_eq]
  rfl

theorem ipPktLen_eq : p.ipPktLen = f.nw.length := by
  have hlen := h.nw_length
  have hlt := f.nw_lt
  have hp := parseIp_parsed h.part
  have hbe := be16_lt f.nw 2
  rw [hp.hlen, hp.l4Len] at hlen
  rw [hp.ipPktLen]
  split_ifs at hlen ⊢ <;> omega

end Frame.Whole

/-! ### The bytes that a flush leaves alone -/

/-- The offsets that a flush may write to, for a TCP header behind an IPv6 or an IPv4 header, with
timestamps or without. -/
def Written (t : ℕ) (timestamp : Bool) (j : ℕ) : Prop :=
  (t = 40 ∧ 4 ≤ j ∧ j < 6) ∨ (t = 20 ∧ (2 ≤ j ∧ j < 4 ∨ 10 ≤ j ∧ j < 12)) ∨
    (t + 8 ≤ j ∧ j < t + 12) ∨ (t + 14 ≤ j ∧ j < t + 18) ∨
    (timestamp = true ∧ t + 24 ≤ j ∧ j < t + 32)

theorem writeIp_length (e : GroEntry) (b : List Byte) : (e.writeIp b).length = b.length := by
  unfold GroEntry.writeIp
  split_ifs <;> simp

theorem writeTcp_length (e : GroEntry) (b : List Byte) : (e.writeTcp b).length = b.length := by
  unfold GroEntry.writeTcp
  dsimp only
  split_ifs <;> simp

theorem writeCsum_length (e : GroEntry) (b : List Byte) : (e.writeCsum b).length = b.length :=
  set16_length ..

theorem header_length (e : GroEntry) : e.header.data.length = e.mbufHead.data.length := by
  unfold GroEntry.header
  split_ifs
  · exact (writeCsum_length ..).trans ((writeTcp_length ..).trans (writeIp_length ..))
  · rfl

section

variable (h : ¬ Written e.tcpOff e.timestamp j)
include h

theorem writeIp_u8 : u8 (e.writeIp b) j = u8 b j := by
  unfold Written GroEntry.tcpOff at h
  unfold GroEntry.writeIp
  split_ifs at h ⊢
  · exact u8_set16_of_ne (by omega) _
  · dsimp only
    rw [u8_set16_of_ne (by omega), u8_set16_of_ne (by omega)]

theorem writeTcp_u8 : u8 (e.writeTcp b) j = u8 b j := by
  unfold Written at h
  have hack : ∀ d, u8 (setBytes d (e.tcpOff + 8) (beBytes32 e.ackSeq)) j = u8 d j :=
    fun d => u8_setBytes_of_disjoint (by rw [beBytes32_length]; omega)
  unfold GroEntry.writeTcp
  dsimp only
  split_ifs with hts
  · simp only [hts, true_and] at h
    rw [u8_setBytes_of_disjoint (by rw [beBytes32_length]; omega),
      u8_setBytes_of_disjoint (by rw [beBytes32_length]; omega),
      u8_set16_of_ne (by omega), hack]
  · rw [u8_set16_of_ne (by omega), hack]

theorem header_u8 : u8 e.header.data j = u8 e.mbufHead.data j := by
  unfold GroEntry.header
  split_ifs
  · have hcsum : ∀ d, u8 (e.writeCsum d) j = u8 d j := by
      unfold Written at h
      exact fun d => u8_set16_of_ne (by omega) _
    exact (hcsum _).trans ((writeTcp_u8 h).trans (writeIp_u8 h))
  · rfl

end

/-! ### What is read off the flushed header -/

/-- Two byte strings whose headers differ only where a flush writes. -/
structure SameFlow (t : ℕ) (b c : List Byte) : Prop where
  length : b.length ≤ c.length
  headers : t + 20 ≤ b.length
  bytes : ∀ j < t + 20, ¬ Written t false j → u8 c j = u8 b j

namespace SameFlow

theorem u8 (h : SameFlow t b c) (hj : j < t + 20) (hw : ¬ Written t false j) : u8 c j = u8 b j :=
  h.bytes j hj hw

theorem be16 (h : SameFlow t b c) (hj : j + 1 < t + 20) (hw : ¬ Written t false j)
    (hw' : ¬ Written t false (j + 1)) : be16 c j = be16 b j := by
  rw [Lib.be16, Lib.be16, h.u8 (by omega) hw, h.u8 hj hw']

theorem slice (h : SameFlow t b c) {n : ℕ} (hj : j + n ≤ t + 20)
    (hw : ∀ i < n, ¬ Written t false (j + i)) : Lib.slice c j n = Lib.slice b j n := by
  have hb := h.headers
  have htake : Lib.slice c j n = Lib.slice (c.take b.length) j n := (slice_take (by omega)).symm
  rw [htake]
  refine slice_congr ?_ fun i hi => ?_
  · rw [List.length_take, Nat.min_eq_left h.length]
  · rw [u8_take (by omega)]
    exact h.u8 (by omega) (hw i hi)

end SameFlow

theorem not_written_of_lt (ht : 20 ≤ t)
    (hj : j < 2 ∨ 6 ≤ j ∧ j < 10 ∨ 12 ≤ j ∧ j < t + 8 ∨ t = 40 ∧ 6 ≤ j ∧ j < 48) :
    ¬ Written t false j := by
  unfold Written
  omega

theorem SameFlow.tcpHlen (h : SameFlow t b c) : tcpHlen c t = tcpHlen b t := by
  unfold Gro.tcpHlen tcpOffset
  rw [h.u8 (by omega) (by unfold Written; omega)]

theorem SameFlow.tcpSeq (h : SameFlow t b c) (ht : 20 ≤ t) : tcpSeq c t = tcpSeq b t := by
  have hw : ∀ i < 4, ¬ Written t false (t + 4 + i) := fun i hi => not_written_of_lt ht (by omega)
  unfold Dpdk.tcpSeq be32
  rw [h.be16 (by omega) (hw 0 (by omega)) (hw 1 (by omega)),
    h.be16 (by omega) (hw 2 (by omega)) (hw 3 (by omega))]

/-- The header is read as that of the same flow, but for its lengths. -/
theorem SameFlow.parseIp (h : SameFlow t b c) (ht : 20 ≤ t) (hp : parseIp v b = some p)
    (hhlen : p.hlen = t) :
    ∃ q, Gro.parseIp v c = some q ∧ q.key = p.key ∧ q.hlen = p.hlen ∧
      q.ipPktLen = (if p.key.isIpv6 then (Lib.be16 c 4 + 40) % 2 ^ 16 else Lib.be16 c 2) ∧
      q.l4Len = if p.key.isIpv6 then Lib.be16 c 4 else (Lib.be16 c 2 + 2 ^ 16 - t) % 2 ^ 16 := by
  have hw : ∀ j, (j < 2 ∨ 6 ≤ j ∧ j < 10 ∨ 12 ≤ j ∧ j < t + 8 ∨ t = 40 ∧ 6 ≤ j ∧ j < 48) →
      ¬ Written t false j := fun j hj => not_written_of_lt ht hj
  have h0 : Lib.u8 c 0 = Lib.u8 b 0 := h.u8 (by omega) (hw 0 (by omega))
  have hv6 : vrIpIsIp6 c = vrIpIsIp6 b := by rw [vrIpIsIp6, vrIpIsIp6, ipVersion, ipVersion, h0]
  have hv4 : vrIpIsIp4 c = vrIpIsIp4 b := by rw [vrIpIsIp4, vrIpIsIp4, ipVersion, ipVersion, h0]
  have hhl : ipHl c = ipHl b := by rw [ipHl, ipHl, h0]
  have hport : tcpSport c t = tcpSport b t := h.be16 (by omega) (hw _ (by omega)) (hw _ (by omega))
  have hport' : tcpDport c t = tcpDport b t :=
    h.be16 (by omega) (hw _ (by omega)) (hw _ (by omega))
  unfold Gro.parseIp at hp ⊢
  rw [hv6, hv4, hhl]
  split_ifs at hp with h6 hnxt h4 hproto
  · cases hp
    have hnxt' : ip6Nxt c = ip6Nxt b := h.u8 (by omega) (hw 6 (by omega))
    change 40 = t at hhlen
    subst hhlen
    rw [if_pos h6, hnxt', if_neg hnxt]
    refine ⟨_, rfl, ?_, rfl, rfl, rfl⟩
    have hsrc : ip6Src c = ip6Src b := h.slice (by omega) fun i hi => hw _ (by omega)
    have hdst : ip6Dst c = ip6Dst b := h.slice (by omega) fun i hi => hw _ (by omega)
    dsimp only
    rw [hsrc, hdst, hport, hport']
  · cases hp
    have hproto' : ipProto c = ipProto b := h.u8 (by omega) (hw 9 (by omega))
    change ipHl b * 4 = t at hhlen
    rw [if_neg h6, if_pos h4, hproto', if_neg hproto, hhlen]
    refine ⟨_, rfl, ?_, rfl, rfl, rfl⟩
    have hsrc : ipSaddr c = ipSaddr b := h.slice (by omega) fun i hi => hw _ (by omega)
    have hdst : ipDaddr c = ipDaddr b := h.slice (by omega) fun i hi => hw _ (by omega)
    dsimp only
    rw [hsrc, hdst, hport, hport']

/-! ### Entries -/

/-- A segment starts where the one before it ends. -/
def Follows (f g : Frame) : Prop := g.seq = (f.seq + f.payload.length) % 2 ^ 32

/-- **An entry holds frames**: the first one with its headers, and the payloads of the others. -/
structure Holds (k : GroKey) (e : GroEntry) (f : Frame) (p : IpPart) (gs : List Frame) : Prop where
  whole : f.Whole p
  key : p.key = k
  isIpv6 : e.isIpv6 = k.isIpv6
  data : e.mbufHead.data = f.nw
  next : chainData e.mbufNext = (gs.map Frame.payload).flatten
  length : e.mbufNext.length = gs.length
  mbufCnt : e.mbufCnt = gs.length + 1
  nonempty : gs.length ≤ (gs.map Frame.payload).flatten.length
  pLen : e.pLen = f.nw.length + (gs.map Frame.payload).flatten.length
  small : e.pLen < 2 ^ 16
  nextSeq : ∀ g ∈ (f :: gs).getLast?, e.nextSeq = (g.seq + g.payload.length) % 2 ^ 32
  linked : (f :: gs).IsChain Follows
  timestamp : e.timestamp = true → tcpHlen f.nw p.hlen = 32

/-- **A packet describes frames**: it belongs to the flow, its IP length is that of its bytes, its
payload is that of the frames, its sequence number that of the first of them, and its chain is as
long as it says. -/
structure Describes (k : GroKey) (m : Merged) (fs : List Frame) : Prop where
  part : ∃ q, parseIp k.vifIdx m.bytes = some q ∧ q.key = k ∧ q.ipPktLen = m.bytes.length ∧
    q.payload m.bytes = (fs.map Frame.payload).flatten ∧
    ∀ f ∈ fs.head?, tcpSeq m.bytes q.hlen = f.seq
  nonempty : fs ≠ []
  linked : fs.IsChain Follows
  pktLen : m.pktLen = m.l2Len + m.bytes.length
  nbSegs : m.nbSegs = 1 + m.rest.length

theorem header_length_field {e : GroEntry} (hcnt : 1 < e.mbufCnt) (hlen : 40 ≤ e.mbufHead.data.length)
    (hle : e.tcpOff ≤ e.pLen) (hsmall : e.pLen < 2 ^ 16) :
    if e.isIpv6 then be16 e.header.data 4 + 40 = e.pLen else be16 e.header.data 2 = e.pLen := by
  have hbe : ∀ j, j + 1 < e.tcpOff + 8 → be16 e.header.data j =
      swap16 (le16 (e.writeIp e.mbufHead.data) j) := by
    intro j hj
    have hkeep : ∀ i < e.tcpOff + 8, u8 e.header.data i = u8 (e.writeIp e.mbufHead.data) i := by
      intro i hi
      have htcp : u8 (e.writeTcp (e.writeIp e.mbufHead.data)) i =
          u8 (e.writeIp e.mbufHead.data) i := by
        unfold GroEntry.writeTcp
        dsimp only
        split_ifs <;> simp only [u8_set16_of_ne
          (show i ≠ e.tcpOff + 14 ∧ i ≠ e.tcpOff + 14 + 1 by omega), u8_setBytes_of_disjoint
          (show i < e.tcpOff + 8 ∨ e.tcpOff + 8 + (beBytes32 e.ackSeq).length ≤ i by omega),
          u8_setBytes_of_disjoint
          (show i < e.tcpOff + 24 ∨ e.tcpOff + 24 + (beBytes32 e.tsval).length ≤ i by omega),
          u8_setBytes_of_disjoint
          (show i < e.tcpOff + 28 ∨ e.tcpOff + 28 + (beBytes32 e.tsecr).length ≤ i by omega)]
      rw [GroEntry.header, if_pos hcnt, ← htcp]
      exact u8_set16_of_ne (by omega) _
    rw [swap16_le16, be16, be16, hkeep j (by omega), hkeep (j + 1) hj]
  unfold GroEntry.tcpOff at hbe hle
  split_ifs with h6
  · rw [if_pos h6] at hbe hle
    rw [hbe 4 (by omega), GroEntry.writeIp, if_pos h6, le16_set16_self (by omega) (swap16_lt _),
      swap16_swap16 (Nat.mod_lt _ (by decide))]
    omega
  · rw [if_neg h6] at hbe hle
    rw [hbe 2 (by omega), GroEntry.writeIp, if_neg h6]
    dsimp only
    rw [le16_set16_self (by rw [set16_length]; omega) (swap16_lt _),
      swap16_swap16 (Nat.mod_lt _ (by decide)), Nat.mod_eq_of_lt hsmall]

theorem header_drop {n : ℕ} (hn : e.tcpOff + 18 ≤ n) (hts : e.timestamp = true → e.tcpOff + 32 ≤ n) :
    e.header.data.drop n = e.mbufHead.data.drop n := by
  refine drop_congr (header_length e) fun j hj => header_u8 ?_
  have htcp : e.tcpOff = 40 ∨ e.tcpOff = 20 := by
    unfold GroEntry.tcpOff
    split_ifs <;> simp
  rintro (h | h | h | h | ⟨h, h'⟩)
  · omega
  · omega
  · omega
  · omega
  · have := hts h
    omega

namespace Holds

variable {gs : List Frame}

section

variable (h : Holds k e f p gs)
include h

theorem tcpOff : e.tcpOff = p.hlen := by
  rw [h.whole.hlen, h.key, GroEntry.tcpOff, h.isIpv6]

theorem sameFlow : SameFlow p.hlen f.nw e.packet.bytes where
  length := by
    change _ ≤ (e.header.data.drop 0 ++ _).length
    rw [List.length_append, List.drop_zero, header_length, h.data]
    omega
  headers := by
    have := h.whole.headers
    have := h.whole.tcp
    omega
  bytes j hj hw := by
    have hlen := h.whole.headers
    have htcp := h.whole.tcp
    change u8 (e.header.data.drop 0 ++ _) j = _
    rw [List.drop_zero, u8_append_left (by rw [header_length, h.data]; omega), ← h.data]
    apply header_u8
    rw [h.tcpOff]
    unfold Written at hw ⊢
    simp only [Bool.false_eq_true, false_and, or_false] at hw
    rintro (h' | h' | h' | h' | h')
    · exact hw (.inl h')
    · exact hw (.inr (.inl h'))
    · exact hw (.inr (.inr (.inl h')))
    · exact hw (.inr (.inr (.inr h')))
    · omega

theorem bytes_length : e.packet.bytes.length = e.pLen := by
  change (e.header.data.drop 0 ++ chainData e.mbufNext).length = _
  rw [List.length_append, List.drop_zero, header_length, h.data, h.next, h.pLen]

theorem length_field :
    if k.isIpv6 then be16 e.packet.bytes 4 + 40 = e.pLen else be16 e.packet.bytes 2 = e.pLen := by
  have hlen := h.whole.headers
  have htcp := h.whole.tcp
  have hip := h.whole.ip
  have hle : e.tcpOff ≤ e.pLen := by
    rw [h.tcpOff, h.pLen]
    omega
  have hhead : ∀ j, j + 1 < 40 → be16 e.packet.bytes j = be16 e.header.data j := by
    intro j hj
    change be16 (e.header.data.drop 0 ++ _) j = _
    rw [List.drop_zero, be16, be16, u8_append_left (by rw [header_length, h.data]; omega),
      u8_append_left (by rw [header_length, h.data]; omega)]
  rw [hhead 4 (by omega), hhead 2 (by omega), ← h.isIpv6]
  by_cases hcnt : 1 < e.mbufCnt
  · exact header_length_field hcnt (by rw [h.data]; omega) hle h.small
  · -- a packet of one frame is sent as it came
    have hnil : gs = [] := List.length_eq_zero_iff.mp (by have := h.mbufCnt; omega)
    have hpkt := h.whole.ipPktLen_eq
    have hp := parseIp_parsed h.whole.part
    have hpLen := h.pLen
    rw [hnil] at hpLen
    simp only [List.map_nil, List.flatten_nil, List.length_nil, Nat.add_zero] at hpLen
    rw [GroEntry.header, if_neg hcnt, h.data, hpLen, ← hpkt, h.isIpv6, ← h.key]
    have hlt := f.nw_lt
    have hlen := h.whole.nw_length
    rw [hp.hlen, hp.l4Len] at hlen
    rw [hp.ipPktLen] at hpkt ⊢
    split_ifs at hlen hpkt ⊢ <;> omega

/-- The packet is read as one of the flow, and ends where its length says. -/
theorem parsed :
    ∃ q, parseIp k.vifIdx e.packet.bytes = some q ∧ q.key = k ∧ q.hlen = p.hlen ∧
      q.ipPktLen = e.pLen ∧ q.hlen + q.l4Len = e.pLen := by
  have hip := h.whole.ip
  have hsmall := h.small
  have hle : p.hlen ≤ e.pLen := by
    have := h.whole.headers
    rw [h.pLen]
    omega
  obtain ⟨q, hq, hkey, hhlen, hpkt, hl4⟩ := h.sameFlow.parseIp hip h.whole.part rfl
  have hv : f.vif.vifIdx = k.vifIdx := by
    rw [← h.key]
    exact (parseIp_parsed h.whole.part).vifIdx.symm
  have hfield := h.length_field
  have hp6 := h.whole.hlen
  rw [h.key] at hp6 hpkt hl4
  refine ⟨q, hv ▸ hq, hkey.trans h.key, hhlen, ?_, ?_⟩
  · rw [hpkt]
    split_ifs at hfield hp6 ⊢ <;> omega
  · rw [hl4, hhlen]
    split_ifs at hfield hp6 ⊢ <;> omega

end

end Holds

/-- **What is sent describes what was held.** -/
theorem Holds.packet_describes {gs : List Frame} (h : Holds k e f p gs) :
    Describes k e.packet (f :: gs) := by
  have hip := h.whole.ip
  have htcp := h.whole.tcp
  have hhdr := h.whole.headers
  have hlen := h.bytes_length
  obtain ⟨q, hq, hkey, hhlen, hpkt, hl4⟩ := h.parsed
  refine ⟨⟨q, hq, hkey, hpkt.trans hlen.symm, ?_, ?_⟩, by simp, h.linked, ?_, ?_⟩
  · rw [IpPart.payload, hhlen, h.sameFlow.tcpHlen, slice, List.take_of_length_le (by
      rw [List.length_drop, hlen]
      omega)]
    change (e.header.data.drop 0 ++ chainData e.mbufNext).drop _ = _
    rw [List.drop_zero, List.drop_append_of_le_length (by rw [header_length, h.data]; exact hhdr),
      header_drop (by rw [h.tcpOff]; omega) (fun hts => by rw [h.tcpOff, h.timestamp hts]), h.data,
      h.next, List.map_cons, List.flatten_cons, h.whole.payload_eq]
  · intro g hg
    cases hg
    rw [hhlen, h.sameFlow.tcpSeq hip, h.whole.seq_eq]
  · have hone : ¬ 1 < e.mbufCnt → e.header.data.length = e.pLen := by
      intro hcnt
      have hnil : gs = [] := List.length_eq_zero_iff.mp (by have := h.mbufCnt; omega)
      rw [header_length, h.data, h.pLen, hnil]
      simp
    rw [hlen]
    change (if 1 < e.mbufCnt then e.pLen else _) = 0 + e.pLen
    split_ifs with hcnt
    · omega
    · rw [hone hcnt, Nat.zero_add]
  · have hcnt := h.mbufCnt
    have hlength := h.length
    change (if 1 < e.mbufCnt then e.mbufCnt else 1) = 1 + e.mbufNext.length
    split_ifs <;> omega

end Vrouter.Gro
