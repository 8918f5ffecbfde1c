import Vrouter.Gso.Model

/-! # The fields of a segment

What the two passes of segmentation write, and what they leave alone.  The first one writes behind the
outer header: lengths, sequence number, flags and checksums (`Touched`); the second one writes only in
the outer header (`writeOuter_u8`).  So each field is what it was last set to, and the payload is what
it was. -/

namespace Vrouter.Gso

open Vrouter.Lib Vrouter.Packet Vrouter.Dpdk

variable {st : GsoState} {ip b : List Byte} {t j L pktLen olFlags id : ℕ} {first last : Bool}

/-! ### Reading -/

/-- The length of an inner IP header. -/
def innerHlen (isIpv6 : Bool) (ip : List Byte) : ℕ := if isIpv6 then 40 else ipHl ip * 4

/-- The length of an inner packet, as its IP header says. -/
def innerLen (isIpv6 : Bool) (ip : List Byte) : ℕ := if isIpv6 then be16 ip 4 + 40 else be16 ip 2

/-- Where the payload of an inner packet starts. -/
def payloadOff (isIpv6 : Bool) (ip : List Byte) : ℕ :=
  innerHlen isIpv6 ip + tcpOffset ip (innerHlen isIpv6 ip) * 4

/-- The payload of an inner packet, as its headers say. -/
def tcpPayload (isIpv6 : Bool) (ip : List Byte) : List Byte :=
  slice ip (payloadOff isIpv6 ip) (innerLen isIpv6 ip - payloadOff isIpv6 ip)

theorem next_keeps (st : GsoState) (n : ℕ) : (st.next n).isIpv6 = st.isIpv6 ∧
    (st.next n).macHlen = st.macHlen ∧ (st.next n).ipHlen = st.ipHlen ∧
    (st.next n).hlen = st.hlen ∧ (st.next n).txCksumOffload = st.txCksumOffload := by
  cases st
  exact ⟨rfl, rfl, rfl, rfl, rfl⟩

/-- The length of the IP header and the data offset say where the payload starts. -/
theorem payloadOff_congr {isIpv6 : Bool} (h0 : u8 b 0 = u8 ip 0)
    (h12 : u8 b (innerHlen isIpv6 ip + 12) = u8 ip (innerHlen isIpv6 ip + 12)) :
    innerHlen isIpv6 b = innerHlen isIpv6 ip ∧ payloadOff isIpv6 b = payloadOff isIpv6 ip := by
  have hhlen : innerHlen isIpv6 b = innerHlen isIpv6 ip := by
    unfold innerHlen ipHl
    rw [h0]
  rw [payloadOff, payloadOff, hhlen, tcpOffset, tcpOffset, h12]
  exact ⟨rfl, rfl⟩

/-! ### Behind the outer header -/

/-- The offsets that are written behind the outer header, for a TCP header at `t`. -/
def Touched (isIpv6 : Bool) (t j : ℕ) : Prop :=
  (isIpv6 = true ∧ 4 ≤ j ∧ j < 6) ∨ (isIpv6 = false ∧ (2 ≤ j ∧ j < 6 ∨ 10 ≤ j ∧ j < 12)) ∨
    (t + 4 ≤ j ∧ j < t + 8) ∨ j = t + 13 ∨ (t + 16 ≤ j ∧ j < t + 18)

/-- The words that the lengths and the identification are written to, and the sequence number. -/
def writeLengths (st : GsoState) (pktLen : ℕ) (ip : List Byte) : List Byte :=
  setBytes
    (if st.isIpv6 then set16 ip 4 (swap16 ((pktLen + 2 ^ 32 - st.macHlen - st.ipHlen) % 2 ^ 16))
      else set16 (set16 ip 4 (swap16 st.ipId)) 2 (swap16 ((pktLen + 2 ^ 32 - st.macHlen) % 2 ^ 16)))
    (st.ipHlen + 4) (beBytes32 st.tcpSeq)

theorem writeFlags_u8 (h : j ≠ t + 13) : u8 (writeFlags first last ip t) j = u8 ip j :=
  u8_set_ne (Ne.symm h) _

theorem writeLengths_u8 (h : ¬ Touched st.isIpv6 st.ipHlen j) :
    u8 (writeLengths st pktLen ip) j = u8 ip j := by
  unfold Touched at h
  unfold writeLengths
  rw [u8_setBytes_of_disjoint (by rw [beBytes32_length]; omega)]
  cases h6 : st.isIpv6 with
  | true =>
    simp only [h6, true_and, Bool.true_eq_false, false_and, false_or] at h
    rw [if_pos rfl, u8_set16_of_ne (by omega)]
  | false =>
    simp only [h6, true_and, Bool.false_eq_true, false_and, false_or] at h
    rw [if_neg Bool.false_ne_true, u8_set16_of_ne (by omega),
      u8_set16_of_ne (by omega)]

theorem writeFlags_length : (writeFlags first last ip t).length = ip.length := List.length_set

theorem writeLengths_length : (writeLengths st pktLen ip).length = ip.length := by
  unfold writeLengths
  rw [setBytes_length]
  split_ifs <;> simp

theorem segmentFlags_le {flags : ℕ} (h : flags < 256) : segmentFlags first last flags < 256 := by
  unfold segmentFlags
  dsimp only
  split_ifs
  · exact h
  · exact Nat.and_lt_two_pow _ (by decide : 255 - rteTcpCwrFlag < 2 ^ 8)
  · exact Nat.and_lt_two_pow _ (by decide : 255 - (rteTcpFinFlag + rteTcpPshFlag) < 2 ^ 8)
  · exact Nat.and_lt_two_pow _ (by decide : 255 - (rteTcpFinFlag + rteTcpPshFlag) < 2 ^ 8)

section Library

variable [Rte]

/-- The checksums. -/
def writeCsums (st : GsoState) (olFlags : ℕ) (ip : List Byte) : List Byte :=
  let t := st.ipHlen
  if st.isIpv6 then
    let ip := set16 ip (t + 16) 0
    set16 ip (t + 16)
      (if st.txCksumOffload then rteIpv6PhdrCksum ip olFlags else rteIpv6UdptcpCksum ip t)
  else if st.txCksumOffload then
    let ip := set16 (set16 ip 10 0) (t + 16) 0
    set16 ip (t + 16) (rteIpv4PhdrCksum ip olFlags)
  else
    let ip := set16 ip (t + 16) 0
    let ip := set16 ip (t + 16) (rteIpv4UdptcpCksum ip t)
    let ip := set16 ip 10 0
    set16 ip 10 (rteIpv4Cksum ip)

theorem segmentInner_eq : segmentInner st first last olFlags pktLen ip =
    writeCsums st olFlags (writeLengths st pktLen (writeFlags first last ip st.ipHlen)) := by
  by_cases h6 : st.isIpv6 = true
  · simp only [segmentInner, ipv6TcpInternal, writeCsums, writeLengths, if_pos h6]
  · simp only [segmentInner, ipv4TcpInternal, writeCsums, writeLengths, if_neg h6]

theorem writeCsums_u8 (h : ¬ (st.ipHlen + 16 ≤ j ∧ j < st.ipHlen + 18))
    (h10 : st.isIpv6 = false → ¬ (10 ≤ j ∧ j < 12)) : u8 (writeCsums st olFlags ip) j = u8 ip j := by
  have hcsum : ∀ (d : List Byte) w, u8 (set16 d (st.ipHlen + 16) w) j = u8 d j :=
    fun d w => u8_set16_of_ne (by omega) w
  unfold writeCsums
  dsimp only
  cases h6 : st.isIpv6 with
  | true => rw [if_pos rfl, hcsum, hcsum]
  | false =>
    have h10 := h10 h6
    have hip : ∀ (d : List Byte) w, u8 (set16 d 10 w) j = u8 d j :=
      fun d w => u8_set16_of_ne (by omega) w
    rw [if_neg Bool.false_ne_true]
    split_ifs
    · rw [hcsum, hcsum, hip]
    · rw [hip, hip, hcsum, hcsum]

theorem writeCsums_length : (writeCsums st olFlags ip).length = ip.length := by
  unfold writeCsums
  dsimp only
  split_ifs <;> simp

theorem segmentInner_length : (segmentInner st first last olFlags pktLen ip).length = ip.length := by
  rw [segmentInner_eq, writeCsums_length, writeLengths_length, writeFlags_length]

/-- **What the first pass leaves alone.** -/
theorem segmentInner_u8 (h : ¬ Touched st.isIpv6 st.ipHlen j) :
    u8 (segmentInner st first last olFlags pktLen ip) j = u8 ip j := by
  have hparts : ¬ (st.ipHlen + 16 ≤ j ∧ j < st.ipHlen + 18) ∧
      (st.isIpv6 = false → ¬ (10 ≤ j ∧ j < 12)) ∧ j ≠ st.ipHlen + 13 := by
    unfold Touched at h
    refine ⟨fun hj => h (.inr (.inr (.inr (.inr hj)))), fun h6 hj => h (.inr (.inl ⟨h6, .inr hj⟩)),
      fun hj => h (.inr (.inr (.inr (.inl hj))))⟩
  rw [segmentInner_eq, writeCsums_u8 hparts.1 hparts.2.1, writeLengths_u8 h, writeFlags_u8 hparts.2.2]

theorem segmentInner_drop {n : ℕ} (h20 : 20 ≤ st.ipHlen) (hn : st.ipHlen + 18 ≤ n) :
    (segmentInner st first last olFlags pktLen ip).drop n = ip.drop n := by
  refine drop_congr segmentInner_length fun j hj => segmentInner_u8 ?_
  unfold Touched
  omega

theorem segmentInner_len (h : st.ipHlen = innerHlen st.isIpv6 ip) (h20 : 20 ≤ st.ipHlen)
    (hlen : st.ipHlen + 20 ≤ ip.length) (hmac : st.macHlen + ip.length = pktLen)
    (hpkt : pktLen < 2 ^ 16) :
    innerLen st.isIpv6 (segmentInner st first last olFlags pktLen ip) = ip.length := by
  have hflags : (writeFlags first last ip st.ipHlen).length = ip.length := writeFlags_length
  have hkeep : ∀ j, 2 ≤ j → j < 6 → u8 (segmentInner st first last olFlags pktLen ip) j =
      u8 (if st.isIpv6 then set16 (writeFlags first last ip st.ipHlen) 4
          (swap16 ((pktLen + 2 ^ 32 - st.macHlen - st.ipHlen) % 2 ^ 16))
        else set16 (set16 (writeFlags first last ip st.ipHlen) 4 (swap16 st.ipId)) 2
          (swap16 ((pktLen + 2 ^ 32 - st.macHlen) % 2 ^ 16))) j := by
    intro j hj hj'
    rw [segmentInner_eq, writeCsums_u8 (by omega) (fun _ => by omega), writeLengths,
      u8_setBytes_of_disjoint (by omega)]
  unfold innerLen
  cases h6 : st.isIpv6 with
  | true =>
    have h40 : st.ipHlen = 40 := by
      rw [h, h6]
      rfl
    rw [h6, if_pos rfl] at hkeep
    rw [if_pos rfl, be16_of_u8 (hkeep 4 (by omega) (by omega)) (hkeep 5 (by omega) (by omega)),
      be16_set16_self (by omega) (Nat.mod_lt _ (by decide))]
    omega
  | false =>
    rw [h6, if_neg Bool.false_ne_true] at hkeep
    rw [if_neg Bool.false_ne_true, be16_of_u8 (hkeep 2 (by omega) (by omega))
      (hkeep 3 (by omega) (by omega)), be16_set16_self (by rw [set16_length]; omega)
      (Nat.mod_lt _ (by decide))]
    omega

theorem segmentInner_seq (h20 : 20 ≤ st.ipHlen) (hlen : st.ipHlen + 20 ≤ ip.length)
    (hseq : st.tcpSeq < 2 ^ 32) :
    tcpSeq (segmentInner st first last olFlags pktLen ip) st.ipHlen = st.tcpSeq := by
  have hkeep : ∀ j, st.ipHlen + 4 ≤ j → j < st.ipHlen + 8 →
      u8 (segmentInner st first last olFlags pktLen ip) j =
        u8 (writeLengths st pktLen (writeFlags first last ip st.ipHlen)) j := by
    intro j hj hj'
    rw [segmentInner_eq, writeCsums_u8 (by omega) (fun _ => by omega)]
  unfold tcpSeq be32
  rw [be16_of_u8 (hkeep _ (by omega) (by omega)) (hkeep _ (by omega) (by omega)),
    be16_of_u8 (hkeep _ (by omega) (by omega)) (hkeep _ (by omega) (by omega))]
  apply be32_setBytes_self _ hseq
  split_ifs
  · rw [set16_length, writeFlags_length]
    omega
  · rw [set16_length, set16_length, writeFlags_length]
    omega

theorem segmentInner_flags (h20 : 20 ≤ st.ipHlen) (hlen : st.ipHlen + 20 ≤ ip.length) :
    u8 (segmentInner st first last olFlags pktLen ip) (st.ipHlen + 13) =
      segmentFlags first last (u8 ip (st.ipHlen + 13)) := by
  have hlt : segmentFlags first last (u8 ip (st.ipHlen + 13)) < 256 := segmentFlags_le (u8_lt ip _)
  rw [segmentInner_eq, writeCsums_u8 (by omega) (fun _ => by omega)]
  have hw : u8 (writeLengths st pktLen (writeFlags first last ip st.ipHlen)) (st.ipHlen + 13) =
      u8 (writeFlags first last ip st.ipHlen) (st.ipHlen + 13) := by
    unfold writeLengths
    rw [u8_setBytes_of_disjoint (by rw [beBytes32_length]; omega)]
    split_ifs
    · rw [u8_set16_of_ne (by omega)]
    · rw [u8_set16_of_ne (by omega), u8_set16_of_ne (by omega)]
  rw [hw, writeFlags, u8_set_self (by omega), Fin.val_ofNat, Nat.mod_eq_of_lt hlt]

theorem segmentInner_off (h : st.ipHlen = innerHlen st.isIpv6 ip) (h20 : 20 ≤ st.ipHlen) :
    innerHlen st.isIpv6 (segmentInner st first last olFlags pktLen ip) = st.ipHlen ∧
      payloadOff st.isIpv6 (segmentInner st first last olFlags pktLen ip) =
        payloadOff st.isIpv6 ip := by
  have hkeep : ∀ j, j = 0 ∨ j = st.ipHlen + 12 →
      u8 (segmentInner st first last olFlags pktLen ip) j = u8 ip j :=
    fun j hj => segmentInner_u8 (by unfold Touched; omega)
  rw [h] at hkeep ⊢
  exact payloadOff_congr (hkeep _ (.inl rfl)) (hkeep _ (.inr rfl))

theorem segmentInner_payload (h : st.ipHlen = innerHlen st.isIpv6 ip) (h20 : 20 ≤ st.ipHlen)
    (hoff : st.ipHlen + 20 ≤ payloadOff st.isIpv6 ip) (hlen : payloadOff st.isIpv6 ip ≤ ip.length)
    (hmac : st.macHlen + ip.length = pktLen) (hpkt : pktLen < 2 ^ 16) :
    tcpPayload st.isIpv6 (segmentInner st first last olFlags pktLen ip) =
      ip.drop (payloadOff st.isIpv6 ip) := by
  rw [tcpPayload, (segmentInner_off h h20).2, segmentInner_len h h20 (by omega) hmac hpkt, slice,
    segmentInner_drop h20 (by omega), List.take_of_length_le (by rw [List.length_drop])]

end Library

/-! ### The outer header -/

/-- The outer header ends before the inner one: an Ethernet header, an IPv4 header, and a UDP header if
there is one. -/
structure OuterFits (L : ℕ) (b : List Byte) : Prop where
  ip : 20 ≤ u8 b (dpdkGetEtherHeaderLen b) % 16 * 4
  fits : dpdkGetEtherHeaderLen b + u8 b (dpdkGetEtherHeaderLen b) % 16 * 4 +
    (if u8 b (dpdkGetEtherHeaderLen b + 9) = vrIpProtoUdp then 8 else 0) ≤ L

theorem dpdkGetEtherHeaderLen_le (b : List Byte) :
    14 ≤ dpdkGetEtherHeaderLen b ∧ dpdkGetEtherHeaderLen b ≤ 18 := by
  unfold dpdkGetEtherHeaderLen
  split_ifs <;> omega

theorem writeOuter_length : (writeOuter id b).length = b.length := by
  unfold writeOuter
  dsimp only
  split_ifs <;> simp

/-- The length of the outer IP header. -/
def outerHl (b : List Byte) : ℕ := u8 b (dpdkGetEtherHeaderLen b) % 16 * 4

/-- The outer header with its length and identification. -/
def writeOuterIp (id : ℕ) (b : List Byte) : List Byte :=
  set16 (set16 b (dpdkGetEtherHeaderLen b + 2)
    (swap16 ((b.length + 2 ^ 32 - dpdkGetEtherHeaderLen b) % 2 ^ 16))) (dpdkGetEtherHeaderLen b + 4) id

theorem writeOuterIp_u8 (h : j < dpdkGetEtherHeaderLen b + 2 ∨ dpdkGetEtherHeaderLen b + 6 ≤ j) :
    u8 (writeOuterIp id b) j = u8 b j := by
  unfold writeOuterIp
  rw [u8_set16_of_ne (by omega), u8_set16_of_ne (by omega)]

/-- The length of the UDP header is written, if there is one. -/
theorem writeOuter_eq (id : ℕ) (b : List Byte) : ∃ w, writeOuter id b =
    set16 (if u8 b (dpdkGetEtherHeaderLen b + 9) = vrIpProtoUdp then
        set16 (writeOuterIp id b) (dpdkGetEtherHeaderLen b + outerHl b + 4)
          (swap16 ((be16 (writeOuterIp id b) (dpdkGetEtherHeaderLen b + 2) + 2 ^ 16 - outerHl b) %
            2 ^ 16))
      else writeOuterIp id b) (dpdkGetEtherHeaderLen b + 10) w := by
  have hhl : u8 (writeOuterIp id b) (dpdkGetEtherHeaderLen b) % 16 * 4 = outerHl b := by
    rw [writeOuterIp_u8 (.inl (by omega)), outerHl]
  have hproto : u8 (writeOuterIp id b) (dpdkGetEtherHeaderLen b + 9) =
      u8 b (dpdkGetEtherHeaderLen b + 9) := writeOuterIp_u8 (.inr (by omega))
  unfold writeOuter
  dsimp only
  rw [← writeOuterIp, hhl, hproto]
  exact ⟨_, rfl⟩

/-- **The second pass stays in the outer header.** -/
theorem writeOuter_u8 (h : OuterFits L b) (hj : L ≤ j) : u8 (writeOuter id b) j = u8 b j := by
  have hip := h.ip
  have hfits := h.fits
  obtain ⟨w, hw⟩ := writeOuter_eq id b
  rw [← outerHl] at hip hfits
  rw [hw]
  split_ifs at hfits ⊢
  · rw [u8_set16_of_ne (by omega), u8_set16_of_ne (by omega),
      writeOuterIp_u8 (.inr (by omega))]
  · rw [u8_set16_of_ne (by omega), writeOuterIp_u8 (.inr (by omega))]

theorem writeOuter_drop (h : OuterFits L b) : (writeOuter id b).drop L = b.drop L :=
  drop_congr writeOuter_length fun _ hj => writeOuter_u8 h hj

theorem writeOuterIp_length : (writeOuterIp id b).length = b.length := by
  unfold writeOuterIp
  rw [set16_length, set16_length]

theorem writeOuterIp_len (hlen : dpdkGetEtherHeaderLen b + 20 ≤ b.length) (hlt : b.length < 2 ^ 16) :
    be16 (writeOuterIp id b) (dpdkGetEtherHeaderLen b + 2) = b.length - dpdkGetEtherHeaderLen b := by
  unfold writeOuterIp
  rw [be16_set16_of_disjoint (by omega),
    be16_set16_self (by omega) (Nat.mod_lt _ (by decide))]
  omega

theorem writeOuter_len (h : OuterFits L b) (hL : L ≤ b.length) (hlt : b.length < 2 ^ 16) :
    be16 (writeOuter id b) (dpdkGetEtherHeaderLen b + 2) = b.length - dpdkGetEtherHeaderLen b ∧
      (u8 b (dpdkGetEtherHeaderLen b + 9) = vrIpProtoUdp →
        be16 (writeOuter id b) (dpdkGetEtherHeaderLen b + outerHl b + 4) =
          b.length - dpdkGetEtherHeaderLen b - outerHl b) := by
  have hip := h.ip
  have hfits := h.fits
  rw [← outerHl] at hip hfits
  have hlen : (writeOuterIp id b).length = b.length := writeOuterIp_length
  obtain ⟨w, hw⟩ := writeOuter_eq id b
  have hip20 : dpdkGetEtherHeaderLen b + 20 ≤ b.length := by
    split_ifs at hfits <;> omega
  have hlen' : be16 (writeOuterIp id b) (dpdkGetEtherHeaderLen b + 2) = _ :=
    writeOuterIp_len hip20 hlt
  rw [hw]
  split_ifs at hfits ⊢ with hudp
  · refine ⟨?_, fun _ => ?_⟩
    · rw [be16_set16_of_disjoint (by omega), be16_set16_of_disjoint (by omega), hlen']
    · rw [be16_set16_of_disjoint (by omega),
        be16_set16_self (by omega) (Nat.mod_lt _ (by decide)), hlen']
      omega
  · refine ⟨?_, fun h => absurd h hudp⟩
    rw [be16_set16_of_disjoint (by omega), hlen']

theorem writeOuter_keeps (h : OuterFits L b) :
    dpdkGetEtherHeaderLen (writeOuter id b) = dpdkGetEtherHeaderLen b ∧
      outerHl (writeOuter id b) = outerHl b ∧ u8 (writeOuter id b) (dpdkGetEtherHeaderLen b + 9) =
        u8 b (dpdkGetEtherHeaderLen b + 9) := by
  have hip := h.ip
  rw [← outerHl] at hip
  obtain ⟨heth, -⟩ := dpdkGetEtherHeaderLen_le b
  have hkeep : ∀ j, j < dpdkGetEtherHeaderLen b + 2 ∨ j = dpdkGetEtherHeaderLen b + 9 →
      u8 (writeOuter id b) j = u8 b j := by
    intro j hj
    obtain ⟨w, hw⟩ := writeOuter_eq id b
    rw [hw]
    split_ifs
    · rw [u8_set16_of_ne (by omega), u8_set16_of_ne (by omega),
        writeOuterIp_u8 (by omega)]
    · rw [u8_set16_of_ne (by omega), writeOuterIp_u8 (by omega)]
  have heq : dpdkGetEtherHeaderLen (writeOuter id b) = dpdkGetEtherHeaderLen b := by
    rw [dpdkGetEtherHeaderLen, be16_of_u8 (hkeep 12 (.inl (by omega))) (hkeep 13 (.inl (by omega)))]
    rfl
  refine ⟨heq, ?_, hkeep _ (.inr rfl)⟩
  rw [outerHl, outerHl, heq, hkeep _ (.inl (by omega))]

end Vrouter.Gso
