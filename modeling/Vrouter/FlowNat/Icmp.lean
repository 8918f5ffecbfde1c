import Vrouter.FlowNat.Icmp6
import Vrouter.FlowNat.Transport

/-! # Translation of ICMP

The checksum of ICMP for IPv4 does not cover the addresses, and translation leaves it alone; so it
stays valid if and only if the words that are replaced in the message sum to the same as those
written instead (`MessageSafe`).  In an error the header of the quoted packet changes; as its
checksum is computed anew, its words then sum to zero.  The checksum of ICMPv6 is computed anew when
an address may have changed, and not updated otherwise (`Icmp6Safe`). -/

namespace Vrouter.FlowNat

open Vrouter.Lib Vrouter.Packet Vrouter.FlowKey

variable {v : Version} {fe : NatEntry} {rfe : VrFlow} {ip ip' ip'' rest : List Byte}
  {pkt : VrPacket} {lo x x' y y' m n w : ℕ}

/-! ### Words of the message that are replaced -/

/-- The packet `ip'` is `ip` with bytes from `lo` to the end of the message changed.  Words of the
message that sum to `x` are replaced by words that sum to `y`. -/
structure Replaces (v : Version) (lo : ℕ) (ip ip' : List Byte) (x y : ℕ) : Prop where
  layout : SameLayout v ip ip'
  same : SameOutside lo (transportAt v ip + segmentLen v ip) ip ip'
  sum : (wordSum (segment v ip') + x : ZMod 65535) = wordSum (segment v ip) + y

namespace Replaces

theorem refl (v : Version) (lo : ℕ) (ip : List Byte) : Replaces v lo ip ip 0 0 :=
  ⟨.refl _ _, .refl _ _ _, rfl⟩

theorem trans (h : Replaces v lo ip ip' x y) (h' : Replaces v lo ip' ip'' x' y') :
    Replaces v lo ip ip'' (x + x') (y + y') := by
  have hsame := h'.same
  rw [h.layout.transportAt, h.layout.segmentLen] at hsame
  refine ⟨h.layout.trans h'.layout, h.same.trans hsame, ?_⟩
  push_cast
  linear_combination h.sum + h'.sum

theorem mono {lo' : ℕ} (h : Replaces v lo ip ip' x y) (hlo : lo' ≤ lo) : Replaces v lo' ip ip' x y :=
  ⟨h.layout, h.same.mono hlo (le_refl _), h.sum⟩

theorem congr (h : Replaces v lo ip ip' x y) (hy : (y : ZMod 65535) = y') :
    Replaces v lo ip ip' x y' :=
  ⟨h.layout, h.same, hy ▸ h.sum⟩

theorem ite {p : Prop} [Decidable p] (h : p → Replaces v lo ip ip' x y) :
    Replaces v lo ip (if p then ip' else ip) (if p then x else 0) (if p then y else 0) := by
  split_ifs with hp
  · exact h hp
  · exact .refl v lo ip

/-- Writes before the message. -/
theorem of_before (hsame : SameOutside lo (transportAt v ip) ip ip') (hlo : fixedLen v ≤ lo) :
    Replaces v lo ip ip' 0 0 :=
  ⟨sameLayout_of_sameOutside hsame hlo, hsame.mono (le_refl _) (Nat.le_add_right _ _),
    by rw [segment_of_before hsame hlo (le_refl _)]⟩

section

variable (h : Whole v ip rest) (hm : m % 2 = 0)
include h hm

/-- Writes of whole words in the message. -/
theorem of_sameOutside (hsame : SameOutside (transportAt v ip + m) (transportAt v ip + m + n) ip ip')
    (hn : n % 2 = 0) (hin : m + n ≤ segmentLen v ip) :
    Replaces v (transportAt v ip + m) ip ip' (wordSum (slice ip (transportAt v ip + m) n))
      (wordSum (slice ip' (transportAt v ip + m) n)) := by
  have hlength := h.length
  have hl := sameLayout_of_transport h hsame (Nat.le_add_right _ _)
  refine ⟨hl, hsame.mono (le_refl _) (by omega), ?_⟩
  obtain ⟨k, hk⟩ : ∃ k, segmentLen v ip = m + n + k := ⟨segmentLen v ip - (m + n), by omega⟩
  have hsum := wordSum_slice_of_sameOutside (n := k) hsame hm hn (by omega)
  rw [segment, segment, hl.transportAt, hl.segmentLen, hk]
  exact_mod_cast congrArg (Nat.cast : ℕ → ZMod 65535) hsum

theorem of_set16 (hin : m + 2 ≤ segmentLen v ip) (hw : w < 2 ^ 16) :
    Replaces v (transportAt v ip + m) ip (set16 ip (transportAt v ip + m) w)
      (le16 ip (transportAt v ip + m)) w := by
  have hlength := h.length
  have hreplaces := of_sameOutside h hm (set16_sameOutside ip _ w) rfl hin
  rwa [wordSum_slice_two, wordSum_slice_two, le16_set16_self (by omega) hw] at hreplaces

theorem of_setBytes {xs : List Byte} (hxs : xs.length = n) (hn : n % 2 = 0)
    (hin : m + n ≤ segmentLen v ip) :
    Replaces v (transportAt v ip + m) ip (setBytes ip (transportAt v ip + m) xs)
      (wordSum (slice ip (transportAt v ip + m) n)) (wordSum xs) := by
  have hlength := h.length
  have hreplaces := of_sameOutside h hm (hxs ▸ setBytes_sameOutside ip _ xs) hn hin
  rwa [slice_setBytes hxs (by omega)] at hreplaces

/-- Two words next to each other, as they are asked for. -/
theorem of_words {p q : Bool} {m' w' : ℕ} (hm' : m' = m + 2 ∨ m = m' + 2)
    (hin : m + 2 ≤ segmentLen v ip) (hin' : m' + 2 ≤ segmentLen v ip) (hw : w < 2 ^ 16)
    (hw' : w' < 2 ^ 16) (hlo : lo ≤ transportAt v ip + m ∧ lo ≤ transportAt v ip + m')
    {ip₁ : List Byte} (hip₁ : ip₁ = if p then set16 ip (transportAt v ip + m) w else ip) :
    Replaces v lo ip (if q then set16 ip₁ (transportAt v ip + m') w' else ip₁)
      ((if p then le16 ip (transportAt v ip + m) else 0) +
        if q then le16 ip (transportAt v ip + m') else 0)
      ((if p then w else 0) + if q then w' else 0) := by
  have hfirst : Replaces v lo ip ip₁ (if p then le16 ip (transportAt v ip + m) else 0)
      (if p then w else 0) := by
    rw [hip₁]
    exact .ite fun _ => (of_set16 h hm hin hw).mono hlo.1
  have hword : le16 ip₁ (transportAt v ip + m') = le16 ip (transportAt v ip + m') := by
    have hsame : SameOutside (transportAt v ip + m) (transportAt v ip + m + 2) ip ip₁ := by
      rw [hip₁]
      exact .ite (fun _ => set16_sameOutside _ _ _) fun _ => .refl _ _ _
    exact hsame.le16 (by omega)
  have hwhole := h.of_sameLayout hfirst.layout
  have hl := hfirst.layout
  refine hfirst.trans (.ite fun _ => ?_)
  rw [← hword, ← hl.transportAt]
  refine (of_set16 hwhole (by omega) ?_ hw').mono ?_
  · rw [hl.segmentLen]
    exact hin'
  · rw [hl.transportAt]
    exact hlo.2

end

end Replaces

theorem natPorts_fst (t : ℕ) (ip : List Byte) (inc : ℕ) : (natPorts fe rfe t ip inc).1 =
    let ip₁ := if fe.spat then set16 ip t rfe.dport else ip
    if fe.dpat then set16 ip₁ (t + 2) rfe.sport else ip₁ := by
  unfold natPorts
  cases fe.spat <;> cases fe.dpat <;> rfl

/-- The ports are written over the first words of the message. -/
theorem natPorts_replaces (fe : NatEntry) (h : Whole v ip rest) (hrfe : FlowSized n rfe) (inc : ℕ) :
    Replaces v (transportAt v ip) ip (natPorts fe rfe (transportAt v ip) ip inc).1
      (replacedPorts fe (transportAt v ip) ip) (writtenPorts fe rfe) := by
  have hheader := h.header
  have hoffset := csumOffset_lt (protoOf v ip)
  have height : 8 ≤ transportHdrLen (protoOf v ip) := by
    unfold transportHdrLen
    split_ifs <;> decide
  rw [natPorts_fst]
  exact Replaces.of_words h (m := 0) rfl (.inl rfl) (by omega) (by omega) hrfe.dport hrfe.sport
    ⟨le_refl _, Nat.le_add_right _ _⟩ rfl

/-! ### The packet that an error quotes -/

/-- The offset of the header that an ICMP error quotes. -/
def quotedAt (v : Version) (ip : List Byte) : ℕ := transportAt v ip + icmpHdrSize

/-- The length of this header. -/
def quotedLen : Version → List Byte → ℕ
  | .v4, ip => ipHl (ip.drop (quotedAt .v4 ip)) * 4
  | .v6, _ => ip6HdrSize

/-- The message quotes a header, and the ports behind it. -/
structure QuotesPorts (v : Version) (ip : List Byte) : Prop where
  header : v = .v4 → 5 ≤ ipHl (ip.drop (quotedAt v ip))
  inside : icmpHdrSize + quotedLen v ip + 4 ≤ segmentLen v ip

/-- The sum of the ports at an offset that are replaced in the quoted packet, which goes the other
way. -/
def replacedQuotedPorts (fe : NatEntry) (transport : ℕ) (ip : List Byte) : ℕ :=
  (if fe.spat then le16 ip (transport + 2) else 0) + if fe.dpat then le16 ip transport else 0

/-- The sum of what is replaced in the quoted header: the addresses of IPv6, but all of a header of
IPv4, as its checksum is computed anew. -/
def replacedQuotedHeader (fe : NatEntry) : Version → List Byte → ℕ
  | .v4, ip => if fe.snat || fe.dnat then headerSum (ip.drop (quotedAt .v4 ip)) else 0
  | .v6, ip => (if fe.snat then wordSum (slice ip (quotedAt .v6 ip + 24) 16) else 0) +
      if fe.dnat then wordSum (slice ip (quotedAt .v6 ip + 8) 16) else 0

/-- The sum of what is written instead.  That of a header of IPv4 with its checksum is zero. -/
def writtenQuotedHeader (fe : NatEntry) (rfe : VrFlow) : Version → ℕ
  | .v4 => 0
  | .v6 => (if fe.snat then wordSum rfe.dip else 0) + if fe.dnat then wordSum rfe.sip else 0

theorem quotedPorts_replaces (fe : NatEntry) (h : Whole v ip rest) (hrfe : FlowSized n rfe)
    (hm : m % 2 = 0) (hlo : lo ≤ transportAt v ip + m) (hin : m + 4 ≤ segmentLen v ip) :
    Replaces v lo ip (quotedPorts fe rfe (transportAt v ip + m) ip)
      (replacedQuotedPorts fe (transportAt v ip + m) ip) (writtenPorts fe rfe) :=
  Replaces.of_words h (by omega : (m + 2) % 2 = 0) (.inr rfl) (by omega) (by omega) hrfe.dport
    hrfe.sport ⟨by omega, hlo⟩ rfl

theorem drop_set16 (b : List Byte) (pl i w : ℕ) :
    (set16 b (pl + i) w).drop pl = set16 (b.drop pl) i w := by
  rw [set16, set16, List.drop_set, if_neg (by omega), List.drop_set, if_neg (by omega)]
  congr 2 <;> omega

theorem headerSum_vrIpCsum (h : HeaderFits ip) :
    (headerSum (set16 ip 10 (vrIpCsum ip)) : ZMod 65535) = 0 := by
  have hset := headerSum_set16 h (i := 10) rfl (by decide) (by have := h.five_le; omega)
    (vrIpCsum_lt ip)
  have hcast := congrArg (Nat.cast : ℕ → ZMod 65535) hset
  rw [Nat.cast_add, Nat.cast_add, vrIpCsum_cast h, ipCsum] at hcast
  linear_combination hcast

theorem ipHl_quotedCsum (fe : NatEntry) (hrfe : FlowSized 4 rfe) (pl : ℕ) (ip : List Byte) :
    ipHl ((quotedCsum fe pl (quotedAddrs fe rfe pl ip)).drop pl) = ipHl (ip.drop pl) := by
  rw [ipHl, ipHl, u8_drop, u8_drop, (quotedCsum_same fe hrfe pl ip).bytes _ (Or.inl (by omega))]

theorem quotedCsum_sum (hrfe : FlowSized 4 rfe) {pl : ℕ} (hfits : HeaderFits (ip.drop pl))
    (hnat : (fe.snat || fe.dnat) = true) :
    (headerSum ((quotedCsum fe pl (quotedAddrs fe rfe pl ip)).drop pl) : ZMod 65535) = 0 := by
  have hsame := quotedAddrs_same fe hrfe pl ip
  have hhl : ipHl ((quotedAddrs fe rfe pl ip).drop pl) = ipHl (ip.drop pl) := by
    rw [ipHl, ipHl, u8_drop, u8_drop, hsame.bytes _ (Or.inl (by omega))]
  have hlength : ((quotedAddrs fe rfe pl ip).drop pl).length = (ip.drop pl).length := by
    rw [List.length_drop, List.length_drop, hsame.length]
  rw [quotedCsum, if_pos hnat, drop_set16]
  exact headerSum_vrIpCsum (hfits.of_ipHl hhl hlength)

theorem quotedCsum_replaces (fe : NatEntry) (hrfe : FlowSized 4 rfe) (h : Whole .v4 ip rest)
    (hquotes : QuotesPorts .v4 ip) :
    Replaces .v4 (quotedAt .v4 ip) ip
      (quotedCsum fe (quotedAt .v4 ip) (quotedAddrs fe rfe (quotedAt .v4 ip) ip))
      (replacedQuotedHeader fe .v4 ip) 0 := by
  have hfive := hquotes.header rfl
  have hinside : icmpHdrSize + ipHl (ip.drop (quotedAt .v4 ip)) * 4 + 4 ≤ segmentLen .v4 ip :=
    hquotes.inside
  have hlength := h.length
  change Replaces .v4 (quotedAt .v4 ip) ip _
    (if fe.snat || fe.dnat then headerSum (ip.drop (quotedAt .v4 ip)) else 0) 0
  have hat : quotedAt .v4 ip = transportAt .v4 ip + icmpHdrSize := rfl
  cases hnat : fe.snat || fe.dnat with
  | true =>
    have hsum := quotedCsum_sum hrfe ⟨hfive, by rw [List.length_drop]; omega⟩ hnat
    rw [headerSum, ipHl_quotedCsum fe hrfe] at hsum
    have hsame := (quotedCsum_same fe hrfe (quotedAt .v4 ip) ip).mono (Nat.le_add_right _ 10)
      (by omega : _ ≤ quotedAt .v4 ip + ipHl (ip.drop (quotedAt .v4 ip)) * 4)
    rw [if_pos rfl]
    exact (Replaces.of_sameOutside h rfl hsame (by omega) (by omega)).congr
      (hsum.trans Nat.cast_zero.symm)
  | false =>
    obtain ⟨hsnat, hdnat⟩ := Bool.or_eq_false_iff.mp hnat
    have hself : quotedCsum fe (quotedAt .v4 ip) (quotedAddrs fe rfe (quotedAt .v4 ip) ip) = ip := by
      simp [quotedCsum, quotedAddrs, hsnat, hdnat]
    rw [hself, if_neg (by decide)]
    exact .refl _ _ _

/-- **What translation replaces in the packet that an error quotes.** -/
theorem natQuoted_replaces (hrfe : FlowSized 4 rfe) (h : Whole .v4 ip rest)
    (hquotes : QuotesPorts .v4 ip) :
    Replaces .v4 (quotedAt .v4 ip) ip (natQuoted fe rfe ip)
      (replacedQuotedHeader fe .v4 ip +
        replacedQuotedPorts fe (quotedAt .v4 ip + quotedLen .v4 ip) ip)
      (writtenQuotedHeader fe rfe .v4 + writtenPorts fe rfe) := by
  have hheader := quotedCsum_replaces fe hrfe h hquotes
  have hsame := quotedCsum_same fe hrfe (quotedAt .v4 ip) ip
  have hhl := ipHl_quotedCsum fe hrfe (quotedAt .v4 ip) ip
  have hfive := hquotes.header rfl
  have hinside := hquotes.inside
  have heq : natQuoted fe rfe ip = quotedPorts fe rfe
      (quotedAt .v4 ip +
        ipHl ((quotedCsum fe (quotedAt .v4 ip) (quotedAddrs fe rfe (quotedAt .v4 ip) ip)).drop
          (quotedAt .v4 ip)) * 4)
      (quotedCsum fe (quotedAt .v4 ip) (quotedAddrs fe rfe (quotedAt .v4 ip) ip)) := rfl
  rw [heq, hhl]
  generalize quotedCsum fe (quotedAt .v4 ip) (quotedAddrs fe rfe (quotedAt .v4 ip) ip) = ip₁ at *
  have hl := hheader.layout
  have hlen : quotedLen .v4 ip = ipHl (ip.drop (quotedAt .v4 ip)) * 4 := rfl
  have hat : quotedAt .v4 ip + quotedLen .v4 ip =
      transportAt .v4 ip₁ + (icmpHdrSize + quotedLen .v4 ip) := by
    rw [hl.transportAt, quotedAt, Nat.add_assoc]
  have hports : replacedQuotedPorts fe (quotedAt .v4 ip + quotedLen .v4 ip) ip =
      replacedQuotedPorts fe (quotedAt .v4 ip + quotedLen .v4 ip) ip₁ := by
    rw [replacedQuotedPorts, replacedQuotedPorts, hsame.le16 (Or.inr (by omega)),
      hsame.le16 (Or.inr (by omega))]
  rw [hports, ← hlen, hat]
  refine hheader.trans (quotedPorts_replaces fe (h.of_sameLayout hl) hrfe ?_ ?_ ?_)
  · have : icmpHdrSize = 8 := rfl
    omega
  · rw [hl.transportAt, quotedAt]
    omega
  · rw [hl.segmentLen]
    exact hinside

theorem nat6Quoted_replaces (hrfe : FlowSized 16 rfe) (h : Whole .v6 ip rest)
    (hquotes : QuotesPorts .v6 ip) :
    Replaces .v6 (quotedAt .v6 ip) ip (nat6Quoted fe rfe ip)
      (replacedQuotedHeader fe .v6 ip +
        replacedQuotedPorts fe (quotedAt .v6 ip + quotedLen .v6 ip) ip)
      (writtenQuotedHeader fe rfe .v6 + writtenPorts fe rfe) := by
  have hinside : 8 + 40 + 4 ≤ segmentLen .v6 ip := hquotes.inside
  have hset : ∀ (b xs : List Byte) (i : ℕ), xs.length = 16 →
      SameOutside i (i + 16) b (setBytes b i xs) :=
    fun b xs i hxs => hxs ▸ setBytes_sameOutside b i xs
  set ip₁ := if fe.snat then setBytes ip (48 + 24) rfe.dip else ip with hip₁
  set ip₂ := if fe.dnat then setBytes ip₁ (48 + 8) rfe.sip else ip₁ with hip₂
  have hsame₁ : SameOutside 72 88 ip ip₁ := by
    rw [hip₁]
    exact .ite (fun _ => hset _ _ _ hrfe.dip) fun _ => .refl _ _ _
  have hsame₂ : SameOutside 56 88 ip ip₂ := by
    refine (hsame₁.mono (by decide) (le_refl _)).trans ?_
    rw [hip₂]
    refine .ite (fun _ => ?_) fun _ => .refl _ _ _
    exact (hset _ _ _ hrfe.sip).mono (le_refl _) (by decide)
  have hdst : Replaces .v6 48 ip ip₁ (if fe.snat then wordSum (slice ip (48 + 24) 16) else 0)
      (if fe.snat then wordSum rfe.dip else 0) := by
    rw [hip₁]
    refine .ite fun _ => ?_
    have hreplaces := Replaces.of_setBytes h (m := 32) rfl hrfe.dip rfl (by omega)
    exact hreplaces.mono (show 48 ≤ 40 + 32 by decide)
  have hwhole₁ := h.of_sameLayout hdst.layout
  have hsrc : Replaces .v6 48 ip₁ ip₂ (if fe.dnat then wordSum (slice ip (48 + 8) 16) else 0)
      (if fe.dnat then wordSum rfe.sip else 0) := by
    rw [hip₂, ← hsame₁.slice (Or.inl (le_refl _))]
    refine .ite fun _ => ?_
    have hreplaces := Replaces.of_setBytes hwhole₁ (m := 16) rfl hrfe.sip rfl
      (by rw [hdst.layout.segmentLen]; omega)
    exact hreplaces.mono (show 48 ≤ 40 + 16 by decide)
  have hwhole₂ := hwhole₁.of_sameLayout hsrc.layout
  have hports : replacedQuotedPorts fe 88 ip₂ = replacedQuotedPorts fe 88 ip := by
    rw [replacedQuotedPorts, replacedQuotedPorts, hsame₂.le16 (Or.inr (by omega)),
      hsame₂.le16 (Or.inr (by omega))]
  have hquoted := quotedPorts_replaces fe hwhole₂ hrfe (m := 48) rfl
    (show 48 ≤ 40 + 48 by decide)
    (by rw [hsrc.layout.segmentLen, hdst.layout.segmentLen]; omega)
  change Replaces .v6 48 ip₂ (quotedPorts fe rfe 88 ip₂) (replacedQuotedPorts fe 88 ip₂)
    (writtenPorts fe rfe) at hquoted
  rw [hports] at hquoted
  exact (hdst.trans hsrc).trans hquoted

/-! ### The message -/

/-- The sum of the words of the message that are replaced. -/
def messageReplaced (v : Version) (fe : NatEntry) (ip : List Byte) : ℕ :=
  (if vrIcmpError (ip.drop (transportAt v ip)) then
    replacedQuotedHeader fe v ip + replacedQuotedPorts fe (quotedAt v ip + quotedLen v ip) ip
    else 0) +
    replacedPorts fe (transportAt v ip) ip

/-- The sum of the words that are written instead. -/
def messageWritten (v : Version) (fe : NatEntry) (rfe : VrFlow) (ip : List Byte) : ℕ :=
  (if vrIcmpError (ip.drop (transportAt v ip)) then
    writtenQuotedHeader fe rfe v + writtenPorts fe rfe else 0) +
    writtenPorts fe rfe

/-- **The packets of ICMP whose checksum stays valid**, as far as it is not computed anew. -/
def MessageSafe (v : Version) (fe : NatEntry) (rfe : VrFlow) (ip : List Byte) : Prop :=
  messageWritten v fe rfe ip ≡ messageReplaced v fe ip [MOD 65535]

/-- The steps of a translation: the quoted packet, the addresses and the ports. -/
theorem message_replaces {ip₁ ip₂ : List Byte} (fe : NatEntry) (h : Whole v ip rest)
    (hrfe : FlowSized n rfe) (hquoted : Replaces v (quotedAt v ip) ip ip₁ x y) (hlo : fixedLen v ≤ lo)
    (hlo' : lo ≤ transportAt v ip) (haddrs : SameOutside lo (transportAt v ip) ip₁ ip₂) (inc : ℕ) :
    Replaces v lo ip (natPorts fe rfe (transportAt v ip) ip₂ inc).1
      (x + replacedPorts fe (transportAt v ip) ip) (y + writtenPorts fe rfe) := by
  have ht := hquoted.layout.transportAt
  have hicmp : icmpHdrSize = 8 := rfl
  have hle : transportAt v ip ≤ quotedAt v ip := Nat.le_add_right _ _
  have hreplaces := Replaces.of_before (ht.symm ▸ haddrs) hlo
  have hl := hquoted.layout.trans hreplaces.layout
  have hports := natPorts_replaces fe (h.of_sameLayout hl) hrfe inc
  rw [hl.transportAt] at hports
  have hsame : replacedPorts fe (transportAt v ip) ip₂ = replacedPorts fe (transportAt v ip) ip := by
    rw [replacedPorts_of_before haddrs (le_refl _), replacedPorts, replacedPorts,
      hquoted.same.le16 (Or.inl (by rw [quotedAt]; omega)),
      hquoted.same.le16 (Or.inl (by rw [quotedAt]; omega))]
  rw [hsame] at hports
  have htrans := ((hquoted.mono (hlo'.trans hle)).trans hreplaces).trans (hports.mono hlo')
  rwa [Nat.add_zero, Nat.add_zero] at htrans

/-! ### ICMP for IPv4 -/

theorem coveredSum_icmp (hproto : protoOf v ip = vrIpProtoIcmp) (h : Replaces v lo ip ip' x y)
    (rest : List Byte) :
    (coveredSum v ip' rest + x : ZMod 65535) = coveredSum v ip rest + y := by
  have hseg := h.sum
  rw [coveredSum, coveredSum, h.layout.protoOf, if_pos hproto, if_pos hproto, wordSum, wordSum,
    wordSumFrom_append, wordSumFrom_append, h.layout.segment_length]
  rw [wordSum, wordSum] at hseg
  push_cast
  linear_combination hseg

theorem natIcmp_replaces (fe : NatEntry) (hrfe : FlowSized 4 rfe) (h : Whole .v4 ip rest)
    (hproto : protoOf .v4 ip = vrIpProtoIcmp)
    (hquotes : vrIcmpError (ip.drop (transportAt .v4 ip)) = true → QuotesPorts .v4 ip) :
    Replaces .v4 (quotedAt .v4 ip) ip (natIcmp fe rfe ip)
      (if vrIcmpError (ip.drop (transportAt .v4 ip)) then replacedQuotedHeader fe .v4 ip +
        replacedQuotedPorts fe (quotedAt .v4 ip + quotedLen .v4 ip) ip else 0)
      (if vrIcmpError (ip.drop (transportAt .v4 ip)) then
        writtenQuotedHeader fe rfe .v4 + writtenPorts fe rfe else 0) := by
  have heq : natIcmp fe rfe ip =
      if vrIcmpError (ip.drop (transportAt .v4 ip)) then natQuoted fe rfe ip else ip :=
    if_congr (and_iff_right hproto) rfl rfl
  rw [heq]
  exact .ite fun herror => natQuoted_replaces hrfe h (hquotes herror)

theorem vrIpUpdateCsum_icmp (pkt : VrPacket) (hproto : protoOf .v4 pkt.data = vrIpProtoIcmp)
    (ipInc inc : ℕ) :
    vrIpUpdateCsum pkt ipInc inc =
      { pkt with data := if ipInc ≠ 0 then vrIpIncrementalCsum pkt.data ipInc else pkt.data } := by
  have hnone : ∀ ip, protoOf .v4 ip = vrIpProtoIcmp → csumPos (ipProto ip) (ipHl ip * 4) = none := by
    intro ip hip
    rw [show ipProto ip = vrIpProtoIcmp from hip]
    rfl
  have hsame : SameLayout .v4 pkt.data (vrIpIncrementalCsum pkt.data ipInc) :=
    sameLayout_of_sameOutside (set16_sameOutside _ _ _) (le_refl _)
  unfold vrIpUpdateCsum
  dsimp only
  rw [hnone]
  split_ifs
  · exact hsame.protoOf.trans hproto
  · exact hproto

theorem kept_icmp_iff (hproto : protoOf v pkt.data = vrIpProtoIcmp) (hok : ChecksumOk v pkt rest)
    (h : Replaces v lo pkt.data ip' x y) :
    Kept v pkt { pkt with data := ip' } rest ↔ y ≡ x [MOD 65535] := by
  have hnudp : ∀ q : Prop, ¬ (protoOf v pkt.data = vrIpProtoUdp ∧ q) := by
    rintro q ⟨h, -⟩
    exact absurd (hproto.symm.trans h) (by decide)
  have hcovered := coveredSum_icmp hproto h rest
  rw [ChecksumOk, if_neg (hnudp _), if_neg (fun h => h.2 hproto)] at hok
  rw [hok, zero_add] at hcovered
  have hvalid : ChecksumOk v { pkt with data := ip' } rest ↔
      (coveredSum v ip' rest : ZMod 65535) = 0 := by
    rw [ChecksumOk]
    dsimp only
    rw [h.layout.protoOf, if_neg (hnudp _), if_neg (fun h => h.2 hproto)]
  rw [← ZMod.natCast_eq_natCast_iff, ← hcovered]
  constructor
  · intro hkept
    rw [hvalid.mp hkept.checksumOk, zero_add]
  · intro hsum
    refine ⟨rfl, hvalid.mpr (add_eq_right.mp hsum), fun hudp => ?_⟩
    exact absurd (hproto.symm.trans hudp) (by decide)

theorem vrInetFlowNat_kept_icmp (fe : NatEntry) (hrfe : FlowSized 4 rfe)
    (hwhole : Whole .v4 pkt.data rest)
    (hproto : protoOf .v4 pkt.data = vrIpProtoIcmp) (hok : ChecksumOk .v4 pkt rest)
    (hquotes : vrIcmpError (pkt.data.drop (transportAt .v4 pkt.data)) = true →
      QuotesPorts .v4 pkt.data) :
    ∃ pkt', vrInetFlowNat fe (some rfe) pkt = some pkt' ∧
      (Kept .v4 pkt pkt' rest ↔ MessageSafe .v4 fe rfe pkt.data) := by
  have hle : 20 ≤ transportAt .v4 pkt.data := hwhole.addrs_le
  have hlen := hwhole.length
  have hquoted := natIcmp_replaces fe hrfe hwhole hproto hquotes
  set ip₁ := natIcmp fe rfe pkt.data with hip₁
  set addrs := natAddrs fe rfe ip₁ with haddrs
  have hrewrites : Rewrites 12 20 ip₁ addrs.1 0 addrs.2 :=
    natAddrs_rewrites hrfe (by rw [hquoted.layout.length]; omega)
  have hsame : SameOutside 10 (transportAt .v4 pkt.data) ip₁ addrs.1 :=
    hrewrites.same.mono (by decide) hle
  have hl := hquoted.layout.trans (sameLayout_of_sameOutside (v := .v4) hsame (le_refl _))
  have hmessage := message_replaces fe hwhole hrfe hquoted (show fixedLen .v4 ≤ 10 by decide)
    (by omega) hsame addrs.2
  have htransport : natTransport fe rfe addrs.1 addrs.2 =
      natPorts fe rfe (transportAt .v4 pkt.data) addrs.1 addrs.2 := by
    rw [← hl.transportAt]
    exact if_pos (hwhole.of_sameLayout hl).transportHeaderValid
  set ports := natPorts fe rfe (transportAt .v4 pkt.data) addrs.1 addrs.2
  have hnat : vrInetFlowNat fe (some rfe) pkt = some { pkt with
      data := if pkt.diag then ports.1
        else if addrs.2 ≠ 0 then vrIpIncrementalCsum ports.1 addrs.2 else ports.1 } := by
    have hupdate := vrIpUpdateCsum_icmp { pkt with data := ports.1 }
      (hmessage.layout.protoOf.trans hproto) addrs.2 ports.2
    rw [vrInetFlowNat_some]
    dsimp only
    rw [← hip₁, ← haddrs, htransport, hupdate]
    by_cases hdiag : pkt.diag = true
    · rw [if_pos hdiag, if_pos hdiag]
    · rw [if_neg hdiag, if_neg hdiag]
  refine ⟨_, hnat, kept_icmp_iff hproto hok (hmessage.trans (.of_before ?_ (le_refl _)))⟩
  rw [hmessage.layout.transportAt]
  have hheader : SameOutside 10 (transportAt .v4 pkt.data) ports.1
      (if addrs.2 ≠ 0 then vrIpIncrementalCsum ports.1 addrs.2 else ports.1) :=
    .ite (fun _ => (set16_sameOutside _ _ _).mono (le_refl _) (by omega)) fun _ => .refl _ _ _
  exact .ite (fun _ => .refl _ _ _) fun _ => hheader

/-! ### ICMPv6 -/

/-- The byte behind the message. -/
def byteAfter (v : Version) (ip : List Byte) : ℕ := u8 ip (transportAt v ip + segmentLen v ip)

/-- What it adds to the checksum that is computed for a message with an odd number of bytes. -/
def extraByte (v : Version) (ip : List Byte) : ℕ :=
  if segmentLen v ip % 2 = 0 then 0 else 256 * byteAfter v ip

theorem extraByte_eq_zero (v : Version) (ip : List Byte) : (extraByte v ip : ZMod 65535) = 0 ↔
    segmentLen v ip % 2 = 0 ∨ byteAfter v ip = 0 := by
  have hlt : byteAfter v ip < 256 := u8_lt _ _
  rw [ZMod.natCast_eq_zero_iff, extraByte]
  split_ifs with heven
  · exact iff_of_true (dvd_zero _) (.inl heven)
  · omega

theorem csumField_icmp6 (hproto : protoOf .v6 ip = vrIpProtoIcmp6) :
    csumField .v6 ip = le16 ip (ip6HdrSize + 2) := by
  rw [csumField, hproto]
  rfl

section

variable (h : Whole .v6 ip rest) (hproto : protoOf .v6 ip = vrIpProtoIcmp6)
include h hproto

theorem Whole.eight_le : 8 ≤ segmentLen .v6 ip := by
  have hheader := h.header
  rwa [hproto] at hheader

theorem Whole.icmp6At : Icmp6At ip (ip.drop ip6HdrSize) where
  header := by
    have hlength : 40 + segmentLen .v6 ip ≤ ip.length := h.length
    omega
  nxt := hproto
  inside := by
    have hlength : 40 + ntohs (ip6Plen ip) ≤ ip.length := h.length
    rw [List.length_drop, ip6HdrSize]
    omega

theorem rfc4443Sum_cast : (rfc4443Sum ip (segment .v6 ip) : ZMod 65535) =
    pseudoSum .v6 ip rest + wordSum (segment .v6 ip) - csumField .v6 ip := by
  have height := h.eight_le hproto
  have hlength : 40 + segmentLen .v6 ip ≤ ip.length := h.length
  have hrest : rest = [] := h.version
  have hseglen : (segment .v6 ip).length = segmentLen .v6 ip := slice_length hlength
  have hset := wordSum_set16 (b := segment .v6 ip) (i := 2) (w := 0) rfl (by omega) (by decide)
  have hfield : le16 (segment .v6 ip) 2 = csumField .v6 ip := by
    rw [csumField_icmp6 hproto, segment, slice, le16_take (by omega), le16_drop]
    rfl
  have hpseudo : pseudoSum .v6 ip rest =
      wordSum (slice ip 8 32) + (swap16 (segmentLen .v6 ip) + 256 * 58) := by
    rw [pseudoSum, hproto, hrest, List.append_nil, hseglen, Nat.add_assoc,
      Nat.add_comm (256 * vrIpProtoIcmp6)]
    rfl
  have hsum : rfc4443Sum ip (segment .v6 ip) =
      pseudoSum .v6 ip rest + wordSum (set16 (segment .v6 ip) 2 0) := by
    rw [rfc4443Sum, wordSum_addrs (by omega), wordSum_append (by simp), hseglen,
      wordSum_length (n := segmentLen .v6 ip) (swap16_lt _), hpseudo, ← Nat.add_assoc]
  rw [hfield] at hset
  have hcast := congrArg (Nat.cast : ℕ → ZMod 65535) hset
  rw [hsum]
  push_cast at hcast ⊢
  linear_combination hcast

theorem extraSum_eq : extraSum ip (ip.drop ip6HdrSize) = extraByte .v6 ip := by
  have height : 8 ≤ ntohs (ip6Plen ip) := h.eight_le hproto
  rw [extraSum, byteBehind, u8_set16_of_ne (by omega), u8_drop]
  rfl

/-- **The computed checksum is the sum of all that it covers**, without the field itself, and of the
byte behind an odd message. -/
theorem vrIcmp6Checksum_eq : ∃ s : ℕ, 0 < s ∧
    vrIcmp6Checksum ip (ip.drop ip6HdrSize) = onesSum s ∧ (s : ZMod 65535) =
      pseudoSum .v6 ip rest + wordSum (segment .v6 ip) - csumField .v6 ip + extraByte .v6 ip := by
  have hat := h.icmp6At hproto
  refine ⟨_, Nat.add_pos_left hat.sum_pos _, hat.checksum_eq, ?_⟩
  rw [extraSum_eq h hproto, Nat.cast_add]
  exact congrArg (· + _) (rfc4443Sum_cast h hproto)

end

/-- A checksum is also the sum of the pseudo header only by chance. -/
theorem not16_eq_foldedSum {s p : ℕ} (hs : 0 < s) (hp : 0 < p) :
    not16 (onesSum s) = foldedSum p ↔ (s + p : ZMod 65535) = 0 ∧ (p : ZMod 65535) ≠ 0 := by
  rw [← Nat.cast_add, ne_eq, ZMod.natCast_eq_zero_iff, ZMod.natCast_eq_zero_iff, not16, onesSum,
    if_neg (by omega), foldedSum]
  omega

/-- **The packets of ICMPv6 whose checksum stays valid.**  If an address may have changed, the
checksum is computed anew, with the byte behind an odd message; and it replaces a partial one, which
it equals only by chance.  Otherwise it is not updated, but the destination port is written over
it. -/
def Icmp6Safe (fe : NatEntry) (rfe : VrFlow) (pkt : VrPacket) : Prop :=
  if fe.snat || fe.dnat then
    if pkt.csumPartial then
      2 * (pseudoSum .v6 pkt.data [] + writtenAddrs .v6 fe rfe pkt.data) +
          (wordSum (segment .v6 pkt.data) + messageWritten .v6 fe rfe pkt.data) +
          extraByte .v6 pkt.data ≡
        2 * replacedAddrs .v6 fe pkt.data + messageReplaced .v6 fe pkt.data +
          (if fe.dpat then rfe.sport else csumField .v6 pkt.data) [MOD 65535] ∧
      ¬ pseudoSum .v6 pkt.data [] + writtenAddrs .v6 fe rfe pkt.data ≡
        replacedAddrs .v6 fe pkt.data [MOD 65535]
    else segmentLen .v6 pkt.data % 2 = 0 ∨ byteAfter .v6 pkt.data = 0
  else if pkt.csumPartial then fe.dpat = true → rfe.sport = csumField .v6 pkt.data
  else MessageSafe .v6 fe rfe pkt.data

theorem nat6Icmp_replaces (fe : NatEntry) (hrfe : FlowSized 16 rfe) (h : Whole .v6 ip rest)
    (hproto : protoOf .v6 ip = vrIpProtoIcmp6)
    (hquotes : vrIcmpError (ip.drop (transportAt .v6 ip)) = true → QuotesPorts .v6 ip) :
    Replaces .v6 (quotedAt .v6 ip) ip (nat6Icmp fe rfe ip)
      (if vrIcmpError (ip.drop (transportAt .v6 ip)) then replacedQuotedHeader fe .v6 ip +
        replacedQuotedPorts fe (quotedAt .v6 ip + quotedLen .v6 ip) ip else 0)
      (if vrIcmpError (ip.drop (transportAt .v6 ip)) then
        writtenQuotedHeader fe rfe .v6 + writtenPorts fe rfe else 0) := by
  have heq : nat6Icmp fe rfe ip =
      if vrIcmpError (ip.drop (transportAt .v6 ip)) then nat6Quoted fe rfe ip else ip :=
    if_congr (and_iff_right hproto) rfl rfl
  rw [heq]
  exact .ite fun herror => nat6Quoted_replaces hrfe h (hquotes herror)

/-- A packet of ICMPv6 as it is translated before the checksum is computed anew. -/
structure Translated6 (fe : NatEntry) (rfe : VrFlow) (ip ip' rest : List Byte) : Prop where
  layout : SameLayout .v6 ip ip'
  pseudo : (pseudoSum .v6 ip' rest : ZMod 65535) =
    pseudoSum .v6 ip rest + (writtenAddrs .v6 fe rfe ip - replacedAddrs .v6 fe ip)
  seg : (wordSum (segment .v6 ip') + messageReplaced .v6 fe ip : ZMod 65535) =
    wordSum (segment .v6 ip) + messageWritten .v6 fe rfe ip
  field : csumField .v6 ip' = if fe.dpat then rfe.sport else csumField .v6 ip
  extra : extraByte .v6 ip' = extraByte .v6 ip

theorem le16_natPorts (hrfe : FlowSized n rfe) {t : ℕ} (hlen : t + 4 ≤ ip.length) (inc : ℕ) :
    le16 (natPorts fe rfe t ip inc).1 (t + 2) = if fe.dpat then rfe.sport else le16 ip (t + 2) := by
  have hfirst : SameOutside t (t + 2) ip (if fe.spat then set16 ip t rfe.dport else ip) :=
    .ite (fun _ => set16_sameOutside _ _ _) fun _ => .refl _ _ _
  rw [natPorts_fst]
  dsimp only
  generalize (if fe.spat then set16 ip t rfe.dport else ip) = ip₁ at hfirst ⊢
  split_ifs
  · exact le16_set16_self (by rw [hfirst.length]; omega) hrfe.sport
  · exact hfirst.le16 (Or.inr (le_refl _))

theorem nat6_translated (fe : NatEntry) (hrfe : FlowSized 16 rfe) (h : Whole .v6 ip rest)
    (hproto : protoOf .v6 ip = vrIpProtoIcmp6)
    (hquotes : vrIcmpError (ip.drop (transportAt .v6 ip)) = true → QuotesPorts .v6 ip) :
    Translated6 fe rfe ip
      (nat6Transport fe rfe (nat6Addrs fe rfe (nat6Icmp fe rfe ip)).1).1 rest := by
  have hlen : 40 + segmentLen .v6 ip ≤ ip.length := h.length
  have height := h.eight_le hproto
  have hquoted := nat6Icmp_replaces fe hrfe h hproto hquotes
  set ip₁ := nat6Icmp fe rfe ip
  have hsame₁ : SameOutside 48 (40 + segmentLen .v6 ip) ip ip₁ := hquoted.same
  have hlen₁ : 40 ≤ ip₁.length := by
    rw [hsame₁.length]
    omega
  set addrs := nat6Addrs fe rfe ip₁
  have hrewrites : Rewrites 8 40 ip₁ addrs.1 0 addrs.2 := nat6Addrs_rewrites hrfe hlen₁
  have hcast : (addrs.2 : ZMod 65535) = writtenAddrs .v6 fe rfe ip₁ - replacedAddrs .v6 fe ip₁ :=
    nat6Addrs_cast hrfe hlen₁
  have hmessage := message_replaces fe h hrfe hquoted (le_refl _) (by decide : 8 ≤ 40)
    hrewrites.same 0
  have hl := hquoted.layout.trans (sameLayout_of_sameOutside (v := .v6) hrewrites.same (le_refl _))
  have htransport : nat6Transport fe rfe addrs.1 =
      natPorts fe rfe (transportAt .v6 ip) addrs.1 0 := by
    have hnxt : ip6Nxt addrs.1 = vrIpProtoIcmp6 := hl.protoOf.trans hproto
    refine if_pos ?_
    rw [vrIp6TransportHeaderValid, hnxt]
    rfl
  rw [htransport]
  have hports := natPorts_same fe rfe (transportAt .v6 ip) addrs.1 0
  refine ⟨hmessage.layout, ?_, hmessage.sum, ?_, ?_⟩
  · -- the addresses are those that the quoted packet leaves alone
    refine pseudoSum_of_addrs hmessage.layout ?_ rest
    have hslice : ∀ i k, i + k ≤ 48 → slice ip₁ i k = slice ip i k :=
      fun i k hik => hsame₁.slice (Or.inl hik)
    have hsum := hrewrites.sum (by decide)
    rw [hcast, writtenAddrs, replacedAddrs, srcChanges, hslice _ _ (by decide),
      hslice _ _ (by decide), hslice _ _ (by decide), Nat.cast_zero, sub_zero] at hsum
    exact (congrArg _ (congrArg wordSum (hports.slice (Or.inl (le_refl _))))).trans hsum
  · have hle : 44 ≤ addrs.1.length := by
      rw [hl.length]
      omega
    rw [csumField_icmp6 (hmessage.layout.protoOf.trans hproto), csumField_icmp6 hproto]
    refine (le16_natPorts hrfe hle 0).trans ?_
    rw [hrewrites.same.le16 (Or.inr (by decide)), hsame₁.le16 (Or.inl (by decide))]
    rfl
  · have hbyte : byteAfter .v6 (natPorts fe rfe (transportAt .v6 ip) addrs.1 0).1 =
        byteAfter .v6 ip := by
      rw [byteAfter, hmessage.layout.transportAt, hmessage.layout.segmentLen]
      exact hmessage.same.bytes _ (Or.inr (le_refl _))
    rw [extraByte, extraByte, hbyte, hmessage.layout.segmentLen]

section

variable {ip₁ : List Byte} (h : Whole .v6 pkt.data rest)
  (hproto : protoOf .v6 pkt.data = vrIpProtoIcmp6) (htranslated : Translated6 fe rfe pkt.data ip₁ rest)
include h hproto

theorem kept_iff_of_icmp6 (hl : SameLayout .v6 pkt.data ip') :
    Kept .v6 pkt { pkt with data := ip' } rest ↔
      if pkt.csumPartial then csumField .v6 ip' = foldedSum (pseudoSum .v6 ip' rest)
      else (pseudoSum .v6 ip' rest + wordSum (segment .v6 ip') : ZMod 65535) = 0 := by
  have hrest : rest = [] := h.version
  have hne : vrIpProtoIcmp6 ≠ vrIpProtoUdp ∧ vrIpProtoIcmp6 ≠ vrIpProtoIcmp := by decide
  have hvalid : ChecksumOk .v6 { pkt with data := ip' } rest ↔
      if pkt.csumPartial then csumField .v6 ip' = foldedSum (pseudoSum .v6 ip' rest)
      else (pseudoSum .v6 ip' rest + wordSum (segment .v6 ip') : ZMod 65535) = 0 := by
    rw [ChecksumOk, coveredSum]
    dsimp only
    rw [hl.protoOf, hproto, if_neg (fun h => hne.1 h.1), if_neg hne.2, hrest, List.append_nil,
      Nat.cast_add]
    simp only [hne.2, ne_eq, not_false_eq_true, and_true]
  refine ⟨fun hkept => hvalid.mp hkept.checksumOk, fun hok => ⟨rfl, hvalid.mpr hok, fun hudp => ?_⟩⟩
  exact absurd (hproto.symm.trans hudp) hne.1

include htranslated

/-- The checksum is computed anew. -/
theorem kept_iff_of_computed : Kept .v6 pkt { pkt with
      data := set16 ip₁ (ip6HdrSize + 2) (not16 (vrIcmp6Checksum ip₁ (ip₁.drop ip6HdrSize))) } rest ↔
    if pkt.csumPartial then
      2 * (pseudoSum .v6 pkt.data [] + writtenAddrs .v6 fe rfe pkt.data) +
          (wordSum (segment .v6 pkt.data) + messageWritten .v6 fe rfe pkt.data) +
          extraByte .v6 pkt.data ≡
        2 * replacedAddrs .v6 fe pkt.data + messageReplaced .v6 fe pkt.data +
          (if fe.dpat then rfe.sport else csumField .v6 pkt.data) [MOD 65535] ∧
      ¬ pseudoSum .v6 pkt.data [] + writtenAddrs .v6 fe rfe pkt.data ≡
        replacedAddrs .v6 fe pkt.data [MOD 65535]
    else segmentLen .v6 pkt.data % 2 = 0 ∨ byteAfter .v6 pkt.data = 0 := by
  have hl := htranslated.layout
  have hwhole₁ := h.of_sameLayout hl
  have hproto₁ := hl.protoOf.trans hproto
  have hrest : rest = [] := h.version
  obtain ⟨s, hs, hcsum, hcast⟩ := vrIcmp6Checksum_eq hwhole₁ hproto₁
  rw [hcsum]
  have hpos : transportAt .v6 ip₁ + csumOffset (protoOf .v6 ip₁) = ip6HdrSize + 2 := by
    rw [hproto₁]
    rfl
  obtain ⟨hchanged, hfield⟩ := changed_of_csum hwhole₁ (not16_lt (onesSum s))
  rw [hpos] at hchanged hfield
  have hpseudo : pseudoSum .v6 (set16 ip₁ (ip6HdrSize + 2) (not16 (onesSum s))) rest =
      pseudoSum .v6 ip₁ rest := by
    rw [pseudoSum, pseudoSum, hchanged.layout.protoOf, List.length_append, List.length_append,
      hchanged.layout.segment_length, (set16_sameOutside _ _ _).slice (Or.inl (by decide))]
  rw [kept_iff_of_icmp6 h hproto (hl.trans hchanged.layout), hfield, hpseudo]
  have hsegs := htranslated.seg
  have hps := htranslated.pseudo
  rw [hrest] at hcast hps ⊢
  cases pkt.csumPartial with
  | true =>
    simp only [if_true]
    rw [not16_eq_foldedSum hs (pseudoSum_pos (by rw [hproto₁]; decide) _), hcast, hps,
      htranslated.field, htranslated.extra, ← ZMod.natCast_eq_natCast_iff,
      ← ZMod.natCast_eq_natCast_iff]
    push_cast
    refine and_congr ⟨fun heq => ?_, fun heq => ?_⟩ (not_congr ⟨fun heq => ?_, fun heq => ?_⟩)
    · linear_combination heq - hsegs
    · linear_combination heq + hsegs
    · linear_combination heq
    · linear_combination heq
  | false =>
    simp only [Bool.false_eq_true, if_false]
    have hextra := extraByte_eq_zero .v6 pkt.data
    have hseg := hchanged.seg
    rw [hfield, not16_cast (onesSum_lt s), onesSum_cast, hcast, htranslated.extra] at hseg
    rw [← hextra, hseg]
    constructor
    · intro heq
      linear_combination -heq
    · intro heq
      linear_combination -heq

/-- The checksum is left as the message's words leave it. -/
theorem kept_iff_of_left (hok : ChecksumOk .v6 pkt rest) (hnat : (fe.snat || fe.dnat) = false) :
    Kept .v6 pkt { pkt with data := ip₁ } rest ↔
      if pkt.csumPartial then fe.dpat = true → rfe.sport = csumField .v6 pkt.data
      else MessageSafe .v6 fe rfe pkt.data := by
  have hl := htranslated.layout
  obtain ⟨hsnat, hdnat⟩ := Bool.or_eq_false_iff.mp hnat
  have hps : (pseudoSum .v6 ip₁ rest : ZMod 65535) = pseudoSum .v6 pkt.data rest := by
    rw [htranslated.pseudo]
    simp [writtenAddrs, replacedAddrs, srcChanges, hsnat, hdnat]
  have hsegs := htranslated.seg
  have hself := (kept_iff_of_icmp6 h hproto (.refl _ _)).mp ⟨rfl, hok, fun _ => Iff.rfl⟩
  rw [kept_iff_of_icmp6 h hproto hl]
  cases hpart : pkt.csumPartial with
  | true =>
    rw [hpart] at hself
    simp only [if_true] at hself ⊢
    have hpos : 0 < pseudoSum .v6 pkt.data rest := pseudoSum_pos (by rw [hproto]; decide) rest
    have hpos₁ : 0 < pseudoSum .v6 ip₁ rest :=
      pseudoSum_pos (by rw [hl.protoOf, hproto]; decide) rest
    have hfolded := eq_foldedSum (hself ▸ foldedSum_pos _) (csumField_lt .v6 pkt.data) hpos₁
      (by rw [hself, foldedSum_cast hpos, hps])
    rw [← hfolded, htranslated.field]
    cases fe.dpat with
    | true => simp
    | false => simp
  | false =>
    rw [hpart] at hself
    simp only [Bool.false_eq_true, if_false] at hself ⊢
    rw [MessageSafe, ← ZMod.natCast_eq_natCast_iff, hps]
    constructor
    · intro heq
      linear_combination heq - hself - hsegs
    · intro heq
      linear_combination hself + hsegs + heq

end

theorem vrInet6FlowNat_kept_icmp (fe : NatEntry) (hrfe : FlowSized 16 rfe)
    (hwhole : Whole .v6 pkt.data rest)
    (hproto : protoOf .v6 pkt.data = vrIpProtoIcmp6) (hok : ChecksumOk .v6 pkt rest)
    (hquotes : vrIcmpError (pkt.data.drop (transportAt .v6 pkt.data)) = true →
      QuotesPorts .v6 pkt.data) :
    ∃ pkt', vrInet6FlowNat fe (some rfe) pkt = some pkt' ∧
      (Kept .v6 pkt pkt' rest ↔ Icmp6Safe fe rfe pkt) := by
  have htranslated := nat6_translated fe hrfe hwhole hproto hquotes
  set ip₁ := (nat6Transport fe rfe (nat6Addrs fe rfe (nat6Icmp fe rfe pkt.data)).1).1 with hip₁
  have hproto₁ : ip6Nxt ip₁ = vrIpProtoIcmp6 := htranslated.layout.protoOf.trans hproto
  have hstep : vrInet6FlowNat fe (some rfe) pkt =
      some (nat6IcmpCsum fe { pkt with data := ip₁ }) := by
    have hupdate : ∀ ipInc portInc : ℕ, vrIp6UpdateCsum { pkt with data := ip₁ } ipInc portInc =
        { pkt with data := ip₁ } := by
      intro ipInc portInc
      have hnone : csumPos (ip6Nxt ip₁) ip6HdrSize = none := by
        rw [hproto₁]
        rfl
      rw [vrIp6UpdateCsum]
      dsimp only
      rw [hnone]
    rw [vrInet6FlowNat_some]
    dsimp only
    rw [← hip₁, hupdate, ite_self]
  refine ⟨_, hstep, ?_⟩
  rw [Icmp6Safe]
  cases hnat : fe.snat || fe.dnat with
  | true =>
    have hpkt : nat6IcmpCsum fe { pkt with data := ip₁ } = { pkt with
        data := set16 ip₁ (ip6HdrSize + 2)
          (not16 (vrIcmp6Checksum ip₁ (ip₁.drop ip6HdrSize))) } :=
      if_pos ⟨hproto₁, by rw [Bool.or_comm]; exact hnat⟩
    rw [hpkt, if_pos rfl]
    exact kept_iff_of_computed hwhole hproto htranslated
  | false =>
    have hpkt : nat6IcmpCsum fe { pkt with data := ip₁ } = { pkt with data := ip₁ } :=
      if_neg fun h => by simp [Bool.or_comm, hnat] at h
    rw [hpkt, if_neg (by decide)]
    exact kept_iff_of_left hwhole hproto htranslated hok hnat

end Vrouter.FlowNat
