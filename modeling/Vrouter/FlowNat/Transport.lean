import Vrouter.FlowNat.Spec

/-! # Translation of TCP and UDP

A translated packet is compared with the original by `Changed`: its addresses and its segment have
changed by known sums, the checksum apart.  `Added` says what an update of the checksum by a
difference leaves in the field.  The checksum stays valid if and only if the difference is the sum
of the changes (`kept_iff_of_updated`). -/

namespace Vrouter.FlowNat

open Vrouter.Lib Vrouter.Packet Vrouter.FlowKey

/-! ### Changes -/

variable {v : Version} {ip ip' ip'' rest : List Byte} {a a' s s' : ZMod 65535}

/-- The sum of the addresses has changed by `a` and that of the segment, without the checksum,
by `s`. -/
structure Changed (v : Version) (ip ip' : List Byte) (a s : ZMod 65535) : Prop where
  layout : SameLayout v ip ip'
  addrs : (wordSum (slice ip' (addrsAt v) (2 * addrLen v)) : ZMod 65535) =
    wordSum (slice ip (addrsAt v) (2 * addrLen v)) + a
  seg : (wordSum (segment v ip') : ZMod 65535) =
    wordSum (segment v ip) + s + (csumField v ip' - csumField v ip)

theorem Changed.trans (h : Changed v ip ip' a s) (h' : Changed v ip' ip'' a' s') :
    Changed v ip ip'' (a + a') (s + s') := by
  refine ⟨h.layout.trans h'.layout, ?_, ?_⟩
  · linear_combination h.addrs + h'.addrs
  · linear_combination h.seg + h'.seg

theorem Whole.addrs_le (h : Whole v ip rest) : addrsAt v + 2 * addrLen v ≤ transportAt v ip := by
  cases v with
  | v4 =>
    have := h.version.2.1
    simp only [addrsAt, addrLen, transportAt]
    omega
  | v6 =>
    simp only [addrsAt, addrLen, transportAt, ip6HdrSize]
    omega

theorem Whole.of_sameLayout (h : Whole v ip rest) (hl : SameLayout v ip ip') :
    Whole v ip' rest := by
  refine ⟨hl.protoOf ▸ h.proto, hl.protoOf ▸ hl.segmentLen ▸ h.header,
    hl.transportAt ▸ hl.segmentLen ▸ hl.length ▸ h.length, ?_⟩
  cases v with
  | v4 =>
    obtain ⟨hversion, hhl, hoffset⟩ := h.version
    have h0 := hl.bytes 0 (by decide)
    have hfrag : ipFragOff ip' = ipFragOff ip := hl.le16 (by decide)
    refine ⟨?_, ?_, ?_⟩
    · rw [ipVersion, h0]
      exact hversion
    · rw [ipHl, h0]
      exact hhl
    · rw [ipOffset, hfrag]
      exact hoffset
  | v6 => exact h.version

theorem csumOffset_lt (proto : ℕ) : csumOffset proto + 2 ≤ transportHdrLen proto := by
  unfold csumOffset transportHdrLen
  split_ifs <;> omega

theorem csumOffset_even (proto : ℕ) : csumOffset proto % 2 = 0 := by
  unfold csumOffset
  split_ifs <;> rfl

variable {lo hi inc f d : ℕ} {pkt : VrPacket}

section

variable (hsame : SameOutside lo hi ip ip') (hlo : fixedLen v ≤ lo) (hhi : hi ≤ transportAt v ip)
include hsame hlo hhi

theorem csumField_of_before : csumField v ip' = csumField v ip := by
  have hl := sameLayout_of_sameOutside hsame hlo
  rw [csumField, csumField, hl.transportAt, hl.protoOf]
  exact hsame.le16 (Or.inr (by omega))

theorem segment_of_before : segment v ip' = segment v ip := by
  have hl := sameLayout_of_sameOutside hsame hlo
  rw [segment, segment, hl.transportAt, hl.segmentLen]
  exact hsame.slice (Or.inr hhi)

/-- A write before the transport header changes the addresses only. -/
theorem changed_of_before
    (haddrs : (wordSum (slice ip' (addrsAt v) (2 * addrLen v)) : ZMod 65535) =
      wordSum (slice ip (addrsAt v) (2 * addrLen v)) + a) : Changed v ip ip' a 0 := by
  refine ⟨sameLayout_of_sameOutside hsame hlo, haddrs, ?_⟩
  rw [csumField_of_before hsame hlo hhi, segment_of_before hsame hlo hhi]
  ring

end

theorem fixedLen_le (v : Version) : fixedLen v ≤ addrsAt v := by
  cases v <;> decide

section

variable (h : Whole v ip rest)
include h

theorem changed_of_addrs
    (hrewrites : Rewrites (addrsAt v) (addrsAt v + 2 * addrLen v) ip ip' 0 inc) :
    Changed v ip ip' inc 0 := by
  refine changed_of_before hrewrites.same (fixedLen_le v) h.addrs_le ?_
  have hsum := hrewrites.sum (by decide)
  rwa [Nat.add_sub_cancel_left, Nat.cast_zero, sub_zero] at hsum

theorem sameLayout_of_transport (hsame : SameOutside lo hi ip ip')
    (hlo : transportAt v ip ≤ lo) : SameLayout v ip ip' := by
  have hle := h.addrs_le
  have hfixed := fixedLen_le v
  exact sameLayout_of_sameOutside hsame (by omega)

theorem addrs_of_transport (hsame : SameOutside lo hi ip ip')
    (hlo : transportAt v ip ≤ lo) :
    (wordSum (slice ip' (addrsAt v) (2 * addrLen v)) : ZMod 65535) =
      wordSum (slice ip (addrsAt v) (2 * addrLen v)) + 0 := by
  have hle := h.addrs_le
  rw [hsame.slice (Or.inl (by omega)), add_zero]

theorem csumField_of_ports
    (hsame : SameOutside (transportAt v ip) (transportAt v ip + 4) ip ip')
    (hcsum : 4 ≤ csumOffset (protoOf v ip)) : csumField v ip' = csumField v ip := by
  have hl := sameLayout_of_transport h hsame (le_refl _)
  rw [csumField, csumField, hl.transportAt, hl.protoOf]
  exact hsame.le16 (Or.inr (by omega))

theorem changed_of_ports {inc' : ℕ}
    (hrewrites : Rewrites (transportAt v ip) (transportAt v ip + 4) ip ip' inc inc')
    (hinc : inc < 2 ^ 32) (hcsum : 4 ≤ csumOffset (protoOf v ip)) :
    Changed v ip ip' 0 (inc' - inc) := by
  have hl := sameLayout_of_transport h hrewrites.same (le_refl _)
  have hheader := h.header
  have hlength := h.length
  have hoffset := csumOffset_lt (protoOf v ip)
  refine ⟨hl, addrs_of_transport h hrewrites.same (le_refl _), ?_⟩
  have hfield := csumField_of_ports h hrewrites.same hcsum
  have hwide : Rewrites (transportAt v ip) (transportAt v ip + segmentLen v ip) ip ip' inc inc' :=
    hrewrites.widen (by omega)
  have hseg := hwide.sum hinc
  rw [Nat.add_sub_cancel_left] at hseg
  rw [hfield, segment, segment, hl.transportAt, hl.segmentLen, hseg]
  ring

theorem changed_of_csum {w : ℕ} (hw : w < 2 ^ 16) :
    Changed v ip (set16 ip (transportAt v ip + csumOffset (protoOf v ip)) w) 0 0 ∧
      csumField v (set16 ip (transportAt v ip + csumOffset (protoOf v ip)) w) = w := by
  have hheader := h.header
  have hlength := h.length
  have hoffset := csumOffset_lt (protoOf v ip)
  have heven := csumOffset_even (protoOf v ip)
  have hsame := set16_sameOutside ip (transportAt v ip + csumOffset (protoOf v ip)) w
  have hl := sameLayout_of_transport h hsame (by omega)
  have hfield : csumField v (set16 ip (transportAt v ip + csumOffset (protoOf v ip)) w) = w := by
    rw [csumField, hl.transportAt, hl.protoOf]
    exact le16_set16_self (by omega) hw
  refine ⟨⟨hl, addrs_of_transport h hsame (by omega), ?_⟩, hfield⟩
  obtain ⟨n, hn⟩ : ∃ n, segmentLen v ip = csumOffset (protoOf v ip) + 2 + n :=
    ⟨segmentLen v ip - (csumOffset (protoOf v ip) + 2), by omega⟩
  have hsum := wordSum_slice_of_sameOutside (n := n) hsame heven rfl (by omega)
  rw [wordSum_slice_two, wordSum_slice_two, le16_set16_self (by omega) hw] at hsum
  have hcast := congrArg (Nat.cast : ℕ → ZMod 65535) hsum
  rw [hfield, segment, segment, hl.transportAt, hl.segmentLen, hn]
  push_cast at hcast
  rw [csumField]
  linear_combination hcast

end

/-! ### What is added to the checksum -/

/-- The field `f'` is `f` with a difference added to the checksum. -/
structure Added (csumPartial : Bool) (f f' d : ℕ) : Prop where
  lt : f' < 2 ^ 16
  cast : (f' : ZMod 65535) = if csumPartial then (f + d : ZMod 65535) else f - d
  pos : csumPartial = true → 0 < f → 0 < f'
  zero : csumPartial = false → 0 < f → (f' = 0 ↔ d ≠ 0 ∧ (f : ZMod 65535) = d)

theorem loadCsum_lt (csumPartial : Bool) (hf : f < 2 ^ 16) : loadCsum csumPartial f < 2 ^ 16 := by
  cases csumPartial with
  | true => exact hf
  | false => exact not16_lt f

theorem added_of_fold {csumPartial : Bool} {y : ℕ} (hf : f < 2 ^ 16) (hy : y < 2 ^ 32)
    (hcast : (y : ZMod 65535) = loadCsum csumPartial f + d)
    (hzero : y = 0 ↔ loadCsum csumPartial f = 0 ∧ d = 0)
    (hsame : d = 0 → y = loadCsum csumPartial f) :
    Added csumPartial f (storeCsum csumPartial (fold16 y)) d := by
  have hlt := fold16_lt hy
  cases csumPartial with
  | true =>
    have hstore : storeCsum true (fold16 y) = fold16 y := Nat.mod_eq_of_lt hlt
    rw [hstore]
    refine ⟨hlt, (fold16_cast hy).trans hcast, fun _ h => ?_, fun h => by simp at h⟩
    rw [Nat.pos_iff_ne_zero, ne_eq, fold16_eq_zero, hzero]
    exact fun h' => Nat.ne_of_gt h h'.1
  | false =>
    have hload : (loadCsum false f : ZMod 65535) = -(f : ZMod 65535) := not16_cast hf
    have hnot : storeCsum false (fold16 y) = 65535 - fold16 y := by
      change not16 (fold16 y) = _
      rw [not16, Nat.mod_eq_of_lt hlt]
    refine ⟨not16_lt _, ?_, fun h => by simp at h, fun _ hpos => ?_⟩
    · have hstore : (storeCsum false (fold16 y) : ZMod 65535) = -(y : ZMod 65535) := by
        rw [← fold16_cast hy]
        exact not16_cast hlt
      rw [hstore, hcast, hload]
      simp only [Bool.false_eq_true, if_false]
      ring
    · -- a sum of zero is written as 65535 unless all its parts are zero
      have hload' : loadCsum false f = 65535 - f := by
        change not16 f = _
        rw [not16, Nat.mod_eq_of_lt hf]
      have hiff : storeCsum false (fold16 y) = 0 ↔ fold16 y = 65535 := by omega
      rw [hiff]
      constructor
      · intro hmax
        obtain ⟨-, heq⟩ := (fold16_eq_ones hy).mp hmax
        rw [hcast, hload, neg_add_eq_zero] at heq
        refine ⟨fun hd => ?_, heq⟩
        have hsmall := fold16_of_lt (loadCsum_lt false hf)
        rw [← hsame hd] at hsmall
        have hy' := hsame hd
        omega
      · rintro ⟨hd, heq⟩
        refine (fold16_eq_ones hy).mpr ⟨fun hy0 => hd (hzero.mp hy0).2, ?_⟩
        rw [hcast, hload, neg_add_eq_zero]
        exact heq

theorem added_addCarry (csumPartial : Bool) (hf : f < 2 ^ 16) (hd : d < 2 ^ 32) :
    Added csumPartial f
      (storeCsum csumPartial (fold16 (addCarry (loadCsum csumPartial f) d))) d := by
  have hlt := loadCsum_lt csumPartial hf
  refine added_of_fold hf (addCarry_lt _ _) (addCarry_cast (by omega) hd) ?_ ?_
  · unfold addCarry
    dsimp only
    split_ifs <;> omega
  · rintro rfl
    unfold addCarry
    dsimp only
    split_ifs <;> omega

theorem added_add (csumPartial : Bool) (hf : f < 2 ^ 16) (hd : d < 2 ^ 17) :
    Added csumPartial f (storeCsum csumPartial (fold16 (loadCsum csumPartial f + d))) d := by
  have hlt := loadCsum_lt csumPartial hf
  refine added_of_fold hf (by omega) (Nat.cast_add _ _) (by omega) (by omega)

/-! ### Validity of the updated checksum -/

theorem csumField_lt (v : Version) (ip : List Byte) : csumField v ip < 2 ^ 16 := le16_lt _ _

/-- **The checksum stays valid if and only if the changes are added to it.**  One that is still to be
completed gets those of the addresses only. -/
theorem checksumOk_iff_of_added {pkt' : VrPacket} (hproto : protoOf v pkt.data ≠ 0)
    (hicmp : protoOf v pkt.data ≠ vrIpProtoIcmp) (hok : ChecksumOk v pkt rest)
    (hflag : pkt'.csumPartial = pkt.csumPartial) (hchanged : Changed v pkt.data pkt'.data a s)
    (hadded : Added pkt.csumPartial (csumField v pkt.data) (csumField v pkt'.data) d)
    (hcsum : ¬ (protoOf v pkt.data = vrIpProtoUdp ∧ csumField v pkt.data = 0))
    (hcsum' : ¬ (protoOf v pkt.data = vrIpProtoUdp ∧ csumField v pkt'.data = 0)) :
    ChecksumOk v pkt' rest ↔ (d : ZMod 65535) = if pkt.csumPartial then a else a + s := by
  have hpseudo := pseudoSum_of_addrs hchanged.layout hchanged.addrs rest
  have hcast := hadded.cast
  have hproto' := hchanged.layout.protoOf
  rw [ChecksumOk, if_neg hcsum] at hok
  rw [ChecksumOk, hproto', hflag, if_neg hcsum']
  cases hpart : pkt.csumPartial with
  | true =>
    rw [hpart] at hok hcast
    rw [if_pos ⟨rfl, hicmp⟩] at hok ⊢
    have hpos : 0 < pseudoSum v pkt.data rest := pseudoSum_pos (by omega) rest
    have hpos' : 0 < pseudoSum v pkt'.data rest := pseudoSum_pos (by omega) rest
    have hfolded := foldedSum_cast hpos
    rw [← hok] at hfolded
    simp only [if_true] at hcast ⊢
    have hiff : csumField v pkt'.data = foldedSum (pseudoSum v pkt'.data rest) ↔
        (csumField v pkt'.data : ZMod 65535) = pseudoSum v pkt'.data rest := by
      refine ⟨fun h => by rw [h, foldedSum_cast hpos'], eq_foldedSum (hadded.pos hpart ?_) hadded.lt
        hpos'⟩
      rw [hok]
      exact foldedSum_pos _
    rw [hiff, hcast, hpseudo, hfolded, add_right_inj]
  | false =>
    rw [hpart] at hok hcast
    simp only [Bool.false_eq_true, false_and, if_false] at hok hcast ⊢
    have hseg := hchanged.seg
    rw [add_assoc] at hseg
    rw [coveredSum_of_parts hchanged.layout hpseudo hicmp hseg, hok, hcast]
    constructor
    · intro h
      linear_combination -h
    · intro h
      linear_combination -h

/-! ### The sums of what is translated -/

/-- The source address is translated only if it is that of the flow. -/
def srcChanges (v : Version) (fe : NatEntry) (ip : List Byte) : Bool :=
  fe.snat && decide (slice ip (addrsAt v) (addrLen v) = fe.feKey.sip)

/-- The sum of the addresses that are replaced. -/
def replacedAddrs (v : Version) (fe : NatEntry) (ip : List Byte) : ℕ :=
  (if srcChanges v fe ip then wordSum (slice ip (addrsAt v) (addrLen v)) else 0) +
    if fe.dnat then wordSum (slice ip (addrsAt v + addrLen v) (addrLen v)) else 0

/-- The sum of the addresses that are written instead. -/
def writtenAddrs (v : Version) (fe : NatEntry) (rfe : VrFlow) (ip : List Byte) : ℕ :=
  (if srcChanges v fe ip then wordSum rfe.dip else 0) + if fe.dnat then wordSum rfe.sip else 0

/-- The sum of the ports at an offset that are replaced. -/
def replacedPorts (fe : NatEntry) (transport : ℕ) (ip : List Byte) : ℕ :=
  (if fe.spat then le16 ip transport else 0) + if fe.dpat then le16 ip (transport + 2) else 0

/-- The sum of the ports that are written instead. -/
def writtenPorts (fe : NatEntry) (rfe : VrFlow) : ℕ :=
  (if fe.spat then rfe.dport else 0) + if fe.dpat then rfe.sport else 0

variable {fe : NatEntry} {rfe : VrFlow} {ipInc n : ℕ}

theorem natAddrs_cast (hrfe : FlowSized 4 rfe) (ip : List Byte) :
    ((natAddrs fe rfe ip).2 : ZMod 65535) =
      writtenAddrs .v4 fe rfe ip - replacedAddrs .v4 fe ip := by
  have hsrc : (fe.snat && decide (ipSaddr ip = fe.feKey.sip)) = srcChanges .v4 fe ip := rfl
  have hself : ∀ xs : List Byte, xs.length = 4 → (le32 xs 0 : ZMod 65535) = wordSum xs := by
    intro xs hxs
    rw [le32_cast, ← hxs, slice_zero_length]
  have hdst : slice (setBytes ip 12 rfe.dip) 16 4 = slice ip 16 4 :=
    slice_setBytes_of_disjoint (Or.inr (by rw [hrfe.dip]))
  have hdiff : ∀ (b xs : List Byte) (i inc : ℕ), xs.length = 4 → inc < 2 ^ 32 →
      (vrIncrementalDiff (le32 b i) (le32 xs 0) inc : ZMod 65535) =
        inc + wordSum xs - wordSum (slice b i 4) := by
    intro b xs i inc hxs hinc
    rw [vrIncrementalDiff_cast (le32_lt _ _) (le32_lt _ _) hinc, hself xs hxs, le32_cast]
  unfold natAddrs writtenAddrs replacedAddrs
  simp only [hsrc, addrsAt, addrLen]
  cases srcChanges .v4 fe ip <;> cases fe.dnat <;>
    simp only [if_true, if_false, Bool.false_eq_true, hdiff, hrfe.sip, hrfe.dip,
      vrIncrementalDiff_lt, Nat.two_pow_pos, hdst] <;>
    push_cast <;> ring

theorem nat6Addrs_cast (hrfe : FlowSized 16 rfe) (hlen : 40 ≤ ip.length) :
    ((nat6Addrs fe rfe ip).2 : ZMod 65535) =
      writtenAddrs .v6 fe rfe ip - replacedAddrs .v6 fe ip := by
  have hsrc : (fe.snat && decide (ip6Src ip = fe.feKey.sip)) = srcChanges .v6 fe ip := rfl
  have hdst : ip6Dst (setBytes ip 8 rfe.dip) = ip6Dst ip :=
    slice_setBytes_of_disjoint (Or.inr (by rw [hrfe.dip]))
  have hsrclen : (ip6Src ip).length = 16 := slice_length (by omega)
  have hdstlen : (ip6Dst ip).length = 16 := slice_length hlen
  unfold nat6Addrs writtenAddrs replacedAddrs
  simp only [hsrc]
  change _ = _ - (((if srcChanges .v6 fe ip then wordSum (ip6Src ip) else 0) +
    if fe.dnat then wordSum (ip6Dst ip) else 0 : ℕ) : ZMod 65535)
  cases srcChanges .v6 fe ip <;> cases fe.dnat <;>
    simp only [if_true, if_false, Bool.false_eq_true, addrDiff_cast, hrfe.sip, hrfe.dip, hsrclen,
      hdstlen, addrDiff_lt, Nat.two_pow_pos, hdst] <;>
    push_cast <;> ring

theorem natPorts_cast (fe : NatEntry) (hrfe : FlowSized n rfe) (hinc : inc < 2 ^ 32) (t : ℕ)
    (ip : List Byte) :
    ((natPorts fe rfe t ip inc).2 : ZMod 65535) =
      inc + (writtenPorts fe rfe - replacedPorts fe t ip) := by
  have hdst : le16 (set16 ip t rfe.dport) (t + 2) = le16 ip (t + 2) :=
    (set16_sameOutside ip t rfe.dport).le16 (Or.inr (le_refl _))
  have hdiff : ∀ i w inc : ℕ, w < 2 ^ 16 → inc < 2 ^ 32 →
      (vrIncrementalDiff (le16 ip i) w inc : ZMod 65535) = inc + w - le16 ip i := by
    intro i w inc hw hinc
    have hold := le16_lt ip i
    exact vrIncrementalDiff_cast (by omega) (by omega) hinc
  unfold natPorts writtenPorts replacedPorts
  cases fe.spat <;> cases fe.dpat <;>
    simp only [if_true, if_false, Bool.false_eq_true, hdiff, hrfe.sport, hrfe.dport, hinc,
      vrIncrementalDiff_lt, hdst] <;>
    push_cast <;> ring

/-! ### TCP and UDP -/

/-- The address at an offset has all bits set and is replaced by one that has none. -/
def OnesToZero (v : Version) (ip : List Byte) (pos : ℕ) (new : List Byte) : Prop :=
  ∀ i < addrLen v / 4, le32 ip (pos + 4 * i) = 2 ^ 32 - 1 ∧ le32 new (4 * i) = 0

/-- Translation adds nothing to the checksum.  This is so where nothing of the packet is translated,
and for addresses of which every bit is changed from one to zero. -/
structure AddsNothing (v : Version) (fe : NatEntry) (rfe : VrFlow) (ip : List Byte) : Prop where
  src : srcChanges v fe ip = true → OnesToZero v ip (addrsAt v) rfe.dip
  dst : fe.dnat = true → OnesToZero v ip (addrsAt v + addrLen v) rfe.sip
  spat : fe.spat = false
  dpat : fe.dpat = false

/-- The checksum of UDP does not become zero, which would stand for none. -/
def NotToZero (v : Version) (fe : NatEntry) (rfe : VrFlow) (ip : List Byte) : Prop :=
  AddsNothing v fe rfe ip ∨
    ¬ writtenAddrs v fe rfe ip + writtenPorts fe rfe ≡
      replacedAddrs v fe ip + replacedPorts fe (transportAt v ip) ip + csumField v ip [MOD 65535]

theorem natAddrs_eq_zero (hrfe : FlowSized 4 rfe) (ip : List Byte) :
    (natAddrs fe rfe ip).2 = 0 ↔ (srcChanges .v4 fe ip = true → OnesToZero .v4 ip 12 rfe.dip) ∧
      (fe.dnat = true → OnesToZero .v4 ip 16 rfe.sip) := by
  have hsrc : (fe.snat && decide (ipSaddr ip = fe.feKey.sip)) = srcChanges .v4 fe ip := rfl
  have hdst : le32 (setBytes ip 12 rfe.dip) 16 = le32 ip 16 := by
    have hsame := setBytes_sameOutside ip 12 rfe.dip
    rw [hrfe.dip] at hsame
    rw [le32, le32, hsame.le16 (Or.inr (by decide)), hsame.le16 (Or.inr (by decide))]
  have hones : ∀ (pos : ℕ) (new : List Byte), OnesToZero .v4 ip pos new ↔
      le32 ip pos = 2 ^ 32 - 1 ∧ le32 new 0 = 0 :=
    fun pos new => ⟨fun h => h 0 (by decide), fun h i hi => by
      obtain rfl : i = 0 := by
        change i < 1 at hi
        omega
      exact h⟩
  have hzero : ∀ (b xs : List Byte) (i inc : ℕ), inc < 2 ^ 32 →
      (vrIncrementalDiff (le32 b i) (le32 xs 0) inc = 0 ↔
        inc = 0 ∧ le32 b i = 2 ^ 32 - 1 ∧ le32 xs 0 = 0) :=
    fun b xs i inc hinc => vrIncrementalDiff_eq_zero (le32_lt _ _) (le32_lt _ _) hinc
  unfold natAddrs
  simp only [hsrc, hones]
  cases srcChanges .v4 fe ip <;> cases fe.dnat <;>
    simp only [if_true, if_false, Bool.false_eq_true, hdst, hzero _ _ _ 0 (by decide),
      hzero _ _ _ _ (vrIncrementalDiff_lt _ _ _), true_and, and_true, forall_const,
      IsEmpty.forall_iff]

theorem addrDiff_eq_zero {old new : List Byte} (hinc : inc < 2 ^ 32) :
    addrDiff old new inc = 0 ↔
      inc = 0 ∧ ∀ i < 4, le32 old (4 * i) = 2 ^ 32 - 1 ∧ le32 new (4 * i) = 0 := by
  have hzero : ∀ (i inc : ℕ), inc < 2 ^ 32 → (vrIncrementalDiff (le32 old i) (le32 new i) inc = 0 ↔
      inc = 0 ∧ le32 old i = 2 ^ 32 - 1 ∧ le32 new i = 0) :=
    fun i inc hinc => vrIncrementalDiff_eq_zero (le32_lt _ _) (le32_lt _ _) hinc
  simp only [addrDiff, List.foldl_cons, List.foldl_nil, hzero, vrIncrementalDiff_lt, hinc,
    Nat.forall_lt_succ_right, Nat.not_lt_zero, IsEmpty.forall_iff, forall_const, true_and]
  simp only [and_assoc]

theorem nat6Addrs_eq_zero (hrfe : FlowSized 16 rfe) (ip : List Byte) :
    (nat6Addrs fe rfe ip).2 = 0 ↔ (srcChanges .v6 fe ip = true → OnesToZero .v6 ip 8 rfe.dip) ∧
      (fe.dnat = true → OnesToZero .v6 ip 24 rfe.sip) := by
  have hsrc : (fe.snat && decide (ip6Src ip = fe.feKey.sip)) = srcChanges .v6 fe ip := rfl
  have hdst : ip6Dst (setBytes ip 8 rfe.dip) = ip6Dst ip :=
    slice_setBytes_of_disjoint (Or.inr (by rw [hrfe.dip]))
  have hslice : ∀ (pos i : ℕ), i < 4 → le32 (slice ip pos 16) (4 * i) = le32 ip (pos + 4 * i) := by
    intro pos i hi
    rw [le32, slice, le16_take (by omega), le16_take (by omega), le16_drop, le16_drop, le32]
    rfl
  have hones : ∀ (pos : ℕ) (new : List Byte), OnesToZero .v6 ip pos new ↔
      ∀ i < 4, le32 (slice ip pos 16) (4 * i) = 2 ^ 32 - 1 ∧ le32 new (4 * i) = 0 :=
    fun pos new => forall₂_congr fun i hi => by rw [hslice pos i hi]
  have hzero : ∀ old new : List Byte, ∀ inc < 2 ^ 32, (addrDiff old new inc = 0 ↔
      inc = 0 ∧ ∀ i < 4, le32 old (4 * i) = 2 ^ 32 - 1 ∧ le32 new (4 * i) = 0) :=
    fun _ _ _ hinc => addrDiff_eq_zero hinc
  unfold nat6Addrs
  simp only [hsrc]
  cases hchanges : srcChanges .v6 fe ip <;> cases hdnat : fe.dnat <;>
    simp only [if_true, if_false, Bool.false_eq_true, hdst, hones, hzero _ _ 0 (by decide),
      hzero _ _ _ (addrDiff_lt _ _ _), true_and, and_true, forall_const, IsEmpty.forall_iff]
  · rfl
  · rfl
  · rfl

theorem natPorts_eq_zero (hrfe : FlowSized n rfe) (hinc : inc < 2 ^ 32) (t : ℕ) (ip : List Byte) :
    (natPorts fe rfe t ip inc).2 = 0 ↔ inc = 0 ∧ fe.spat = false ∧ fe.dpat = false := by
  have hne : ∀ (b : List Byte) (i w inc : ℕ), w < 2 ^ 16 → inc < 2 ^ 32 →
      vrIncrementalDiff (le16 b i) w inc ≠ 0 := by
    intro b i w inc hw hinc hzero
    have hold := le16_lt b i
    have := ((vrIncrementalDiff_eq_zero (by omega) (by omega) hinc).mp hzero).2.1
    omega
  unfold natPorts
  cases fe.spat <;> cases fe.dpat <;>
    simp only [if_true, if_false, Bool.false_eq_true, Bool.true_eq_false, and_true, and_false,
      iff_false]
  · exact hne _ _ _ _ hrfe.sport hinc
  · exact hne _ _ _ _ hrfe.dport hinc
  · exact hne _ _ _ _ hrfe.sport (vrIncrementalDiff_lt _ _ _)

/-- The transport checksum is still valid, and UDP has one iff it had one. -/
structure Kept (v : Version) (pkt pkt' : VrPacket) (rest : List Byte) : Prop where
  csumPartial : pkt'.csumPartial = pkt.csumPartial
  checksumOk : ChecksumOk v pkt' rest
  udp : protoOf v pkt.data = vrIpProtoUdp →
    (csumField v pkt'.data = 0 ↔ csumField v pkt.data = 0)

/-- The packet `pkt'` is `pkt` with the checksum updated by a difference, unless it has none. -/
structure Updated (v : Version) (pkt pkt' : VrPacket) (d : ℕ) : Prop where
  csumPartial : pkt'.csumPartial = pkt.csumPartial
  changed : Changed v pkt.data pkt'.data 0 0
  none : protoOf v pkt.data = vrIpProtoUdp → csumField v pkt.data = 0 → csumField v pkt'.data = 0
  added : ¬ (protoOf v pkt.data = vrIpProtoUdp ∧ csumField v pkt.data = 0) →
    Added pkt.csumPartial (csumField v pkt.data) (csumField v pkt'.data) d

/-- TCP or UDP. -/
def HasPorts (v : Version) (ip : List Byte) : Prop :=
  protoOf v ip = vrIpProtoTcp ∨ protoOf v ip = vrIpProtoUdp

theorem HasPorts.csumPos (h : HasPorts v ip) (t : ℕ) :
    csumPos (protoOf v ip) t = some (t + csumOffset (protoOf v ip)) := by
  rcases h with h | h <;> rw [h] <;> rfl

theorem HasPorts.csumOffset (h : HasPorts v ip) : 4 ≤ csumOffset (protoOf v ip) := by
  rcases h with h | h <;> rw [h] <;> decide

theorem HasPorts.of_sameLayout (h : HasPorts v ip) (hl : SameLayout v ip ip') : HasPorts v ip' := by
  rwa [HasPorts, hl.protoOf]

theorem Whole.transportHeaderValid (h : Whole .v4 ip rest) : vrIpTransportHeaderValid ip = true := by
  rw [vrIpTransportHeaderValid, h.version.2.2]
  exact Bool.or_true _

theorem natIcmp_of_hasPorts (h : HasPorts .v4 ip) : natIcmp fe rfe ip = ip := by
  refine if_neg fun hno => ?_
  rcases h with h | h <;> exact absurd (hno.1.symm.trans h) (by decide)

theorem HasPorts.ne_icmp6 (h : HasPorts .v6 ip) : ip6Nxt ip ≠ vrIpProtoIcmp6 := by
  intro hno
  rcases h with h | h <;> exact absurd (hno.symm.trans h) (by decide)

theorem nat6Icmp_of_hasPorts (h : HasPorts .v6 ip) : nat6Icmp fe rfe ip = ip :=
  if_neg fun hno => h.ne_icmp6 hno.1

theorem nat6IcmpCsum_of_hasPorts (h : HasPorts .v6 pkt.data) : nat6IcmpCsum fe pkt = pkt :=
  if_neg fun hno => h.ne_icmp6 hno.1

theorem HasPorts.transportHeaderValid6 (h : HasPorts .v6 ip) :
    vrIp6TransportHeaderValid ip = true := by
  have hnot : ip6Nxt ip ≠ vrIp6ProtoFrag := by
    change protoOf .v6 ip ≠ vrIp6ProtoFrag
    rcases h with h | h <;> rw [h] <;> decide
  rw [vrIp6TransportHeaderValid, decide_eq_true hnot]
  exact Bool.true_or _

/-- What the two updates have in common. -/
theorem updated_of_csum {f' : ℕ} (h : Whole v ip rest) (hbefore : Changed v pkt.data ip 0 0)
    (hfield : csumField v ip = csumField v pkt.data)
    (hadded : Added pkt.csumPartial (csumField v pkt.data) f' d) :
    Updated v pkt
      { pkt with data :=
          if protoOf v ip = vrIpProtoUdp ∧ csumField v ip = 0 then ip
          else set16 ip (transportAt v ip + csumOffset (protoOf v ip)) f' } d := by
  have hproto := hbefore.layout.protoOf
  have hset := changed_of_csum h hadded.lt
  by_cases hnone : protoOf v pkt.data = vrIpProtoUdp ∧ csumField v pkt.data = 0
  · rw [if_pos (by rwa [hproto, hfield])]
    exact ⟨rfl, hbefore, fun _ _ => hfield.trans hnone.2, fun h => absurd hnone h⟩
  · rw [if_neg (by rwa [hproto, hfield])]
    refine ⟨rfl, ?_, fun h h' => absurd ⟨h, h'⟩ hnone, fun _ => hset.2.symm ▸ hadded⟩
    have htrans := hbefore.trans hset.1
    rwa [add_zero] at htrans

theorem vrIpUpdateCsum_updated (pkt : VrPacket) (h : Whole .v4 pkt.data rest)
    (hports : HasPorts .v4 pkt.data) (hipInc : ipInc < 2 ^ 32) (hinc : inc < 2 ^ 32) :
    Updated .v4 pkt (vrIpUpdateCsum pkt ipInc inc) (if pkt.csumPartial then ipInc else inc) := by
  unfold vrIpUpdateCsum
  dsimp only
  set ip := if ipInc ≠ 0 then vrIpIncrementalCsum pkt.data ipInc else pkt.data
  have hsame : SameOutside 10 12 pkt.data ip :=
    SameOutside.ite (fun _ => set16_sameOutside _ _ _) fun _ => .refl _ _ _
  have hle := h.addrs_le
  have hfixed : fixedLen .v4 ≤ 10 := le_refl _
  have hchanged : Changed .v4 pkt.data ip 0 0 := by
    refine changed_of_before hsame hfixed (le_trans (by decide) hle) ?_
    rw [hsame.slice (Or.inr (by decide)), add_zero]
  have hfield := csumField_of_before (v := .v4) hsame hfixed (le_trans (by decide) hle)
  have hwhole := h.of_sameLayout hchanged.layout
  have hpos : csumPos (ipProto ip) (ipHl ip * 4) = some _ :=
    (hports.of_sameLayout hchanged.layout).csumPos (ipHl ip * 4)
  have hadded := added_addCarry (d := if pkt.csumPartial then ipInc else inc) pkt.csumPartial
    (csumField_lt .v4 pkt.data) (by split_ifs <;> assumption)
  have hupdated := updated_of_csum hwhole hchanged hfield hadded
  rw [← hfield] at hupdated
  rw [hpos]
  simp only [hwhole.transportHeaderValid, if_true]
  exact hupdated

theorem vrIp6UpdateCsum_updated (pkt : VrPacket) {portInc : ℕ} (h : Whole .v6 pkt.data rest)
    (hports : HasPorts .v6 pkt.data) (hipInc : ipInc < 2 ^ 32) (hportInc : portInc < 2 ^ 32) :
    Updated .v6 pkt (vrIp6UpdateCsum pkt ipInc portInc) (fold16 ipInc + fold16 portInc) := by
  have hpos : csumPos (ip6Nxt pkt.data) ip6HdrSize = some _ := hports.csumPos ip6HdrSize
  have hip := fold16_lt hipInc
  have hport := fold16_lt hportInc
  have hadded := added_add (d := fold16 ipInc + fold16 portInc) pkt.csumPartial
    (csumField_lt .v6 pkt.data) (by omega)
  have hrefl : Changed .v6 pkt.data pkt.data 0 0 :=
    ⟨.refl _ _, (add_zero _).symm, by ring⟩
  have hupdated := updated_of_csum h hrefl rfl hadded
  unfold vrIp6UpdateCsum
  dsimp only
  rw [hpos]
  simp only [hports.transportHeaderValid6, if_true]
  exact hupdated

/-! ### Addresses and ports -/

theorem natPorts_lt (fe : NatEntry) (rfe : VrFlow) (t : ℕ) (ip : List Byte) (hinc : inc < 2 ^ 32) :
    (natPorts fe rfe t ip inc).2 < 2 ^ 32 := by
  unfold natPorts
  dsimp only
  split_ifs <;> first | exact vrIncrementalDiff_lt _ _ _ | exact hinc

theorem replacedPorts_of_before (hsame : SameOutside lo hi ip ip') {t : ℕ} (hhi : hi ≤ t)
    (fe : NatEntry) : replacedPorts fe t ip' = replacedPorts fe t ip := by
  rw [replacedPorts, replacedPorts, hsame.le16 (Or.inr hhi), hsame.le16 (Or.inr (by omega))]

/-- The packet `ip'` is `ip` with addresses and ports translated, before the checksums are
updated. -/
structure Translated (v : Version) (fe : NatEntry) (rfe : VrFlow) (ip ip' rest : List Byte)
    (a s : ZMod 65535) : Prop where
  whole : Whole v ip' rest
  hasPorts : HasPorts v ip'
  changed : Changed v ip ip' a s
  field : csumField v ip' = csumField v ip
  addrs : a = writtenAddrs v fe rfe ip - replacedAddrs v fe ip
  ports : s = writtenPorts fe rfe - replacedPorts fe (transportAt v ip) ip

/-- The two steps of a translation, with the difference of the ports added to any number. -/
theorem translated_of_rewrites {inc₁ : ℕ} {ip₁ : List Byte} (hrfe : FlowSized n rfe)
    (hwhole : Whole v ip rest) (hports : HasPorts v ip)
    (haddrs : Rewrites (addrsAt v) (addrsAt v + 2 * addrLen v) ip ip₁ 0 inc₁)
    (hcast : (inc₁ : ZMod 65535) = writtenAddrs v fe rfe ip - replacedAddrs v fe ip)
    (hinc : inc < 2 ^ 32) :
    Translated v fe rfe ip (natPorts fe rfe (transportAt v ip₁) ip₁ inc).1 rest inc₁
      ((natPorts fe rfe (transportAt v ip₁) ip₁ inc).2 - inc) := by
  have hle := hwhole.addrs_le
  have hchanged := changed_of_addrs hwhole haddrs
  have hfield := csumField_of_before haddrs.same (fixedLen_le v) hle
  have hwhole₁ := hwhole.of_sameLayout hchanged.layout
  have hports₁ := hports.of_sameLayout hchanged.layout
  have hlength := hwhole₁.length
  have hheader := hwhole₁.header
  have hoffset := csumOffset_lt (protoOf v ip₁)
  have hfour := hports₁.csumOffset
  have hrewrites : Rewrites (transportAt v ip₁) (transportAt v ip₁ + 4) ip₁
      (natPorts fe rfe (transportAt v ip₁) ip₁ inc).1 inc
      (natPorts fe rfe (transportAt v ip₁) ip₁ inc).2 := natPorts_rewrites hrfe (by omega)
  have hcast' := natPorts_cast fe hrfe hinc (transportAt v ip₁) ip₁
  have hchanged' := changed_of_ports hwhole₁ hrewrites hinc hports₁.csumOffset
  have hfield' := csumField_of_ports hwhole₁ hrewrites.same hports₁.csumOffset
  have htrans := hchanged.trans hchanged'
  rw [add_zero, zero_add] at htrans
  refine ⟨hwhole₁.of_sameLayout hchanged'.layout, hports₁.of_sameLayout hchanged'.layout, htrans,
    hfield'.trans hfield, hcast, ?_⟩
  rw [hcast', hchanged.layout.transportAt, replacedPorts_of_before haddrs.same hle]
  ring

/-- **Translation of TCP and UDP**: from the packet with the new addresses and ports, by an update
with a difference.  The difference must be what has changed, and must not make a checksum of UDP
zero. -/
theorem kept_iff_of_updated {pkt' : VrPacket} {ip₁ : List Byte} (hports : HasPorts v pkt.data)
    (hok : ChecksumOk v pkt rest) (htranslated : Translated v fe rfe pkt.data ip₁ rest a s)
    (hupdated : Updated v { pkt with data := ip₁ } pkt' d) :
    Kept v pkt pkt' rest ↔ (protoOf v pkt.data = vrIpProtoUdp ∧ csumField v pkt.data = 0) ∨
      (d : ZMod 65535) = (if pkt.csumPartial then a else a + s) ∧
        (protoOf v pkt.data = vrIpProtoUdp → pkt.csumPartial = false →
          d = 0 ∨ (csumField v pkt.data : ZMod 65535) ≠ d) := by
  have hproto : protoOf v pkt.data ≠ 0 ∧ protoOf v pkt.data ≠ vrIpProtoIcmp := by
    rcases hports with h | h <;> rw [h] <;> decide
  have hchanged := htranslated.changed.trans hupdated.changed
  rw [add_zero, add_zero] at hchanged
  have hflag : pkt'.csumPartial = pkt.csumPartial := hupdated.csumPartial
  have hnone := hupdated.none
  have hadd := hupdated.added
  dsimp only at hnone hadd
  rw [htranslated.changed.layout.protoOf, htranslated.field] at hnone hadd
  by_cases hcsum : protoOf v pkt.data = vrIpProtoUdp ∧ csumField v pkt.data = 0
  · have hzero := hnone hcsum.1 hcsum.2
    refine iff_of_true ⟨hflag, ?_, fun _ => iff_of_true hzero hcsum.2⟩ (.inl hcsum)
    rw [ChecksumOk, hchanged.layout.protoOf, if_pos ⟨hcsum.1, hzero⟩]
    trivial
  · have hadded := hadd hcsum
    have hpos : protoOf v pkt.data = vrIpProtoUdp → 0 < csumField v pkt.data :=
      fun hudp => Nat.pos_of_ne_zero fun h => hcsum ⟨hudp, h⟩
    have hvalid := checksumOk_iff_of_added hproto.1 hproto.2 hok hflag hchanged hadded hcsum
    rw [or_iff_right hcsum]
    constructor
    · intro hkept
      have hcsum' : ¬ (protoOf v pkt.data = vrIpProtoUdp ∧ csumField v pkt'.data = 0) :=
        fun h => hcsum ⟨h.1, (hkept.udp h.1).mp h.2⟩
      refine ⟨(hvalid hcsum').mp hkept.checksumOk, fun hudp hfull => ?_⟩
      have hne := mt (hadded.zero hfull (hpos hudp)).mpr fun h => hcsum' ⟨hudp, h⟩
      tauto
    · rintro ⟨hd, hnot⟩
      have hcsum' : protoOf v pkt.data = vrIpProtoUdp → csumField v pkt'.data ≠ 0 := by
        intro hudp
        cases hpart : pkt.csumPartial with
        | true => exact (hadded.pos hpart (hpos hudp)).ne'
        | false =>
          rw [ne_eq, hadded.zero hpart (hpos hudp)]
          have hnot' := hnot hudp hpart
          tauto
      exact ⟨hflag, (hvalid fun h => hcsum' h.1 h.2).mpr hd,
        fun hudp => iff_of_false (hcsum' hudp) (hpos hudp).ne'⟩

/-- A packet whose checksum is left alone is one whose checksum is updated by nothing. -/
theorem updated_self (v : Version) (pkt : VrPacket) : Updated v pkt pkt 0 where
  csumPartial := rfl
  changed := ⟨.refl _ _, (add_zero _).symm, by ring⟩
  none := fun _ h => h
  added := fun _ => ⟨csumField_lt v pkt.data, by simp, fun _ h => h, fun _ h => by
    simp [h.ne']⟩

/-! ### The two functions -/

/-- **The packets of TCP and UDP whose checksum stays valid.**  The checksum of a diagnostic packet
is not updated; a partial one of IPv6 is updated also by the ports; and one of UDP may become zero. -/
def PortsSafe (v : Version) (fe : NatEntry) (rfe : VrFlow) (pkt : VrPacket) : Prop :=
  (protoOf v pkt.data = vrIpProtoUdp ∧ csumField v pkt.data = 0) ∨
    if pkt.diag then
      if pkt.csumPartial then
        writtenAddrs v fe rfe pkt.data ≡ replacedAddrs v fe pkt.data [MOD 65535]
      else
        writtenAddrs v fe rfe pkt.data + writtenPorts fe rfe ≡ replacedAddrs v fe pkt.data +
          replacedPorts fe (transportAt v pkt.data) pkt.data [MOD 65535]
    else
      (v = .v6 → pkt.csumPartial = true →
        writtenPorts fe rfe ≡ replacedPorts fe (transportAt v pkt.data) pkt.data [MOD 65535]) ∧
      (protoOf v pkt.data = vrIpProtoUdp → pkt.csumPartial = false →
        NotToZero v fe rfe pkt.data)

theorem kept_iff_of_diag {ip₁ : List Byte} (hports : HasPorts v pkt.data)
    (hok : ChecksumOk v pkt rest) (htranslated : Translated v fe rfe pkt.data ip₁ rest a s)
    (hdiag : pkt.diag = true) :
    Kept v pkt { pkt with data := ip₁ } rest ↔ PortsSafe v fe rfe pkt := by
  rw [kept_iff_of_updated hports hok htranslated (updated_self v _), PortsSafe, if_pos hdiag,
    htranslated.addrs, htranslated.ports]
  refine or_congr_right ?_
  have htriv : protoOf v pkt.data = vrIpProtoUdp → pkt.csumPartial = false →
      0 = 0 ∨ (csumField v pkt.data : ZMod 65535) ≠ (0 : ℕ) := fun _ _ => .inl rfl
  rw [and_iff_left htriv, Nat.cast_zero]
  cases pkt.csumPartial with
  | true =>
    simp only [if_true]
    rw [← ZMod.natCast_eq_natCast_iff, eq_comm, sub_eq_zero]
  | false =>
    simp only [Bool.false_eq_true, if_false]
    rw [← ZMod.natCast_eq_natCast_iff, eq_comm, ← sub_eq_zero (b := ((_ : ℕ) : ZMod 65535))]
    push_cast
    rw [add_sub_add_comm]

/-- The checksum becomes zero where the difference is the checksum. -/
theorem notToZero_iff (hd : (d : ZMod 65535) = (writtenAddrs v fe rfe ip - replacedAddrs v fe ip) +
      (writtenPorts fe rfe - replacedPorts fe (transportAt v ip) ip))
    (hzero : d = 0 ↔ AddsNothing v fe rfe ip) :
    d = 0 ∨ (csumField v ip : ZMod 65535) ≠ d ↔ NotToZero v fe rfe ip := by
  rw [NotToZero, hzero, ← ZMod.natCast_eq_natCast_iff, hd]
  refine or_congr_right (not_congr ?_)
  push_cast
  constructor
  · intro h
    linear_combination -h
  · intro h
    linear_combination -h

theorem vrInetFlowNat_kept_iff (hrfe : FlowSized 4 rfe) (hwhole : Whole .v4 pkt.data rest)
    (hports : HasPorts .v4 pkt.data) (hok : ChecksumOk .v4 pkt rest) :
    ∃ pkt', vrInetFlowNat fe (some rfe) pkt = some pkt' ∧
      (Kept .v4 pkt pkt' rest ↔ PortsSafe .v4 fe rfe pkt) := by
  have hle : 20 ≤ transportAt .v4 pkt.data := hwhole.addrs_le
  have hlen := hwhole.length
  set addrs := natAddrs fe rfe pkt.data with haddrs
  have hrewrites : Rewrites 12 20 pkt.data addrs.1 0 addrs.2 := natAddrs_rewrites hrfe (by omega)
  have hlt := hrewrites.lt (by decide)
  have htranslated := translated_of_rewrites (v := .v4) hrfe hwhole hports hrewrites
    (natAddrs_cast hrfe pkt.data) hlt
  set ports := natPorts fe rfe (transportAt .v4 addrs.1) addrs.1 addrs.2 with hports_def
  have hlt' : ports.2 < 2 ^ 32 := natPorts_lt fe rfe _ _ hlt
  have hnat : vrInetFlowNat fe (some rfe) pkt = some (if pkt.diag then { pkt with data := ports.1 }
      else vrIpUpdateCsum { pkt with data := ports.1 } addrs.2 ports.2) := by
    have hwhole₁ := hwhole.of_sameLayout (changed_of_addrs (v := .v4) hwhole hrewrites).layout
    have htransport : natTransport fe rfe addrs.1 addrs.2 = ports :=
      if_pos hwhole₁.transportHeaderValid
    rw [vrInetFlowNat_some, natIcmp_of_hasPorts hports]
    dsimp only
    rw [← haddrs, htransport]
  refine ⟨_, hnat, ?_⟩
  by_cases hdiag : pkt.diag = true
  · rw [if_pos hdiag]
    exact kept_iff_of_diag hports hok htranslated hdiag
  · have hupdated := vrIpUpdateCsum_updated { pkt with data := ports.1 } htranslated.whole
      htranslated.hasPorts hlt hlt'
    rw [if_neg hdiag, kept_iff_of_updated hports hok htranslated hupdated, PortsSafe, if_neg hdiag]
    refine or_congr_right (and_congr ?_ ?_)
    · refine iff_of_true ?_ (fun h => absurd h (by decide))
      cases pkt.csumPartial with
      | true => rfl
      | false =>
        simp only [Bool.false_eq_true, if_false]
        ring
    · refine forall₂_congr fun _ hfull => ?_
      rw [hfull]
      refine notToZero_iff ?_ ?_
      · rw [← htranslated.addrs, ← htranslated.ports]
        simp only [Bool.false_eq_true, if_false]
        ring
      · simp only [Bool.false_eq_true, if_false]
        rw [hports_def, natPorts_eq_zero hrfe hlt, haddrs, natAddrs_eq_zero hrfe]
        exact ⟨fun h => ⟨h.1.1, h.1.2, h.2.1, h.2.2⟩,
          fun h => ⟨⟨h.src, h.dst⟩, h.spat, h.dpat⟩⟩

theorem vrInet6FlowNat_kept_iff (hrfe : FlowSized 16 rfe) (hwhole : Whole .v6 pkt.data rest)
    (hports : HasPorts .v6 pkt.data) (hok : ChecksumOk .v6 pkt rest) :
    ∃ pkt', vrInet6FlowNat fe (some rfe) pkt = some pkt' ∧
      (Kept .v6 pkt pkt' rest ↔ PortsSafe .v6 fe rfe pkt) := by
  have hle : 40 ≤ transportAt .v6 pkt.data := hwhole.addrs_le
  have hlen := hwhole.length
  set addrs := nat6Addrs fe rfe pkt.data with haddrs
  have hrewrites : Rewrites 8 40 pkt.data addrs.1 0 addrs.2 := nat6Addrs_rewrites hrfe (by omega)
  have hlt := hrewrites.lt (by decide)
  have htranslated := translated_of_rewrites (v := .v6) hrfe hwhole hports hrewrites
    (nat6Addrs_cast hrfe (by omega)) (by decide : 0 < 2 ^ 32)
  set ports := natPorts fe rfe (transportAt .v6 addrs.1) addrs.1 0 with hports_def
  have hlt' : ports.2 < 2 ^ 32 := natPorts_lt fe rfe _ _ (by decide)
  have hupdated := vrIp6UpdateCsum_updated { pkt with data := ports.1 } htranslated.whole
    htranslated.hasPorts hlt hlt'
  have hnat : vrInet6FlowNat fe (some rfe) pkt = some (if pkt.diag then { pkt with data := ports.1 }
      else vrIp6UpdateCsum { pkt with data := ports.1 } addrs.2 ports.2) := by
    have hports₁ := hports.of_sameLayout (changed_of_addrs (v := .v6) hwhole hrewrites).layout
    have htransport : nat6Transport fe rfe addrs.1 = ports := if_pos hports₁.transportHeaderValid6
    have hports₂ := htranslated.hasPorts.of_sameLayout hupdated.changed.layout
    rw [vrInet6FlowNat_some, nat6Icmp_of_hasPorts hports]
    dsimp only
    rw [← haddrs, htransport, nat6IcmpCsum_of_hasPorts]
    split_ifs
    · exact htranslated.hasPorts
    · exact hports₂
  refine ⟨_, hnat, ?_⟩
  by_cases hdiag : pkt.diag = true
  · rw [if_pos hdiag]
    exact kept_iff_of_diag hports hok htranslated hdiag
  · rw [if_neg hdiag, kept_iff_of_updated hports hok htranslated hupdated, PortsSafe, if_neg hdiag,
      Nat.cast_add, fold16_cast hlt, fold16_cast hlt']
    refine or_congr_right (and_congr ?_ ?_)
    · cases hpart : pkt.csumPartial with
      | true =>
        simp only [if_true, forall_const, ← ZMod.natCast_eq_natCast_iff]
        have hcast := htranslated.ports
        rw [Nat.cast_zero, sub_zero] at hcast
        rw [add_eq_left, hcast, sub_eq_zero]
      | false =>
        refine iff_of_true ?_ (fun _ h => absurd h (by decide))
        simp only [Bool.false_eq_true, if_false]
        ring
    · refine forall₂_congr fun _ _ => ?_
      have hcast : ((fold16 addrs.2 + fold16 ports.2 : ℕ) : ZMod 65535) = addrs.2 + ports.2 := by
        rw [Nat.cast_add, fold16_cast hlt, fold16_cast hlt']
      rw [← hcast]
      refine notToZero_iff ?_ ?_
      · rw [← htranslated.addrs, ← htranslated.ports, hcast]
        ring
      · rw [Nat.add_eq_zero_iff, fold16_eq_zero, fold16_eq_zero, hports_def,
          natPorts_eq_zero hrfe (by decide), haddrs, nat6Addrs_eq_zero hrfe]
        exact ⟨fun h => ⟨h.1.1, h.1.2, h.2.2.1, h.2.2.2⟩,
          fun h => ⟨⟨h.src, h.dst⟩, rfl, h.spat, h.dpat⟩⟩

end Vrouter.FlowNat
