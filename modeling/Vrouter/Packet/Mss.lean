import Vrouter.Lib.Checked
import Vrouter.Packet.Checksum
import Mathlib.Logic.Relation

/-! # Clamping of the maximum segment size

A SYN that goes into a tunnel must not promise segments that do not fit the device any more once the
headers of the tunnel are in front of them.  `dpdkAdjustTcpMss` and `vrAdjustTcpMssTo`
(`__vr_adjust_tcp_mss`) search the options of the TCP header for the maximum segment size (`mssOption`)
and lower it to what the MTU leaves; the first one also patches the checksum of the segment.

What the search finds is said without it: options start where one leads from the first to the next
(`nextOption`), and `MssAt` is the first of them that is a maximum segment size of the right length
(`mssOption_succeeds`).  Every access is checked against the bytes that are there, and the rounds of the
loop are counted, so a result means that the loop ended and stayed inside of the header.

The checksum is patched with words in network order, as if the value stood at an even offset.  There
the sum over the segment is what it was (`clampMss_sum`); at an odd offset it is not. -/

namespace Vrouter.Mss

open Vrouter.Lib Vrouter.Packet

/-! ### The search for the option -/

/-- `VR_TCP_OPT_EOL` -/
def tcpOptEol : ℕ := 0

/-- `VR_TCP_OPT_NOP` -/
def tcpOptNop : ℕ := 1

/-- `VR_TCP_OPT_MSS` -/
def tcpOptMss : ℕ := 2

/-- `VR_TCP_OLEN_MSS` -/
def tcpOlenMss : ℕ := 4

/-- `sizeof(struct vr_tcp)` -/
def tcpSize : ℕ := 20

/-- `tcp_doff * 4` -/
def doff4 (b : List Byte) : ℕ := u8 b 12 / 16 * 4

/-- `tcp_flag_syn` -/
def Syn (b : List Byte) : Prop := u8 b 13 / 2 % 2 = 1

instance (b : List Byte) : Decidable (Syn b) := inferInstanceAs (Decidable (_ = _))

/-- The loop of both functions, up to the option that it is looking for. -/
def mssOption (b : List Byte) (hlen : ℕ) : ℕ → ℕ → Checked Empty (Option ℕ)
  | 0, _ => .error .rounds
  | rounds + 1, off =>
    if off < hlen then do
      let kind ← readU8 b off
      if kind = tcpOptEol then return none
      else if kind = tcpOptNop then mssOption b hlen rounds (off + 1)
      else if kind = tcpOptMss then
        if hlen < off + tcpOlenMss then return none
        else do
          let len ← readU8 b (off + 1)
          if len ≠ tcpOlenMss then return none else return some off
      else if off + 1 = hlen then return none
      else do
        let len ← readU8 b (off + 1)
        if len ≠ 0 then mssOption b hlen rounds (off + len)
        else mssOption b hlen rounds (off + 1)
    else return none

/-- Rounds that are enough for every header. -/
def maxRounds : ℕ := 64

/-- `tcph->syn`, then `tcph->doff * 4`, then the search. -/
def findMss (b : List Byte) : Checked Empty (Option ℕ) := do
  let flags ← readU8 b 13
  if flags / 2 % 2 = 0 then return none
  let doff ← readU8 b 12
  mssOption b (doff / 16 * 4) maxRounds tcpSize

/-! ### The two functions -/

/-- `max_mss`: a difference of words of sixty-four bits, cut to sixteen. -/
def maxMss (mtu overhead : ℕ) : ℕ := (mtu + 2 ^ 64 - overhead) % 2 ^ 64 % 2 ^ 16

def pktMss (b : List Byte) (off : ℕ) : Checked Empty ℕ := do
  let high ← readU8 b (off + 2)
  let low ← readU8 b (off + 3)
  return 256 * high + low

def writeMss (b : List Byte) (off mss : ℕ) : Checked Empty (List Byte) := do
  let b ← writeU8 b (off + 2) (mss / 256)
  writeU8 b (off + 3) mss

/-- `(csum & 0xffff) + (csum >> 16)` -/
def foldOnce (csum : ℕ) : ℕ := csum % 2 ^ 16 + csum / 2 ^ 16

/-- The new checksum, from the one in network order. -/
def patchedCsum (check pktMss maxMss : ℕ) : ℕ :=
  not16 (foldOnce (foldOnce (not16 check + not16 pktMss) + maxMss))

def writeCsum (b : List Byte) (pktMss maxMss : ℕ) : Checked Empty (List Byte) := do
  let check ← readLe16 b 16
  let b ← writeU8 b 16 (patchedCsum (swap16 check) pktMss maxMss / 256)
  writeU8 b 17 (patchedCsum (swap16 check) pktMss maxMss)

/-- `dpdk_adjust_tcp_mss`; the MTU is that of the first physical interface, if there is one. -/
def dpdkAdjustTcpMss (mtu : Option UInt16) (b : List Byte) (overlayLen : UInt16) (iphLen : UInt8) :
    Checked Empty (List Byte) :=
  match mtu with
  | none => return b
  | some mtu => do
    match ← findMss b with
    | none => return b
    | some off =>
      let pkt ← pktMss b off
      let max := maxMss mtu.toNat (overlayLen.toNat + iphLen.toNat + tcpSize)
      if max < pkt then do
        let b ← writeMss b off max
        writeCsum b pkt max
      else return b

/-- `__vr_adjust_tcp_mss`: the bytes, and the old and the new value if it was changed. -/
def vrAdjustTcpMssTo (ethMtu : UInt16) (b : List Byte) (lenOverhead : UInt16) :
    Checked Empty (List Byte × Option (ℕ × ℕ)) := do
  match ← findMss b with
  | none => return (b, none)
  | some off =>
    let pkt ← pktMss b off
    let max := maxMss ethMtu.toNat (lenOverhead.toNat + tcpSize)
    if max < pkt then do
      let b ← writeMss b off max
      return (b, some (pkt, max))
    else return (b, none)

/-! ### Where options are -/

/-- Where the option after the one at an offset starts; there is none behind the end of the list or
behind a maximum segment size. -/
def nextOption (b : List Byte) (hlen off : ℕ) : Option ℕ :=
  if hlen ≤ off ∨ u8 b off = tcpOptEol ∨ u8 b off = tcpOptMss then none
  else if u8 b off = tcpOptNop then some (off + 1)
  else if off + 1 < hlen ∧ u8 b (off + 1) ≠ 0 then some (off + u8 b (off + 1))
  else none

/-- One comes from the option at an offset to the one at another. -/
def Leads (b : List Byte) (hlen : ℕ) : ℕ → ℕ → Prop :=
  Relation.ReflTransGen fun off off' => nextOption b hlen off = some off'

/-- A maximum segment size of the right length is at the offset. -/
def IsMss (b : List Byte) (hlen off : ℕ) : Prop :=
  off + tcpOlenMss ≤ hlen ∧ u8 b off = tcpOptMss ∧ u8 b (off + 1) = tcpOlenMss

/-- The first maximum segment size among the options is at the offset. -/
def MssAt (b : List Byte) (off : ℕ) : Prop := Leads b (doff4 b) tcpSize off ∧ IsMss b (doff4 b) off

variable {b : List Byte} {hlen off n pkt : ℕ}

theorem leads_of_none (h : nextOption b hlen off = none) {o : ℕ} : Leads b hlen off o ↔ o = off := by
  constructor
  · intro hlead
    obtain rfl | ⟨m, hm, -⟩ := hlead.cases_head
    · rfl
    · rw [h] at hm
      cases hm
  · rintro rfl
    exact .refl

/-- An option that is no maximum segment size is passed. -/
theorem leads_mss_of_some {m : ℕ} (h : nextOption b hlen off = some m) {o : ℕ} :
    Leads b hlen off o ∧ IsMss b hlen o ↔ Leads b hlen m o ∧ IsMss b hlen o := by
  refine and_congr_left fun hmss => ⟨fun hlead => ?_, fun hlead => hlead.head h⟩
  obtain rfl | ⟨m', hm', hlead'⟩ := hlead.cases_head
  · have hnone : nextOption b hlen off = none := if_pos (.inr (.inr hmss.2.1))
    rw [h] at hnone
    cases hnone
  · rw [h] at hm'
    cases hm'
    exact hlead'

/-- Nothing is found behind an option without a next one that is no maximum segment size itself. -/
theorem not_found (h : nextOption b hlen off = none) (hno : ¬ IsMss b hlen off) (o : ℕ) :
    (none : Option ℕ) = some o ↔ Leads b hlen off o ∧ IsMss b hlen o := by
  refine iff_of_false nofun ?_
  rintro ⟨hlead, hmss⟩
  obtain rfl := (leads_of_none h).mp hlead
  exact hno hmss

theorem not_found_eol (heol : u8 b off = tcpOptEol) (o : ℕ) :
    (none : Option ℕ) = some o ↔ Leads b hlen off o ∧ IsMss b hlen o := by
  refine not_found (if_pos (.inr (.inl heol))) (fun hmss => ?_) o
  exact absurd (heol.symm.trans hmss.2.1) (by decide)

theorem nextOption_nop (hoff : off < hlen) (hnop : u8 b off = tcpOptNop) :
    nextOption b hlen off = some (off + 1) := by
  have hno : ¬ (hlen ≤ off ∨ u8 b off = tcpOptEol ∨ u8 b off = tcpOptMss) := by
    rw [hnop]
    rintro (h | h | h)
    · omega
    · exact absurd h (by decide)
    · exact absurd h (by decide)
  rw [nextOption, if_neg hno, if_pos hnop]

theorem nextOption_other (hoff : off < hlen) (heol : u8 b off ≠ tcpOptEol)
    (hnop : u8 b off ≠ tcpOptNop) (hkind : u8 b off ≠ tcpOptMss) : nextOption b hlen off =
      if off + 1 < hlen ∧ u8 b (off + 1) ≠ 0 then some (off + u8 b (off + 1)) else none := by
  have hno : ¬ (hlen ≤ off ∨ u8 b off = tcpOptEol ∨ u8 b off = tcpOptMss) := by
    rintro (h | h | h)
    · omega
    · exact heol h
    · exact hkind h
  rw [nextOption, if_neg hno, if_neg hnop]

/-- **The search** ends, stays inside of the header, and finds the first maximum segment size. -/
theorem mssOption_succeeds (hb : hlen ≤ b.length) : ∀ (rounds off : ℕ), 0 < rounds →
    hlen < rounds + off → Succeeds (mssOption b hlen rounds off)
      (fun r => ∀ o, r = some o ↔ Leads b hlen off o ∧ IsMss b hlen o)
  | 0, _, h0, _ => absurd h0 (lt_irrefl 0)
  | rounds + 1, off, _, hr => by
    rw [mssOption]
    refine Succeeds.ite (fun hoff => ?_) fun hoff => ?_
    · refine (Succeeds.readU8 (by omega)).bind ?_
      rintro _ rfl
      refine Succeeds.ite (fun heol => ?_) fun heol => Succeeds.ite (fun hnop => ?_) fun hnop =>
        Succeeds.ite (fun hkind => ?_) fun hkind => Succeeds.ite (fun hend => ?_) fun hend => ?_
      · exact Succeeds.pure (not_found_eol heol)
      · have hnext := nextOption_nop hoff hnop
        obtain ⟨r, hr', hspec⟩ := mssOption_succeeds hb rounds (off + 1) (by omega) (by omega)
        exact ⟨r, hr', fun o => (hspec o).trans (leads_mss_of_some hnext).symm⟩
      · have hnone : nextOption b hlen off = none := if_pos (.inr (.inr hkind))
        refine Succeeds.ite (fun hshort => ?_) fun hshort => ?_
        · refine Succeeds.pure (not_found hnone fun hmss => ?_)
          have := hmss.1
          omega
        · have hfour : tcpOlenMss = 4 := rfl
          refine (Succeeds.readU8 (by omega)).bind ?_
          rintro _ rfl
          refine Succeeds.ite (fun hlen' => ?_) fun hlen' => ?_
          · exact Succeeds.pure (not_found hnone fun hmss => hlen' hmss.2.2)
          · refine Succeeds.pure fun o => ?_
            rw [leads_of_none hnone, Option.some.injEq]
            constructor
            · rintro rfl
              exact ⟨rfl, by omega, hkind, not_not.mp hlen'⟩
            · exact fun h => h.1.symm
      · refine Succeeds.pure (not_found ?_ fun hmss => hkind hmss.2.1)
        rw [nextOption_other hoff heol hnop hkind, if_neg (by omega)]
      · have hstart := nextOption_other hoff heol hnop hkind
        refine (Succeeds.readU8 (by omega)).bind ?_
        rintro _ rfl
        refine Succeeds.ite (fun hpos => ?_) fun hzero => ?_
        · rw [if_pos ⟨by omega, hpos⟩] at hstart
          obtain ⟨r, hr', hspec⟩ :=
            mssOption_succeeds hb rounds (off + u8 b (off + 1)) (by omega) (by omega)
          exact ⟨r, hr', fun o => (hspec o).trans (leads_mss_of_some hstart).symm⟩
        · -- The length of zero is read as the end of the list in the next round.
          rw [if_neg fun h => hzero h.2] at hstart
          obtain ⟨r, hr', hspec⟩ := mssOption_succeeds hb rounds (off + 1) (by omega) (by omega)
          refine ⟨r, hr', fun o => (hspec o).trans ?_⟩
          have heol' : u8 b (off + 1) = tcpOptEol := not_not.mp hzero
          exact (not_found_eol heol' o).symm.trans
            (not_found hstart (fun hmss => hkind hmss.2.1) o)
    · refine Succeeds.pure (not_found (if_pos (.inl (by omega))) fun hmss => ?_)
      have hfour : tcpOlenMss = 4 := rfl
      have hin := hmss.1
      omega

theorem readU8_take {i : ℕ} (hi : i < n) (hib : i < b.length) :
    (readU8 (b.take n) i : Checked Empty ℕ) = readU8 b i := by
  rw [readU8, readU8, List.length_take, u8_take hi, if_pos (by omega), if_pos (by omega)]

theorem mssOption_take (hb : hlen ≤ b.length) (hn : hlen ≤ n) : ∀ (rounds off : ℕ),
    mssOption (b.take n) hlen rounds off = mssOption b hlen rounds off
  | 0, _ => rfl
  | rounds + 1, off => by
    have hread : ∀ i < hlen, (readU8 (b.take n) i : Checked Empty ℕ) = readU8 b i :=
      fun i hi => readU8_take (by omega) (by omega)
    rw [mssOption, mssOption]
    by_cases hoff : off < hlen
    · rw [if_pos hoff, if_pos hoff, hread off hoff]
      simp only [mssOption_take hb hn rounds]
      refine congrArg _ (funext fun kind => ?_)
      by_cases hmss : hlen < off + tcpOlenMss
      · simp only [hmss, if_true]
        by_cases hend : off + 1 = hlen
        · simp only [hend, if_true]
        · rw [hread (off + 1) (by omega)]
      · have hfour : tcpOlenMss = 4 := rfl
        rw [hread (off + 1) (by omega)]
    · rw [if_neg hoff, if_neg hoff]

/-! ### What is written -/

/-- The bytes of the TCP header. -/
def headerLen (b : List Byte) : ℕ := max tcpSize (doff4 b)

theorem findMss_succeeds (hb : headerLen b ≤ b.length) (hsyn : Syn b) :
    Succeeds (findMss b) (fun r => ∀ o, r = some o ↔ MssAt b o) := by
  have hsize : tcpSize = 20 := rfl
  have hrounds : maxRounds = 64 := rfl
  have hbyte := u8_lt b 12
  have hdoff : doff4 b = u8 b 12 / 16 * 4 := rfl
  have hle := (Nat.max_le.mp hb)
  refine (Succeeds.readU8 (by omega)).bind ?_
  rintro _ rfl
  refine Succeeds.ite (fun hno => ?_) fun _ => ?_
  · rw [Syn, hno] at hsyn
    exact absurd hsyn (by decide)
  · refine (Succeeds.readU8 (by omega)).bind ?_
    rintro _ rfl
    exact mssOption_succeeds hle.2 maxRounds tcpSize (by decide) (by omega)

theorem findMss_take (hb : headerLen b ≤ b.length) :
    findMss (b.take (headerLen b)) = findMss b := by
  have hle := (Nat.max_le.mp hb)
  have hsize : tcpSize = 20 := rfl
  have hmin : tcpSize ≤ headerLen b := le_max_left _ _
  have hdoff : (readU8 b 12 : Checked Empty ℕ) = .ok (u8 b 12) := if_pos (by omega)
  unfold findMss
  rw [readU8_take (by omega) (by omega), readU8_take (by omega) (by omega), hdoff]
  have hsearch := mssOption_take hle.2 (le_max_right tcpSize (doff4 b)) maxRounds tcpSize
  refine congrArg _ (funext fun flags => ?_)
  by_cases hsyn : flags / 2 % 2 = 0
  · rw [if_pos hsyn, if_pos hsyn]
  · rw [if_neg hsyn, if_neg hsyn]
    exact hsearch

theorem pktMss_eq (h : off + 4 ≤ b.length) : pktMss b off = .ok (be16 b (off + 2)) := by
  unfold pktMss
  rw [readU8, readU8, if_pos (by omega), if_pos (by omega)]
  rfl

theorem writeU8_writeU8 {w : ℕ} (h : off + 2 ≤ b.length) :
    ((writeU8 b off (w / 256) >>= fun c => writeU8 c (off + 1) w) : Checked Empty (List Byte)) =
      .ok (set16 b off (swap16 w)) := by
  have hhigh : Fin.ofNat 256 (swap16 w) = Fin.ofNat 256 (w / 256) := by
    apply Fin.ext
    rw [Fin.val_ofNat, Fin.val_ofNat, swap16]
    omega
  have hquot : swap16 w / 256 = w % 256 := by
    unfold swap16
    omega
  have hlow : Fin.ofNat 256 (swap16 w / 256) = Fin.ofNat 256 w := by
    apply Fin.ext
    rw [hquot, Fin.val_ofNat, Fin.val_ofNat, Nat.mod_mod]
  rw [set16, hhigh, hlow, writeU8, if_pos (by omega)]
  change writeU8 _ _ _ = _
  rw [writeU8, List.length_set, if_pos (by omega)]

theorem writeMss_eq {mss : ℕ} (h : off + 4 ≤ b.length) :
    writeMss b off mss = .ok (set16 b (off + 2) (swap16 mss)) := writeU8_writeU8 (by omega)

theorem writeCsum_eq (h : 20 ≤ b.length) (pkt max : ℕ) : writeCsum b pkt max =
    .ok (set16 b 16 (swap16 (patchedCsum (be16 b 16) pkt max))) := by
  unfold writeCsum
  rw [readLe16, if_pos (by omega)]
  change (writeU8 b 16 (patchedCsum (swap16 (le16 b 16)) pkt max / 256) >>= _) = _
  rw [swap16_le16]
  exact writeU8_writeU8 (by omega)

/-! ### The sum over a segment -/

/-- The checksum of a segment is right: the sum over it and its pseudo-header, with carries added back
in, is all ones. -/
def Verifies (pseudo : ℕ) (seg : List Byte) : Prop :=
  0 < pseudo + wordSum seg ∧ (pseudo + wordSum seg) % 65535 = 0

instance (pseudo : ℕ) (seg : List Byte) : Decidable (Verifies pseudo seg) :=
  inferInstanceAs (Decidable (_ ∧ _))

theorem foldOnce_lt {x : ℕ} (h : x ≤ 131070) : foldOnce x < 2 ^ 16 := by
  unfold foldOnce
  omega

theorem foldOnce_cast (x : ℕ) : (foldOnce x : ZMod 65535) = x := by
  have hsum : foldOnce x + 65535 * (x / 2 ^ 16) = x + 65535 * 0 := by
    unfold foldOnce
    omega
  exact cast_eq_of_add hsum

theorem patchedCsum_cast {check max : ℕ} (hcheck : check < 2 ^ 16) (hpkt : pkt < 2 ^ 16)
    (hmax : max < 2 ^ 16) : (patchedCsum check pkt max : ZMod 65535) = check + pkt - max := by
  have h1 := not16_lt check
  have h2 := not16_lt pkt
  have h3 := foldOnce_lt (x := not16 check + not16 pkt) (by omega)
  have h4 := foldOnce_lt (x := foldOnce (not16 check + not16 pkt) + max) (by omega)
  rw [patchedCsum, not16_cast h4, foldOnce_cast, Nat.cast_add, foldOnce_cast, Nat.cast_add,
    not16_cast hcheck, not16_cast hpkt]
  ring

/-- **The patched sum**: with the value at an even offset the sum over the segment is what it was; at an
odd one the value and the checksum count in different orders. -/
theorem clampMss_sum {max : ℕ} (hoff : 20 ≤ off) (hb : off + 4 ≤ b.length)
    (hpkt : pkt = be16 b (off + 2)) (hmax : max < 2 ^ 16) :
    (wordSum (set16 (set16 b (off + 2) (swap16 max)) 16
      (swap16 (patchedCsum (be16 b 16) pkt max))) : ZMod 65535) =
      wordSum b + if off % 2 = 0 then 0 else 255 * ((pkt : ZMod 65535) - max) := by
  have hpatch : patchedCsum (be16 b 16) pkt max < 2 ^ 16 := not16_lt _
  have hpkt' : pkt < 2 ^ 16 := hpkt ▸ be16_lt b (off + 2)
  have hsum := wordSum_set16 (b := set16 b (off + 2) (swap16 max)) (i := 16)
    (w := swap16 (patchedCsum (be16 b 16) pkt max)) rfl (by rw [set16_length]; omega) (swap16_lt _)
  rw [le16_set16_of_disjoint (by omega), ← swap16_swap16 (le16_lt b 16), swap16_le16] at hsum
  have hsum' := congrArg (Nat.cast : ℕ → ZMod 65535) hsum
  rw [Nat.cast_add, Nat.cast_add, swap16_cast (be16_lt b 16), swap16_cast hpatch,
    patchedCsum_cast (be16_lt b 16) hpkt' hmax] at hsum'
  split_ifs with heven
  · have hval := wordSum_set16 (b := b) (i := off + 2) (w := swap16 max) (by omega) (by omega)
      (swap16_lt _)
    rw [← swap16_swap16 (le16_lt b (off + 2)), swap16_le16, ← hpkt] at hval
    have hval' := congrArg (Nat.cast : ℕ → ZMod 65535) hval
    rw [Nat.cast_add, Nat.cast_add, swap16_cast hpkt', swap16_cast hmax] at hval'
    linear_combination hval' + hsum'
  · have hval := wordSum_set16_odd (b := b) (i := off + 2) (by omega) (by omega) hmax
    rw [← hpkt] at hval
    have hval' := congrArg (Nat.cast : ℕ → ZMod 65535) hval
    rw [Nat.cast_add, Nat.cast_add] at hval'
    linear_combination hval' + hsum'

/-! ### Clamping -/

/-- What clamping may do to a SYN: only the value of its maximum segment size is changed (and the
checksum, where it is patched), it is not raised, and it leaves room for the overhead in the MTU exactly
if the MTU has room for it at all. -/
structure Clamped (withCsum : Bool) (overhead mtu : ℕ) (b c : List Byte) : Prop where
  length : c.length = b.length
  changes : ∀ j, u8 c j ≠ u8 b j → (∃ o, MssAt b o ∧ (j = o + 2 ∨ j = o + 3)) ∨
    (withCsum = true ∧ (j = 16 ∨ j = 17))
  lowers : ∀ o, MssAt b o → be16 c (o + 2) ≤ be16 b (o + 2)
  fits : ∀ o, MssAt b o → (be16 c (o + 2) + overhead ≤ mtu ↔ overhead ≤ mtu)

theorem maxMss_lt (mtu overhead : ℕ) : maxMss mtu overhead < 2 ^ 16 := Nat.mod_lt _ (by decide)

theorem maxMss_eq {mtu overhead : ℕ} (hmtu : mtu < 2 ^ 16) (h : overhead ≤ mtu) :
    maxMss mtu overhead = mtu - overhead := by
  unfold maxMss
  omega

theorem nextOption_lt {off' : ℕ} (h : nextOption b hlen off = some off') : off < off' := by
  unfold nextOption at h
  split_ifs at h with _ _ hlen
  · cases h
    omega
  · cases h
    omega

theorem Leads.le {o : ℕ} (h : Leads b hlen off o) : off ≤ o := by
  induction h with
  | refl => exact le_rfl
  | tail _ hnext ih => exact ih.trans (nextOption_lt hnext).le

/-- The bytes after `__vr_adjust_tcp_mss` has found the option. -/
def setMss (b : List Byte) (off max : ℕ) : List Byte :=
  if max < be16 b (off + 2) then set16 b (off + 2) (swap16 max) else b

/-- The bytes after `dpdk_adjust_tcp_mss` has found the option. -/
def setMssCsum (b : List Byte) (off max : ℕ) : List Byte :=
  if max < be16 b (off + 2) then
    set16 (set16 b (off + 2) (swap16 max)) 16
      (swap16 (patchedCsum (be16 b 16) (be16 b (off + 2)) max))
  else b

section Found

variable {o overhead mtu : ℕ} {withCsum : Bool} {c : List Byte}

section

variable (hat : ∀ o', MssAt b o' ↔ o' = o)
include hat

theorem clamped_of_set (hmtu : mtu < 2 ^ 16)
    (hlen : c.length = b.length) (hval : be16 c (o + 2) = maxMss mtu overhead)
    (hlow : maxMss mtu overhead < be16 b (o + 2))
    (hout : ∀ j, j ≠ o + 2 → j ≠ o + 3 → u8 c j ≠ u8 b j → withCsum = true ∧ (j = 16 ∨ j = 17)) :
    Clamped withCsum overhead mtu b c := by
  refine ⟨hlen, ?_, ?_, ?_⟩
  · intro j hj
    by_cases hj2 : j = o + 2
    · exact .inl ⟨o, (hat o).mpr rfl, .inl hj2⟩
    · by_cases hj3 : j = o + 3
      · exact .inl ⟨o, (hat o).mpr rfl, .inr hj3⟩
      · exact .inr (hout j hj2 hj3 hj)
  · intro o' ho'
    obtain rfl := (hat o').mp ho'
    omega
  · intro o' ho'
    obtain rfl := (hat o').mp ho'
    refine ⟨fun h => by omega, fun hle => ?_⟩
    rw [hval, maxMss_eq hmtu hle]
    omega

theorem clamped_of_le (hmtu : mtu < 2 ^ 16)
    (hlow : ¬ maxMss mtu overhead < be16 b (o + 2)) : Clamped withCsum overhead mtu b b := by
  refine ⟨rfl, fun _ hne => absurd rfl hne, fun _ _ => le_rfl, fun o' ho' => ?_⟩
  obtain rfl := (hat o').mp ho'
  refine ⟨fun h => by omega, fun hle => ?_⟩
  rw [maxMss_eq hmtu hle] at hlow
  omega

theorem setMss_clamped (hmtu : mtu < 2 ^ 16)
    (hb : o + 4 ≤ b.length) : Clamped withCsum overhead mtu b (setMss b o (maxMss mtu overhead)) := by
  unfold setMss
  by_cases hlow : maxMss mtu overhead < be16 b (o + 2)
  · rw [if_pos hlow]
    refine clamped_of_set hat hmtu (set16_length _ _ _)
      (be16_set16_self (by omega) (maxMss_lt _ _)) hlow fun j hj2 hj3 hne => ?_
    exact absurd (u8_set16_of_ne ⟨hj2, hj3⟩ _) hne
  · rw [if_neg hlow]
    exact clamped_of_le hat hmtu hlow

theorem setMssCsum_clamped (hmtu : mtu < 2 ^ 16)
    (ho : 20 ≤ o) (hb : o + 4 ≤ b.length) :
    Clamped true overhead mtu b (setMssCsum b o (maxMss mtu overhead)) := by
  unfold setMssCsum
  by_cases hlow : maxMss mtu overhead < be16 b (o + 2)
  · rw [if_pos hlow]
    refine clamped_of_set hat hmtu (by rw [set16_length, set16_length]) ?_ hlow
      fun j hj2 hj3 hne => ⟨rfl, ?_⟩
    · rw [be16_set16_of_disjoint (by omega)]
      exact be16_set16_self (by omega) (maxMss_lt _ _)
    · by_contra hno
      refine hne ?_
      rw [u8_set16_of_ne (by omega), u8_set16_of_ne ⟨hj2, hj3⟩]
  · rw [if_neg hlow]
    exact clamped_of_le hat hmtu hlow

end

theorem wordSum_pos (hb : 20 ≤ b.length) (hsyn : Syn b) : 0 < wordSum b := by
  have hset := wordSumFrom_set b 0 13 0 (by omega)
  have hweight : weight (0 + 13) = 256 := rfl
  rw [hweight] at hset
  unfold Syn at hsyn
  unfold wordSum
  simp only [Fin.val_zero] at hset
  omega

/-- The checksum stays right: the value is at an even offset, or low enough already, or lowered by a
multiple of 257, so that it makes no difference in which order its bytes count. -/
def CsumKept (b : List Byte) (o max : ℕ) : Prop :=
  o % 2 = 0 ∨ be16 b (o + 2) ≤ max ∨ 257 ∣ be16 b (o + 2) - max

theorem swapped_diff_eq_zero_iff {pkt max : ℕ} (h : max ≤ pkt) :
    (255 * ((pkt : ZMod 65535) - max) = 0) ↔ 257 ∣ pkt - max := by
  rw [← Nat.cast_sub h, show (255 : ZMod 65535) = ((255 : ℕ) : ZMod 65535) by rfl, ← Nat.cast_mul,
    ZMod.natCast_eq_zero_iff]
  omega

theorem setMssCsum_verifies_iff {max pseudo : ℕ} (hsyn : Syn b) (ho : 20 ≤ o) (hb : o + 4 ≤ b.length)
    (hmax : max < 2 ^ 16) (h : Verifies pseudo b) :
    Verifies pseudo (setMssCsum b o max) ↔ CsumKept b o max := by
  unfold setMssCsum CsumKept
  by_cases hlow : max < be16 b (o + 2)
  · rw [if_pos hlow]
    have hsum := clampMss_sum ho hb rfl hmax
    set d := set16 (set16 b (o + 2) (swap16 max)) 16
      (swap16 (patchedCsum (be16 b 16) (be16 b (o + 2)) max)) with hd
    have hsyn' : Syn d := by
      rw [Syn, hd, u8_set16_of_ne (by omega), u8_set16_of_ne (by omega)]
      exact hsyn
    have hpos := wordSum_pos (b := d) (by rw [hd, set16_length, set16_length]; omega) hsyn'
    have hold := (ZMod.natCast_eq_zero_iff _ _).mpr (Nat.dvd_of_mod_eq_zero h.2)
    have hnew : Verifies pseudo d ↔ ((pseudo + wordSum d : ℕ) : ZMod 65535) = 0 := by
      rw [ZMod.natCast_eq_zero_iff, Nat.dvd_iff_mod_eq_zero, Verifies]
      exact and_iff_right (by omega)
    rw [Nat.cast_add] at hold
    rw [hnew, Nat.cast_add, hsum, ← add_assoc, hold, zero_add]
    split_ifs with heven
    · exact iff_of_true rfl (.inl heven)
    · rw [swapped_diff_eq_zero_iff hlow.le, or_iff_right heven, or_iff_right (Nat.not_le.mpr hlow)]
  · rw [if_neg hlow]
    exact iff_of_true h (.inr (.inl (Nat.le_of_not_lt hlow)))

theorem setMss_take {max : ℕ} (hn : o + 4 ≤ n) :
    setMss (b.take n) o max = (setMss b o max).take n := by
  have hmss : be16 (b.take n) (o + 2) = be16 b (o + 2) :=
    be16_of_u8 (u8_take (by omega)) (u8_take (by omega))
  unfold setMss
  rw [hmss]
  split_ifs
  · rw [take_set16]
  · rfl

theorem setMssCsum_take {max : ℕ} (ho : 20 ≤ o) (hn : o + 4 ≤ n) :
    setMssCsum (b.take n) o max = (setMssCsum b o max).take n := by
  have hmss : be16 (b.take n) (o + 2) = be16 b (o + 2) :=
    be16_of_u8 (u8_take (by omega)) (u8_take (by omega))
  have hcsum : be16 (b.take n) 16 = be16 b 16 :=
    be16_of_u8 (u8_take (by omega)) (u8_take (by omega))
  unfold setMssCsum
  rw [hmss, hcsum]
  split_ifs
  · rw [take_set16, take_set16]
  · rfl

end Found

/-! ### Both functions -/

theorem dpdkAdjustTcpMss_found {o : ℕ} (hfind : findMss b = .ok (some o)) (hb : o + 4 ≤ b.length)
    (ho : 20 ≤ o) (mtu overlayLen : UInt16) (iphLen : UInt8) :
    dpdkAdjustTcpMss (some mtu) b overlayLen iphLen = .ok (setMssCsum b o
      (maxMss mtu.toNat (overlayLen.toNat + iphLen.toNat + tcpSize))) := by
  unfold dpdkAdjustTcpMss setMssCsum
  simp only [hfind, pktMss_eq hb, bind, Except.bind]
  split_ifs with hlow
  · rw [writeMss_eq hb]
    have hcsum : be16 (set16 b (o + 2) (swap16 (maxMss mtu.toNat
        (overlayLen.toNat + iphLen.toNat + tcpSize)))) 16 = be16 b 16 :=
      be16_set16_of_disjoint (by omega) _
    have hwrite := writeCsum_eq (b := set16 b (o + 2) (swap16 (maxMss mtu.toNat
      (overlayLen.toNat + iphLen.toNat + tcpSize)))) (by rw [set16_length]; omega)
      (be16 b (o + 2)) (maxMss mtu.toNat (overlayLen.toNat + iphLen.toNat + tcpSize))
    rw [hcsum] at hwrite
    exact hwrite
  · rfl

theorem vrAdjustTcpMssTo_found {o : ℕ} (hfind : findMss b = .ok (some o)) (hb : o + 4 ≤ b.length)
    (mtu lenOverhead : UInt16) : ∃ changed, vrAdjustTcpMssTo mtu b lenOverhead =
      .ok (setMss b o (maxMss mtu.toNat (lenOverhead.toNat + tcpSize)), changed) := by
  unfold vrAdjustTcpMssTo setMss
  simp only [hfind, pktMss_eq hb, bind, Except.bind]
  split_ifs with hlow
  · rw [writeMss_eq hb]
    exact ⟨_, rfl⟩
  · exact ⟨_, rfl⟩

/-- **Clamping is safe**: for every SYN and every option bytes both functions end, with no access outside
of the header, and lower at most the maximum segment size, to one that fits exactly if the MTU has room
for the overhead; and a right checksum stays right exactly where `CsumKept` says. -/
theorem adjustTcpMss_clamps (b : List Byte) (mtu overlayLen lenOverhead : UInt16) (iphLen : UInt8)
    (hb : headerLen b ≤ b.length) (hsyn : Syn b) :
    (∃ c, dpdkAdjustTcpMss (some mtu) b overlayLen iphLen = .ok c ∧
      dpdkAdjustTcpMss (some mtu) (b.take (headerLen b)) overlayLen iphLen =
        .ok (c.take (headerLen b)) ∧
      Clamped true (overlayLen.toNat + iphLen.toNat + tcpSize) mtu.toNat b c ∧
      ∀ pseudo, Verifies pseudo b → (Verifies pseudo c ↔ ∀ o, MssAt b o →
        CsumKept b o (maxMss mtu.toNat (overlayLen.toNat + iphLen.toNat + tcpSize)))) ∧
    ∃ c changed changed', vrAdjustTcpMssTo mtu b lenOverhead = .ok (c, changed) ∧
      vrAdjustTcpMssTo mtu (b.take (headerLen b)) lenOverhead =
        .ok (c.take (headerLen b), changed') ∧
      Clamped false (lenOverhead.toNat + tcpSize) mtu.toNat b c := by
  have hmtu : mtu.toNat < 2 ^ 16 := mtu.toNat_lt
  have hsize : tcpSize = 20 := rfl
  obtain ⟨r, hfind, hspec⟩ := findMss_succeeds hb hsyn
  have htake := (findMss_take hb).trans hfind
  have hlen : (b.take (headerLen b)).length = headerLen b := by
    rw [List.length_take]
    omega
  cases r with
  | none =>
    have hno : ∀ o, ¬ MssAt b o := fun o h => absurd ((hspec o).mpr h) nofun
    have hsame : ∀ {withCsum : Bool} {overhead : ℕ}, Clamped withCsum overhead mtu.toNat b b :=
      ⟨rfl, fun _ hne => absurd rfl hne, fun _ _ => le_rfl, fun o h => absurd h (hno o)⟩
    refine ⟨⟨b, ?_, ?_, hsame, fun _ h => iff_of_true h fun o ho => absurd ho (hno o)⟩, b, none, none, ?_, ?_, hsame⟩
    · simp only [dpdkAdjustTcpMss, hfind]
      rfl
    · simp only [dpdkAdjustTcpMss, htake]
      rfl
    · simp only [vrAdjustTcpMssTo, hfind]
      rfl
    · simp only [vrAdjustTcpMssTo, htake]
      rfl
  | some o =>
    have hat : ∀ o', MssAt b o' ↔ o' = o := fun o' => by
      rw [← hspec o', Option.some.injEq, eq_comm]
    have hmss := (hat o).mpr rfl
    have ho : 20 ≤ o := hmss.1.le
    have hhdr : o + 4 ≤ headerLen b := hmss.2.1.trans (le_max_right _ _)
    have hshort := dpdkAdjustTcpMss_found htake (by omega) ho mtu overlayLen iphLen
    rw [setMssCsum_take ho hhdr] at hshort
    obtain ⟨changed, hcore⟩ := vrAdjustTcpMssTo_found hfind (by omega) mtu lenOverhead
    obtain ⟨changed', hcore'⟩ := vrAdjustTcpMssTo_found htake (by omega) mtu lenOverhead
    rw [setMss_take hhdr] at hcore'
    refine ⟨⟨_, dpdkAdjustTcpMss_found hfind (by omega) ho mtu overlayLen iphLen, hshort,
      setMssCsum_clamped hat hmtu ho (by omega), fun pseudo h => ?_⟩,
      _, changed, changed', hcore, hcore', setMss_clamped hat hmtu (by omega)⟩
    rw [setMssCsum_verifies_iff hsyn ho (by omega) (maxMss_lt _ _) h]
    simp only [hat, forall_eq]

/-! ### Three segments -/

/-- A SYN with the given options. -/
def synWith (doff : ℕ) (options : List Byte) : List Byte :=
  [0, 1, 0, 2, 0, 0, 0, 0, 0, 0, 0, 0, Fin.ofNat 256 (doff * 16), 2, 0, 0, 0, 0, 0, 0] ++ options

/-- The maximum segment size 1460 at an even offset. -/
def evenSyn : List Byte := synWith 6 [2, 4, 5, 180]

theorem adjustTcpMss_even : headerLen evenSyn ≤ evenSyn.length ∧ Syn evenSyn ∧
    MssAt evenSyn 20 ∧ Verifies 17048 evenSyn ∧
    ∃ c, dpdkAdjustTcpMss (some 1500) evenSyn 50 20 = .ok c ∧ be16 c 22 + 90 ≤ 1500 ∧
      Verifies 17048 c := by
  have hat : MssAt evenSyn 20 := ⟨.refl, by decide, by decide, by decide⟩
  have hnext : nextOption evenSyn (doff4 evenSyn) tcpSize = none := by decide
  obtain ⟨⟨c, hrun, -, hc, hcsum⟩, -⟩ :=
    adjustTcpMss_clamps evenSyn 1500 50 70 20 (by decide) (by decide)
  refine ⟨by decide, by decide, hat, by decide, c, hrun, (hc.fits 20 hat).mpr (by decide),
    (hcsum 17048 (by decide)).mpr fun o ho => .inl ?_⟩
  obtain rfl := (leads_of_none hnext).mp ho.1
  rfl

/-- The same behind a byte of padding. -/
def oddSyn : List Byte := synWith 7 [1, 2, 4, 5, 180, 0, 0, 0]

/-- What becomes of it: the value 1410, and a checksum that is higher by 50. -/
def oddClamped : List Byte := (synWith 7 [1, 2, 4, 5, 130, 0, 0, 0]).set 17 50

/-- Two values, of which the second one is large. -/
def twiceSyn : List Byte := synWith 7 [2, 4, 0, 100, 2, 4, 255, 255]

/-- At an odd offset the patched checksum is wrong; an MTU below the overhead wraps around and clamps
nothing; and a second value is not looked at. -/
theorem oddOffset_garbles :
    (Verifies 62166 oddSyn ∧ dpdkAdjustTcpMss (some 1500) oddSyn 50 20 = .ok oddClamped ∧
      ¬ Verifies 62166 oddClamped) ∧
    (dpdkAdjustTcpMss (some 68) evenSyn 50 20 = .ok evenSyn ∧ 68 < be16 evenSyn 22 + 90) ∧
    dpdkAdjustTcpMss (some 1500) twiceSyn 50 20 = .ok twiceSyn ∧ be16 twiceSyn 26 = 65535 := by
  refine ⟨⟨by decide, by decide, by decide⟩, ⟨by decide, by decide⟩, by decide, by decide⟩

end Vrouter.Mss
