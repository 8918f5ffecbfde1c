import Vrouter.FlowNat.Model
import Mathlib.Tactic.Ring

/-! # The steps of a translation

Each step of a translation rewrites some bytes of the packet and adds the difference that this
makes to a number.  `Rewrites lo hi ip ip' inc inc'` says so for the bytes from `lo` to `hi`; steps
one after the other, or next to each other, are again a step. -/

namespace Vrouter.FlowNat

open Vrouter.Lib Vrouter.Packet Vrouter.FlowKey

/-- The bytes from `lo` to `hi` are rewritten, and the difference is added. -/
structure Rewrites (lo hi : ℕ) (ip ip' : List Byte) (inc inc' : ℕ) : Prop where
  same : SameOutside lo hi ip ip'
  lt : inc < 2 ^ 32 → inc' < 2 ^ 32
  sum : inc < 2 ^ 32 → (wordSum (slice ip' lo (hi - lo)) : ZMod 65535) =
    wordSum (slice ip lo (hi - lo)) + (inc' - inc)

namespace Rewrites

variable {lo mid hi : ℕ} {ip ip' ip'' : List Byte} {inc inc' inc'' : ℕ}

theorem refl (lo hi : ℕ) (ip : List Byte) (inc : ℕ) : Rewrites lo hi ip ip inc inc :=
  ⟨.refl lo hi ip, fun h => h, fun _ => by ring⟩

theorem trans (h : Rewrites lo hi ip ip' inc inc') (h' : Rewrites lo hi ip' ip'' inc' inc'') :
    Rewrites lo hi ip ip'' inc inc'' := by
  refine ⟨h.same.trans h'.same, fun hinc => h'.lt (h.lt hinc), fun hinc => ?_⟩
  linear_combination h.sum hinc + h'.sum (h.lt hinc)

theorem widen {lo' hi' : ℕ} (h : Rewrites lo hi ip ip' inc inc')
    (hin : lo' ≤ lo ∧ lo ≤ hi ∧ hi ≤ hi' ∧ (lo - lo') % 2 = 0 ∧ (hi - lo) % 2 = 0 ∧ hi ≤ ip.length) :
    Rewrites lo' hi' ip ip' inc inc' := by
  obtain ⟨hlo, hmid, hhi, heven, heven', hlen⟩ := hin
  refine ⟨h.same.mono hlo hhi, h.lt, fun hinc => ?_⟩
  obtain ⟨m, rfl⟩ := Nat.exists_eq_add_of_le hlo
  obtain ⟨k, rfl⟩ := Nat.exists_eq_add_of_le hmid
  obtain ⟨n, rfl⟩ := Nat.exists_eq_add_of_le hhi
  have hsum := h.sum hinc
  have hslice := wordSum_slice_of_sameOutside (n := n) h.same (by omega) (by omega) hlen
  have hcast := congrArg (Nat.cast : ℕ → ZMod 65535) hslice
  rw [Nat.add_sub_cancel_left] at hsum
  rw [show lo' + m + k + n - lo' = m + k + n by omega]
  push_cast at hcast
  linear_combination hcast + hsum

theorem ite {p : Prop} [Decidable p] {r : List Byte × ℕ}
    (h : p → Rewrites lo hi ip r.1 inc r.2) :
    Rewrites lo hi ip (if p then r else (ip, inc)).1 inc (if p then r else (ip, inc)).2 := by
  split_ifs with hp
  · exact h hp
  · exact refl lo hi ip inc

/-- Two writes that are each done or left out. -/
theorem ites {p q : Bool} {r r' s : List Byte × ℕ} (hs : s = if p then r else (ip, inc))
    (hr : Rewrites lo hi ip r.1 inc r.2)
    (hr' : s.1.length = ip.length → Rewrites lo hi s.1 r'.1 s.2 r'.2) :
    Rewrites lo hi ip (if q then r' else s).1 inc (if q then r' else s).2 := by
  have hfirst : Rewrites lo hi ip s.1 inc s.2 := hs ▸ ite fun _ => hr
  exact hfirst.trans (ite fun _ => hr' hfirst.same.length)

end Rewrites

theorem vrInetFlowNat_some (fe : NatEntry) (rfe : VrFlow) (pkt : VrPacket) :
    vrInetFlowNat fe (some rfe) pkt =
      let addrs := natAddrs fe rfe (natIcmp fe rfe pkt.data)
      let ports := natTransport fe rfe addrs.1 addrs.2
      some (if pkt.diag then { pkt with data := ports.1 }
        else vrIpUpdateCsum { pkt with data := ports.1 } addrs.2 ports.2) :=
  rfl

theorem vrInet6FlowNat_some (fe : NatEntry) (rfe : VrFlow) (pkt : VrPacket) :
    vrInet6FlowNat fe (some rfe) pkt =
      let addrs := nat6Addrs fe rfe (nat6Icmp fe rfe pkt.data)
      let ports := nat6Transport fe rfe addrs.1
      some (nat6IcmpCsum fe (if pkt.diag then { pkt with data := ports.1 }
        else vrIp6UpdateCsum { pkt with data := ports.1 } addrs.2 ports.2)) :=
  rfl

/-! ### Single writes -/

variable {ip xs : List Byte} {i inc : ℕ}

theorem rewrites_set16 {w : ℕ} (hi : i + 2 ≤ ip.length) (hw : w < 2 ^ 16) :
    Rewrites i (i + 2) ip (set16 ip i w) inc (vrIncrementalDiff (le16 ip i) w inc) := by
  refine ⟨set16_sameOutside ip i w, fun _ => vrIncrementalDiff_lt _ _ _, fun hinc => ?_⟩
  have hold := le16_lt ip i
  rw [Nat.add_sub_cancel_left, wordSum_slice_two, wordSum_slice_two, le16_set16_self (by omega) hw,
    vrIncrementalDiff_cast (by omega) (by omega) hinc]
  ring

theorem slice_zero_length (xs : List Byte) : slice xs 0 xs.length = xs := List.take_length

theorem rewrites_setBytes (hxs : xs.length = 4) (hi : i + 4 ≤ ip.length) :
    Rewrites i (i + 4) ip (setBytes ip i xs) inc
      (vrIncrementalDiff (le32 ip i) (le32 xs 0) inc) := by
  refine ⟨hxs ▸ setBytes_sameOutside ip i xs, fun _ => vrIncrementalDiff_lt _ _ _, fun hinc => ?_⟩
  have hself : slice xs 0 4 = xs := by
    rw [← hxs]
    exact slice_zero_length xs
  rw [Nat.add_sub_cancel_left, slice_setBytes hxs hi,
    vrIncrementalDiff_cast (le32_lt _ _) (le32_lt _ _) hinc, le32_cast, le32_cast, hself]
  ring

theorem addrDiff_lt (old new : List Byte) (inc : ℕ) : addrDiff old new inc < 2 ^ 32 :=
  vrIncrementalDiff_lt _ _ _

theorem addrDiff_cast {old new : List Byte} (hold : old.length = 16) (hnew : new.length = 16)
    (hinc : inc < 2 ^ 32) :
    (addrDiff old new inc : ZMod 65535) = inc + wordSum new - wordSum old := by
  have hsum : ∀ b : List Byte, b.length = 16 → (wordSum b : ZMod 65535) =
      le32 b 0 + le32 b 4 + le32 b 8 + le32 b 12 := by
    intro b hb
    have hparts : wordSum b = wordSum (slice b 0 4) + (wordSum (slice b 4 4) +
        (wordSum (slice b 8 4) + wordSum (slice b 12 4))) := by
      have hself : wordSum b = wordSum (slice b 0 (4 + (4 + (4 + 4)))) := by
        conv_lhs => rw [← slice_zero_length b, hb]
      rw [hself, wordSum_slice_add b rfl (by omega), wordSum_slice_add b rfl (by omega),
        wordSum_slice_add b rfl (by omega)]
    rw [hparts, le32_cast, le32_cast, le32_cast, le32_cast]
    push_cast
    ring
  have hdiff : ∀ i inc : ℕ, inc < 2 ^ 32 →
      (vrIncrementalDiff (le32 old i) (le32 new i) inc : ZMod 65535) =
        inc + le32 new i - le32 old i :=
    fun i inc hinc => vrIncrementalDiff_cast (le32_lt _ _) (le32_lt _ _) hinc
  simp only [addrDiff, List.foldl_cons, List.foldl_nil]
  rw [hdiff 12 _ (vrIncrementalDiff_lt _ _ _), hdiff 8 _ (vrIncrementalDiff_lt _ _ _),
    hdiff 4 _ (vrIncrementalDiff_lt _ _ _), hdiff 0 _ hinc, hsum old hold, hsum new hnew]
  ring

theorem rewrites_setBytes6 (hxs : xs.length = 16) (hi : i + 16 ≤ ip.length) :
    Rewrites i (i + 16) ip (setBytes ip i xs) inc (addrDiff (slice ip i 16) xs inc) := by
  refine ⟨hxs ▸ setBytes_sameOutside ip i xs, fun _ => addrDiff_lt _ _ _, fun hinc => ?_⟩
  rw [Nat.add_sub_cancel_left, slice_setBytes hxs hi, addrDiff_cast (slice_length hi) hxs hinc]
  ring

/-! ### Steps of both versions -/

variable {fe : NatEntry} {rfe : VrFlow}

/-- The reverse flow of an IP version. -/
structure FlowSized (n : ℕ) (rfe : VrFlow) : Prop where
  sip : rfe.sip.length = n
  dip : rfe.dip.length = n
  sport : rfe.sport < 2 ^ 16
  dport : rfe.dport < 2 ^ 16

theorem natAddrs_rewrites (hrfe : FlowSized 4 rfe) (hlen : 20 ≤ ip.length) :
    Rewrites 12 20 ip (natAddrs fe rfe ip).1 0 (natAddrs fe rfe ip).2 := by
  refine Rewrites.ites rfl ?_ fun hs => ?_
  · exact (rewrites_setBytes hrfe.dip (by omega)).widen (by omega)
  · exact (rewrites_setBytes hrfe.sip (by omega)).widen (by omega)

theorem nat6Addrs_rewrites (hrfe : FlowSized 16 rfe) (hlen : 40 ≤ ip.length) :
    Rewrites 8 40 ip (nat6Addrs fe rfe ip).1 0 (nat6Addrs fe rfe ip).2 := by
  refine Rewrites.ites rfl ?_ fun hs => ?_
  · exact (rewrites_setBytes6 hrfe.dip (by omega)).widen (by omega)
  · exact (rewrites_setBytes6 hrfe.sip (by omega)).widen (by omega)

theorem set16_samePorts {t i : ℕ} (hi : i = t ∨ i = t + 2) (ip : List Byte) (w : ℕ) :
    SameOutside t (t + 4) ip (set16 ip i w) :=
  (set16_sameOutside ip i w).mono (by omega) (by omega)

theorem natPorts_same (fe : NatEntry) (rfe : VrFlow) (t : ℕ) (ip : List Byte) (inc : ℕ) :
    SameOutside t (t + 4) ip (natPorts fe rfe t ip inc).1 := by
  unfold natPorts
  dsimp only
  split_ifs
  · exact (set16_samePorts (.inl rfl) ip _).trans (set16_samePorts (.inr rfl) _ _)
  · exact set16_samePorts (.inr rfl) ip _
  · exact set16_samePorts (.inl rfl) ip _
  · exact .refl _ _ _

theorem natPorts_rewrites {n t : ℕ} (hrfe : FlowSized n rfe) (hlen : t + 4 ≤ ip.length) :
    Rewrites t (t + 4) ip (natPorts fe rfe t ip inc).1 inc (natPorts fe rfe t ip inc).2 := by
  refine Rewrites.ites rfl ?_ fun hs => ?_
  · exact (rewrites_set16 (by omega) hrfe.dport).widen (by omega)
  · exact (rewrites_set16 (by omega) hrfe.sport).widen (by omega)

/-! ### The quoted packet -/

variable (fe : NatEntry)

theorem natTransport_same (rfe : VrFlow) (ip : List Byte) (inc : ℕ) :
    SameOutside (ipHl ip * 4) (ipHl ip * 4 + 4) ip (natTransport fe rfe ip inc).1 := by
  unfold natTransport
  split_ifs
  · exact natPorts_same fe rfe _ _ _
  · exact .refl _ _ _

theorem quotedPorts_same (rfe : VrFlow) (t : ℕ) (ip : List Byte) :
    SameOutside t (t + 4) ip (quotedPorts fe rfe t ip) := by
  unfold quotedPorts
  dsimp only
  split_ifs
  · exact (set16_samePorts (.inr rfl) ip _).trans (set16_samePorts (.inl rfl) _ _)
  · exact set16_samePorts (.inl rfl) ip _
  · exact set16_samePorts (.inr rfl) ip _
  · exact .refl _ _ _

variable (hrfe : FlowSized 4 rfe)
include hrfe

theorem quotedAddrs_same (pl : ℕ) (ip : List Byte) :
    SameOutside (pl + 12) (pl + 20) ip (quotedAddrs fe rfe pl ip) := by
  have hdst : ∀ ip : List Byte, SameOutside (pl + 12) (pl + 20) ip (setBytes ip (pl + 16) rfe.dip) := by
    intro ip
    have := hrfe.dip
    exact (setBytes_sameOutside ip (pl + 16) rfe.dip).mono (by omega) (by omega)
  have hsrc : ∀ ip : List Byte, SameOutside (pl + 12) (pl + 20) ip (setBytes ip (pl + 12) rfe.sip) := by
    intro ip
    have := hrfe.sip
    exact (setBytes_sameOutside ip (pl + 12) rfe.sip).mono (by omega) (by omega)
  unfold quotedAddrs
  dsimp only
  split_ifs
  · exact (hdst ip).trans (hsrc _)
  · exact hsrc ip
  · exact hdst ip
  · exact .refl _ _ _

/-- Only the checksum and the addresses of the quoted header change. -/
theorem quotedCsum_same (pl : ℕ) (ip : List Byte) :
    SameOutside (pl + 10) (pl + 20) ip (quotedCsum fe pl (quotedAddrs fe rfe pl ip)) := by
  have haddrs : SameOutside (pl + 10) (pl + 20) ip (quotedAddrs fe rfe pl ip) :=
    (quotedAddrs_same fe hrfe pl ip).mono (by omega) (le_refl _)
  unfold quotedCsum
  split_ifs
  · exact haddrs.trans ((set16_sameOutside _ _ _).mono (le_refl _) (by omega))
  · exact haddrs

theorem natQuoted_same (ip : List Byte) :
    SameOutside (ipHl ip * 4) (ipHl ip * 4 + 72) ip (natQuoted fe rfe ip) := by
  unfold natQuoted
  dsimp only
  have hpl : ipHl ip * 4 + icmpHdrSize = ipHl ip * 4 + 8 := rfl
  generalize ipHl ip * 4 + icmpHdrSize = pl at hpl
  have hcsum := quotedCsum_same fe hrfe pl ip
  generalize quotedCsum fe pl (quotedAddrs fe rfe pl ip) = ip₁ at hcsum
  have hhl := ipHl_lt (ip₁.drop pl)
  exact (hcsum.mono (by omega) (by omega)).trans
    ((quotedPorts_same fe rfe _ _).mono (by omega) (by omega))

theorem natIcmp_same (ip : List Byte) :
    SameOutside (ipHl ip * 4) (ipHl ip * 4 + 72) ip (natIcmp fe rfe ip) :=
  SameOutside.ite (fun _ => natQuoted_same fe hrfe ip) fun _ => .refl _ _ _

end Vrouter.FlowNat
