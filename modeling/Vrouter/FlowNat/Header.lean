import Vrouter.FlowNat.Steps

/-! # Edits of an IPv4 header

The edits that the datapath makes to an IPv4 header in place: the TTL is decremented when a packet
is forwarded and set by a flow that says so, the type of service is rewritten by a forwarding class,
and the addresses are translated.  Each of them updates the checksum by the difference it makes, so
a header that verifies still does after any sequence of edits (`Edit.run_verifies`).  Translation
does not touch the checksums of diagnostic packets, for which this fails (`natted_diag`). -/

namespace Vrouter.FlowNat

open Vrouter.Lib Vrouter.Packet Vrouter.FlowKey

/-! ### The edits -/

def vrIpDecrementTtl (ip : List Byte) : List Byte :=
  let diff := vrIncrementalDiff (ipTtl ip) ((ipTtl ip + (2 ^ 32 - 1)) % 2 ^ 32) 0
  vrIpIncrementalCsum (ip.set 8 (Fin.ofNat 256 (ipTtl ip + 255))) diff

def vrInetSetTos (ip : List Byte) (tos : Byte) : List Byte :=
  if ipTos ip = tos.val then ip
  else vrIpIncrementalCsum (ip.set 1 tos) (vrIncrementalDiff (ipTos ip <<< 8) (tos.val <<< 8) 0)

/-- The TTL that `vr_flow_action_default` gives to a packet of a flow with `fe_ttl`. -/
def setFlowTtl (ip : List Byte) (feTtl : Byte) : List Byte :=
  if feTtl ≠ 0 ∧ feTtl.val ≠ ipTtl ip then
    let diff := vrIncrementalDiff (ipTtl ip) feTtl.val 0
    if diff ≠ 0 then vrIpIncrementalCsum (ip.set 8 feTtl) diff else ip.set 8 feTtl
  else ip

/-- An edit of an IPv4 packet. -/
inductive Edit
  | decrementTtl
  | flowTtl (feTtl : Byte)
  | setTos (tos : Byte)
  | nat (fe : NatEntry) (rfe : Option VrFlow)

/-- The packet after an edit; `none` when it is dropped instead.  `vr_forward` drops packets whose
TTL is zero. -/
def Edit.apply : Edit → VrPacket → Option VrPacket
  | .decrementTtl, pkt =>
    if ipTtl pkt.data = 0 then none else some { pkt with data := vrIpDecrementTtl pkt.data }
  | .flowTtl feTtl, pkt => some { pkt with data := setFlowTtl pkt.data feTtl }
  | .setTos tos, pkt => some { pkt with data := vrInetSetTos pkt.data tos }
  | .nat fe rfe, pkt => vrInetFlowNat fe rfe pkt

/-- The packet after a sequence of edits. -/
def Edit.run (edits : List Edit) (pkt : VrPacket) : Option VrPacket :=
  edits.foldlM (fun pkt e => e.apply pkt) pkt

/-- The reverse flow of an edit is one of IPv4. -/
def Edit.Sized : Edit → Prop
  | .nat _ (some rfe) => FlowSized 4 rfe
  | _ => True

/-! ### The part of a packet that is its header -/

variable {ip ip' : List Byte}

variable {hi i lo : ℕ} {pkt pkt' : VrPacket}

theorem ipHl_of_sameOutside (h : SameOutside lo hi ip ip') (hpos : 0 < lo) :
    ipHl ip' = ipHl ip := by
  rw [ipHl, ipHl, h.bytes 0 (Or.inl hpos)]

theorem headerSum_of_sameOutside (hfits : HeaderFits ip) (h : SameOutside (ipHl ip * 4) hi ip ip') :
    headerSum ip' = headerSum ip := by
  have hfive := hfits.five_le
  have hheader : ip'.take (ipHl ip * 4) = ip.take (ipHl ip * 4) :=
    h.slice (j := 0) (Or.inl (by omega))
  rw [headerSum, headerSum, ipHl_of_sameOutside h (by omega), hheader]

/-- Rewriting a part of the header changes its sum by the difference. -/
theorem Rewrites.headerSum {inc inc' : ℕ} (h : Rewrites lo hi ip ip' inc inc')
    (hfits : HeaderFits ip) (hpos : 0 < lo) (hle : lo ≤ hi) (heven : lo % 2 = 0)
    (heven' : (hi - lo) % 2 = 0) (hhi : hi ≤ ipHl ip * 4) (hinc : inc < 2 ^ 32) :
    (headerSum ip' : ZMod 65535) = headerSum ip + (inc' - inc) := by
  have hlen := hfits.le_length
  have hwide : Rewrites 0 (ipHl ip * 4) ip ip' inc inc' := h.widen (by omega)
  have hsum := hwide.sum hinc
  rw [Packet.headerSum, Packet.headerSum, ipHl_of_sameOutside h.same hpos]
  exact hsum

theorem headerSum_set (h : HeaderFits ip) (hpos : 0 < i) (hi : i < ipHl ip * 4) (x : Byte) :
    headerSum (ip.set i x) + weight i * u8 ip i = headerSum ip + weight i * x.val := by
  have hlen : (ip.take (ipHl ip * 4)).length = ipHl ip * 4 := by
    rw [List.length_take, Nat.min_eq_left h.le_length]
  have hset := wordSumFrom_set (ip.take (ipHl ip * 4)) 0 i x (by omega)
  rw [Nat.zero_add, u8_take hi] at hset
  rw [headerSum, headerSum, ipHl_of_sameOutside (set_sameOutside ip i x) hpos, List.take_set]
  exact hset

/-! ### What an edit leaves -/

/-- A header that is there and verifies. -/
structure HeaderOk (ip : List Byte) : Prop where
  fits : HeaderFits ip
  sum : (headerSum ip : ZMod 65535) = 0

theorem HeaderOk.verifies (h : HeaderOk ip) : HeaderVerifies ip := (headerVerifies_iff h.fits).mpr h.sum

section

variable (h : HeaderOk ip) {diff : ℕ} (hdiff : diff < 2 ^ 32) (hhl : ipHl ip' = ipHl ip)
  (hlen : ip'.length = ip.length) (hsum : (headerSum ip' : ZMod 65535) = headerSum ip + diff)
include h hdiff hhl hlen hsum

/-- **A change by a difference, and the update of the checksum by it.** -/
theorem HeaderOk.update : HeaderOk (vrIpIncrementalCsum ip' diff) := by
  have hfits := h.fits.of_ipHl hhl hlen
  refine ⟨hfits.of_ipHl (ipHl_vrIpIncrementalCsum _ _) (set16_length _ _ _), ?_⟩
  rw [headerSum_vrIpIncrementalCsum hfits hdiff, hsum, h.sum]
  ring

/-- The update may be left out if the difference is zero. -/
theorem HeaderOk.update_unless_zero :
    HeaderOk (if diff ≠ 0 then vrIpIncrementalCsum ip' diff else ip') := by
  by_cases hzero : diff = 0
  · rw [if_neg (not_not.mpr hzero)]
    refine ⟨h.fits.of_ipHl hhl hlen, ?_⟩
    rw [hsum, h.sum, hzero, Nat.cast_zero, add_zero]
  · rw [if_pos hzero]
    exact h.update hdiff hhl hlen hsum

/-- The update of both checksums leaves a header that verifies, if the difference is that of the
header. -/
theorem vrIpUpdateCsum_ok (hip : pkt.data = ip') (inc : ℕ) :
    HeaderOk (vrIpUpdateCsum pkt diff inc).data := by
  have hok := h.update_unless_zero hdiff hhl hlen hsum
  subst hip
  unfold vrIpUpdateCsum
  dsimp only
  set ip₁ := if diff ≠ 0 then vrIpIncrementalCsum pkt.data diff else pkt.data with hip₁
  have hset : ∀ pos w, csumPos (ipProto ip₁) (ipHl ip₁ * 4) = some pos →
      HeaderOk (set16 ip₁ pos w) := by
    intro pos w hpos
    have hge : ipHl ip₁ * 4 ≤ pos := by
      unfold csumPos at hpos
      split_ifs at hpos
      · have := Option.some.inj hpos
        omega
      · have := Option.some.inj hpos
        omega
    have hsame := (set16_sameOutside ip₁ pos w).mono hge (le_refl _)
    have hfive := hok.fits.five_le
    refine ⟨hok.fits.of_ipHl (ipHl_of_sameOutside hsame (by omega)) hsame.length, ?_⟩
    rw [headerSum_of_sameOutside hok.fits hsame]
    exact hok.sum
  split
  · exact hok
  · rename_i pos hpos
    by_cases hzero : ipProto ip₁ = vrIpProtoUdp ∧ le16 ip₁ pos = 0
    · rw [if_pos hzero]
      exact hok
    · rw [if_neg hzero]
      cases vrIpTransportHeaderValid ip₁ with
      | true => exact hset pos _ hpos
      | false => exact hok

end

theorem headerSum_set_diff (h : HeaderFits ip) (hpos : 0 < i) (hi : i < 20) (x : Byte) :
    (headerSum (ip.set i x) : ZMod 65535) =
      headerSum ip + (vrIncrementalDiff (weight i * u8 ip i) (weight i * x.val) 0 : ℕ) := by
  have hfive := h.five_le
  have hset := congrArg (Nat.cast : ℕ → ZMod 65535) (headerSum_set h hpos (by omega) x)
  have hw : weight i ≤ 256 := by unfold weight; split_ifs <;> omega
  have hold := Nat.mul_le_mul hw (u8_lt ip i).le
  have hnew := Nat.mul_le_mul hw x.isLt.le
  rw [vrIncrementalDiff_cast (by omega) (by omega) (by decide)]
  push_cast at hset ⊢
  linear_combination hset

theorem ipHl_set (hpos : 0 < i) (x : Byte) : ipHl (ip.set i x) = ipHl ip :=
  ipHl_of_sameOutside (set_sameOutside ip i x) hpos

theorem vrIpDecrementTtl_ok (h : HeaderOk ip) (httl : ipTtl ip ≠ 0) :
    HeaderOk (vrIpDecrementTtl ip) := by
  have hlt : ipTtl ip < 256 := u8_lt ip 8
  have hnew : (ipTtl ip + (2 ^ 32 - 1)) % 2 ^ 32 = ipTtl ip - 1 := by omega
  have hx : (Fin.ofNat 256 (ipTtl ip + 255) : Byte).val = ipTtl ip - 1 := by
    rw [Fin.val_ofNat]
    omega
  have hdiff := headerSum_set_diff h.fits (i := 8) (by decide) (by decide)
    (Fin.ofNat 256 (ipTtl ip + 255))
  rw [hx, show weight 8 = 1 from rfl, Nat.one_mul, Nat.one_mul] at hdiff
  unfold vrIpDecrementTtl
  rw [hnew]
  exact h.update (vrIncrementalDiff_lt _ _ _) (ipHl_set (by decide) _) List.length_set hdiff

theorem vrInetSetTos_ok (h : HeaderOk ip) (tos : Byte) : HeaderOk (vrInetSetTos ip tos) := by
  have hdiff := headerSum_set_diff h.fits (i := 1) (by decide) (by decide) tos
  rw [show weight 1 = 2 ^ 8 from rfl, Nat.mul_comm, ← Nat.shiftLeft_eq, Nat.mul_comm,
    ← Nat.shiftLeft_eq] at hdiff
  unfold vrInetSetTos
  split_ifs
  · exact h
  · exact h.update (vrIncrementalDiff_lt _ _ _) (ipHl_set (by decide) _) List.length_set hdiff

theorem setFlowTtl_ok (h : HeaderOk ip) (feTtl : Byte) : HeaderOk (setFlowTtl ip feTtl) := by
  have hdiff := headerSum_set_diff h.fits (i := 8) (by decide) (by decide) feTtl
  rw [show weight 8 = 1 from rfl, Nat.one_mul, Nat.one_mul] at hdiff
  unfold setFlowTtl
  by_cases hset : feTtl ≠ 0 ∧ feTtl.val ≠ ipTtl ip
  · rw [if_pos hset]
    exact h.update_unless_zero (vrIncrementalDiff_lt _ _ _) (ipHl_set (by decide) _)
      List.length_set hdiff
  · rw [if_neg hset]
    exact h

/-! ### Translation -/

/-- **Translation leaves a header that verifies**, unless the packet is a diagnostic one. -/
theorem vrInetFlowNat_ok (fe : NatEntry) {rfe : VrFlow} (hrfe : FlowSized 4 rfe)
    (h : HeaderOk pkt.data) (hdiag : pkt.diag = false) :
    ∃ pkt', vrInetFlowNat fe (some rfe) pkt = some pkt' ∧ HeaderOk pkt'.data ∧
      pkt'.diag = false := by
  have hfive := h.fits.five_le
  have hlen := h.fits.le_length
  set ip₁ := natIcmp fe rfe pkt.data
  have hicmp : SameOutside (ipHl pkt.data * 4) (ipHl pkt.data * 4 + 72) pkt.data ip₁ :=
    natIcmp_same fe hrfe pkt.data
  have hhl₁ : ipHl ip₁ = ipHl pkt.data := ipHl_of_sameOutside hicmp (by omega)
  have hfits₁ := h.fits.of_ipHl hhl₁ hicmp.length
  have hlen₁ := hfits₁.le_length
  set addrs := natAddrs fe rfe ip₁
  have haddrs : Rewrites 12 20 ip₁ addrs.1 0 addrs.2 := natAddrs_rewrites hrfe (by omega)
  have hhl₂ : ipHl addrs.1 = ipHl ip₁ := ipHl_of_sameOutside haddrs.same (by decide)
  have hfits₂ := hfits₁.of_ipHl hhl₂ haddrs.same.length
  have hsum₂ := haddrs.headerSum hfits₁ (by decide) (by decide) (by decide) (by decide) (by omega)
    (by decide)
  set ports := natTransport fe rfe addrs.1 addrs.2
  have hports : SameOutside (ipHl addrs.1 * 4) (ipHl addrs.1 * 4 + 4) addrs.1 ports.1 :=
    natTransport_same fe rfe _ _
  have hhl₃ : ipHl ports.1 = ipHl addrs.1 := ipHl_of_sameOutside hports (by omega)
  have hnat : vrInetFlowNat fe (some rfe) pkt =
      some (vrIpUpdateCsum { pkt with data := ports.1 } addrs.2 ports.2) := by
    have hstep : vrInetFlowNat fe (some rfe) pkt =
      some (if pkt.diag then { pkt with data := ports.1 }
        else vrIpUpdateCsum { pkt with data := ports.1 } addrs.2 ports.2) := rfl
    rw [hstep, hdiag]
    rfl
  refine ⟨_, hnat, ?_, hdiag⟩
  refine vrIpUpdateCsum_ok h (haddrs.lt (by decide)) (hhl₃.trans (hhl₂.trans hhl₁)) ?_ ?_ rfl _
  · exact hports.length.trans (haddrs.same.length.trans hicmp.length)
  · rw [headerSum_of_sameOutside hfits₂ hports, hsum₂, headerSum_of_sameOutside h.fits hicmp,
      Nat.cast_zero, sub_zero]

/-! ### Sequences of edits -/

theorem Edit.apply_ok {e : Edit} (hsized : e.Sized) (h : HeaderOk pkt.data)
    (hdiag : pkt.diag = false) (happly : e.apply pkt = some pkt') :
    HeaderOk pkt'.data ∧ pkt'.diag = false := by
  cases e with
  | decrementTtl =>
    rw [Edit.apply] at happly
    split_ifs at happly with httl
    cases happly
    exact ⟨vrIpDecrementTtl_ok h httl, hdiag⟩
  | flowTtl feTtl =>
    cases happly
    exact ⟨setFlowTtl_ok h feTtl, hdiag⟩
  | setTos tos =>
    cases happly
    exact ⟨vrInetSetTos_ok h tos, hdiag⟩
  | nat fe rfe =>
    cases rfe with
    | none => cases happly
    | some rfe =>
      obtain ⟨pkt₁, hnat, hok, hdiag₁⟩ := vrInetFlowNat_ok fe hsized h hdiag
      cases hnat.symm.trans happly
      exact ⟨hok, hdiag₁⟩

theorem Edit.run_ok {edits : List Edit} (hsized : ∀ e ∈ edits, e.Sized) (h : HeaderOk pkt.data)
    (hdiag : pkt.diag = false) (hrun : Edit.run edits pkt = some pkt') :
    HeaderOk pkt'.data := by
  induction edits generalizing pkt with
  | nil =>
    cases hrun
    exact h
  | cons e edits ih =>
    obtain ⟨pkt₁, happly, hrest⟩ := Option.bind_eq_some_iff.mp hrun
    obtain ⟨hok, hdiag₁⟩ := Edit.apply_ok (hsized e List.mem_cons_self) h hdiag happly
    exact ih (fun e he => hsized e (List.mem_cons_of_mem _ he)) hok hdiag₁ hrest

instance (ip : List Byte) : Decidable (HeaderVerifies ip) := inferInstanceAs (Decidable (_ ∨ _))

/-- **A header that verifies does so after any sequence of edits**, unless the packet is a
diagnostic one. -/
theorem Edit.run_verifies {edits : List Edit} {pkt pkt' : VrPacket}
    (hsized : ∀ e ∈ edits, e.Sized) (hfits : HeaderFits pkt.data) (hdiag : pkt.diag = false)
    (hverifies : HeaderVerifies pkt.data) (hrun : Edit.run edits pkt = some pkt') :
    HeaderVerifies pkt'.data :=
  (Edit.run_ok hsized ⟨hfits, (headerVerifies_iff hfits).mp hverifies⟩ hdiag hrun).verifies

/-- A packet of TCP from 10.0.0.1 to 10.0.0.2, with the right checksum in its IPv4 header. -/
def tcpPacket : List Byte :=
  let ip : List Byte := [0x45, 0, 0, 40, 0, 1, 0, 0, 64, 6, 0, 0, 10, 0, 0, 1, 10, 0, 0, 2] ++
    [4, 0, 0, 80, 0, 0, 0, 0, 0, 0, 0, 0, 0x50, 0, 0, 0, 0, 0, 0, 0]
  set16 ip 10 (vrIpCsum ip)

/-- The flow of this packet is translated to the source 192.0.2.1. -/
def sourceNat : NatEntry :=
  ⟨⟨.inet, 7, 6, [10, 0, 0, 1], [10, 0, 0, 2], 4, 80 * 256⟩, true, false, false, false⟩

/-- Its reverse flow. -/
def reverseFlow : VrFlow := ⟨.inet, 7, 6, [10, 0, 0, 2], [192, 0, 2, 1], 80 * 256, 4⟩

/-- Translation does not update the checksum of a diagnostic packet. -/
theorem natted_diag :
    HeaderVerifies tcpPacket ∧
      (Edit.run [.nat sourceNat (some reverseFlow)] ⟨tcpPacket, false, true⟩).map
        (fun pkt => decide (HeaderVerifies pkt.data)) = some false := by
  decide +kernel

/-- The packet is forwarded, translated, and marked. -/
theorem Edit.run_verifies_forwarded :
    ∃ pkt', Edit.run [.decrementTtl, .nat sourceNat (some reverseFlow), .flowTtl 9, .setTos 40]
        ⟨tcpPacket, false, false⟩ = some pkt' ∧ HeaderVerifies pkt'.data := by
  have hrun : (Edit.run [.decrementTtl, .nat sourceNat (some reverseFlow), .flowTtl 9, .setTos 40]
      ⟨tcpPacket, false, false⟩).isSome = true := by decide +kernel
  obtain ⟨pkt', hpkt'⟩ := Option.isSome_iff_exists.mp hrun
  refine ⟨pkt', hpkt', Edit.run_verifies ?_ ⟨by decide +kernel, by decide +kernel⟩ rfl
    (by decide +kernel) hpkt'⟩
  intro e he
  simp only [List.mem_cons, List.not_mem_nil, or_false] at he
  rcases he with rfl | rfl | rfl | rfl
  · trivial
  · exact ⟨rfl, rfl, by decide, by decide⟩
  · trivial
  · trivial

end Vrouter.FlowNat
