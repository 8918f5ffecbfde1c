import Vrouter.FlowNat.Valid

/-! # There and back

A flow that translates addresses and ports has a reverse flow, whose key holds what is written into
the packets of the first, and the other way round.  For the 5-tuple of a packet the two functions
compute one translation, `Tuple.nat` (`flowNat_tuple`): it replaces the source by the destination of the
key of the reverse flow, and the destination by its source, as far as the flags say so.

If the flags of the two flows are each other's mirror image, and their keys are in all that no flag
translates (`Mirrors`), the translations are inverse to each other: a translated packet is the mirror
image of the key of the reverse flow, and its reply is translated to a reply to the packet itself
(`flowNat_roundTrip`). -/

namespace Vrouter.FlowNat

open Vrouter.Lib Vrouter.Packet Vrouter.FlowKey

/-! ### Tuples -/

/-- The 5-tuple of a packet or of a flow. -/
@[ext]
structure Tuple where
  src : List Byte
  dst : List Byte
  proto : ℕ
  sport : ℕ
  dport : ℕ
  deriving DecidableEq, Repr

/-- The tuple of a reply. -/
def Tuple.mirror (t : Tuple) : Tuple := ⟨t.dst, t.src, t.proto, t.dport, t.sport⟩

/-- The tuple of a packet. -/
def tuple (v : Version) (ip : List Byte) : Tuple where
  src := slice ip (addrsAt v) (addrLen v)
  dst := slice ip (addrsAt v + addrLen v) (addrLen v)
  proto := protoOf v ip
  sport := le16 ip (transportAt v ip)
  dport := le16 ip (transportAt v ip + 2)

/-- The tuple of a key. -/
def keyTuple (k : VrFlow) : Tuple := ⟨k.sip, k.dip, k.proto, k.sport, k.dport⟩

/-- The addresses are translated. -/
def Tuple.natAddrs (fe : NatEntry) (rfe : VrFlow) (t : Tuple) : Tuple :=
  { t with
    src := if fe.snat && decide (t.src = fe.feKey.sip) then rfe.dip else t.src
    dst := if fe.dnat then rfe.sip else t.dst }

/-- The ports are translated. -/
def Tuple.natPorts (fe : NatEntry) (rfe : VrFlow) (t : Tuple) : Tuple :=
  { t with
    sport := if fe.spat then rfe.dport else t.sport
    dport := if fe.dpat then rfe.sport else t.dport }

/-- **What a translation does to a tuple.** -/
def Tuple.nat (fe : NatEntry) (rfe : VrFlow) (t : Tuple) : Tuple := (t.natAddrs fe rfe).natPorts fe rfe

/-- The flags of the flows are each other's mirror image, and their keys are in all that no flag of
the first one translates. -/
structure Mirrors (fe rfe : NatEntry) : Prop where
  snat : rfe.snat = fe.dnat
  dnat : rfe.dnat = fe.snat
  spat : rfe.spat = fe.dpat
  dpat : rfe.dpat = fe.spat
  proto : rfe.feKey.proto = fe.feKey.proto
  dip : fe.snat = false → rfe.feKey.dip = fe.feKey.sip
  sip : fe.dnat = false → rfe.feKey.sip = fe.feKey.dip
  dport : fe.spat = false → rfe.feKey.dport = fe.feKey.sport
  sport : fe.dpat = false → rfe.feKey.sport = fe.feKey.dport

theorem ite_eq_of_false {α : Type} {b : Bool} {x y : α} (h : b = false → y = x) :
    (if b = true then x else y) = x := by
  cases b with
  | false => exact h rfl
  | true => rfl

variable {fe rfe : NatEntry}

/-- A packet of the flow becomes the mirror image of the reverse key. -/
theorem Mirrors.nat_keyTuple (h : Mirrors fe rfe) :
    (keyTuple fe.feKey).nat fe rfe.feKey = (keyTuple rfe.feKey).mirror := by
  refine Tuple.ext ?_ ?_ h.proto.symm ?_ ?_
  · simp only [Tuple.nat, Tuple.natAddrs, Tuple.natPorts, keyTuple, decide_true, Bool.and_true]
    exact ite_eq_of_false fun hf => (h.dip hf).symm
  · exact ite_eq_of_false fun hf => (h.sip hf).symm
  · exact ite_eq_of_false fun hf => (h.dport hf).symm
  · exact ite_eq_of_false fun hf => (h.sport hf).symm

theorem Mirrors.symm (h : Mirrors fe rfe) : Mirrors rfe fe where
  snat := h.dnat.symm
  dnat := h.snat.symm
  spat := h.dpat.symm
  dpat := h.spat.symm
  proto := h.proto.symm
  dip hf := (h.sip (h.snat ▸ hf)).symm
  sip hf := (h.dip (h.dnat ▸ hf)).symm
  dport hf := (h.sport (h.spat ▸ hf)).symm
  sport hf := (h.dport (h.dpat ▸ hf)).symm

/-! ### Writes to the fields of a tuple -/

section Writes

variable {v : Version} {ip ip' rest xs : List Byte} {lo hi w : ℕ}

theorem tuple_eq_of_sameOutside {x : Tuple} (hsame : SameOutside lo hi ip ip') (hlo : fixedLen v ≤ lo)
    (hsrc : slice ip' (addrsAt v) (addrLen v) = x.src)
    (hdst : slice ip' (addrsAt v + addrLen v) (addrLen v) = x.dst) (hproto : protoOf v ip = x.proto)
    (hsport : le16 ip' (transportAt v ip) = x.sport)
    (hdport : le16 ip' (transportAt v ip + 2) = x.dport) : tuple v ip' = x := by
  have hlayout := sameLayout_of_sameOutside hsame hlo
  rw [← hlayout.transportAt] at hsport hdport
  exact Tuple.ext hsrc hdst (hlayout.protoOf.trans hproto) hsport hdport

section

variable (h : Whole v ip rest)
include h

theorem tuple_of_sameOutside (hsame : SameOutside lo hi ip ip')
    (hlo : fixedLen v ≤ lo) (hout : hi ≤ addrsAt v ∨ transportAt v ip + 4 ≤ lo) :
    tuple v ip' = tuple v ip := by
  have hle := h.addrs_le
  exact tuple_eq_of_sameOutside hsame hlo (hsame.slice (by omega)) (hsame.slice (by omega)) rfl
    (hsame.le16 (by omega)) (hsame.le16 (by omega))

theorem whole_length : transportAt v ip + 8 ≤ ip.length := by
  have hheader := h.header
  have hlength := h.length
  have hmin : 8 ≤ transportHdrLen (protoOf v ip) := by
    unfold transportHdrLen
    split_ifs <;> decide
  omega

theorem tuple_setSrc (hxs : xs.length = addrLen v) :
    tuple v (setBytes ip (addrsAt v) xs) = { tuple v ip with src := xs } := by
  have hsame := setBytes_sameOutside ip (addrsAt v) xs
  have hle := h.addrs_le
  have hlen := whole_length h
  exact tuple_eq_of_sameOutside hsame (fixedLen_le v) (slice_setBytes hxs (by omega))
    (hsame.slice (by omega)) rfl (hsame.le16 (by omega)) (hsame.le16 (by omega))

theorem tuple_setDst (hxs : xs.length = addrLen v) :
    tuple v (setBytes ip (addrsAt v + addrLen v) xs) = { tuple v ip with dst := xs } := by
  have hsame := setBytes_sameOutside ip (addrsAt v + addrLen v) xs
  have hle := h.addrs_le
  have hlen := whole_length h
  exact tuple_eq_of_sameOutside hsame ((fixedLen_le v).trans (Nat.le_add_right _ _))
    (hsame.slice (by omega)) (slice_setBytes hxs (by omega)) rfl (hsame.le16 (by omega))
    (hsame.le16 (by omega))

theorem tuple_setSport (hw : w < 2 ^ 16) :
    tuple v (set16 ip (transportAt v ip) w) = { tuple v ip with sport := w } := by
  have hsame := set16_sameOutside ip (transportAt v ip) w
  have hle := h.addrs_le
  have hfixed := fixedLen_le v
  have hlen := whole_length h
  exact tuple_eq_of_sameOutside hsame (by omega) (hsame.slice (by omega)) (hsame.slice (by omega)) rfl
    (le16_set16_self (by omega) hw) (hsame.le16 (by omega))

theorem tuple_setDport (hw : w < 2 ^ 16) :
    tuple v (set16 ip (transportAt v ip + 2) w) = { tuple v ip with dport := w } := by
  have hsame := set16_sameOutside ip (transportAt v ip + 2) w
  have hle := h.addrs_le
  have hfixed := fixedLen_le v
  have hlen := whole_length h
  exact tuple_eq_of_sameOutside hsame (by omega) (hsame.slice (by omega)) (hsame.slice (by omega)) rfl
    (hsame.le16 (by omega)) (le16_set16_self (by omega) hw)

end

end Writes

/-! ### The steps of a translation -/

section Steps

variable {v : Version} {ip rest : List Byte} {r : VrFlow}

/-- The addresses of both versions: the source, then the destination. -/
def writeAddrs (v : Version) (fe : NatEntry) (r : VrFlow) (ip : List Byte) : List Byte :=
  let ip := if srcChanges v fe ip then setBytes ip (addrsAt v) r.dip else ip
  if fe.dnat then setBytes ip (addrsAt v + addrLen v) r.sip else ip

theorem natAddrs_eq_writeAddrs : (natAddrs fe r ip).1 = writeAddrs .v4 fe r ip := by
  have hcond : (fe.snat && decide (ipSaddr ip = fe.feKey.sip)) = srcChanges .v4 fe ip := rfl
  unfold natAddrs writeAddrs
  rw [hcond]
  cases srcChanges .v4 fe ip <;> cases fe.dnat <;> rfl

theorem nat6Addrs_eq_writeAddrs : (nat6Addrs fe r ip).1 = writeAddrs .v6 fe r ip := by
  have hcond : (fe.snat && decide (ip6Src ip = fe.feKey.sip)) = srcChanges .v6 fe ip := rfl
  unfold nat6Addrs writeAddrs
  rw [hcond]
  cases srcChanges .v6 fe ip <;> cases fe.dnat <;> rfl

/-- A write to the addresses or behind them leaves the packet whole. -/
theorem Whole.of_write {ip' : List Byte} {lo hi : ℕ} (h : Whole v ip rest)
    (hsame : SameOutside lo hi ip ip') (hlo : addrsAt v ≤ lo) : Whole v ip' rest :=
  h.of_sameLayout (sameLayout_of_sameOutside hsame ((fixedLen_le v).trans hlo))

theorem writeAddrs_tuple (fe : NatEntry) (hr : FlowSized (addrLen v) r) (h : Whole v ip rest) :
    tuple v (writeAddrs v fe r ip) = (tuple v ip).natAddrs fe r ∧
      Whole v (writeAddrs v fe r ip) rest := by
  have hsrc : tuple v (if srcChanges v fe ip then setBytes ip (addrsAt v) r.dip else ip) =
      { tuple v ip with src := if srcChanges v fe ip then r.dip else (tuple v ip).src } ∧
      Whole v (if srcChanges v fe ip then setBytes ip (addrsAt v) r.dip else ip) rest := by
    split_ifs
    · exact ⟨tuple_setSrc h hr.dip, h.of_write (setBytes_sameOutside _ _ _) le_rfl⟩
    · exact ⟨rfl, h⟩
  unfold writeAddrs
  dsimp only
  generalize (if srcChanges v fe ip then setBytes ip (addrsAt v) r.dip else ip) = ip₁ at hsrc
  cases hdnat : fe.dnat with
  | false =>
    refine ⟨?_, hsrc.2⟩
    simp only [Bool.false_eq_true, if_false, hsrc.1, Tuple.natAddrs, hdnat]
    rfl
  | true =>
    refine ⟨?_, hsrc.2.of_write (setBytes_sameOutside _ _ _) (Nat.le_add_right _ _)⟩
    simp only [if_true, tuple_setDst hsrc.2 hr.sip, hsrc.1, Tuple.natAddrs, hdnat]
    rfl

theorem natPorts_tuple {n : ℕ} (fe : NatEntry) (inc : ℕ) (hr : FlowSized n r) (h : Whole v ip rest) :
    tuple v (natPorts fe r (transportAt v ip) ip inc).1 = (tuple v ip).natPorts fe r ∧
      Whole v (natPorts fe r (transportAt v ip) ip inc).1 rest := by
  have hle := h.addrs_le
  refine ⟨?_, h.of_write (natPorts_same fe r _ _ _) (by omega)⟩
  have hlayout := (sameLayout_of_sameOutside (v := v) (set16_sameOutside ip (transportAt v ip) r.dport)
    (by have := fixedLen_le v; omega))
  have hdport := tuple_setDport (h.of_sameLayout hlayout) hr.sport
  rw [hlayout.transportAt] at hdport
  cases hspat : fe.spat <;> cases hdpat : fe.dpat <;>
    simp only [FlowNat.natPorts, Tuple.natPorts, hspat, hdpat, if_true, Bool.false_eq_true, if_false,
      tuple_setSport h hr.dport, tuple_setDport h hr.sport, hdport]

variable {pkt : VrPacket}

theorem vrIpUpdateCsum_tuple {ipInc inc : ℕ} (h : Whole .v4 pkt.data rest)
    (hports : HasPorts .v4 pkt.data) :
    tuple .v4 (vrIpUpdateCsum pkt ipInc inc).data = tuple .v4 pkt.data := by
  unfold vrIpUpdateCsum
  dsimp only
  set ip := if ipInc ≠ 0 then vrIpIncrementalCsum pkt.data ipInc else pkt.data
  have hsame : SameOutside 10 12 pkt.data ip :=
    SameOutside.ite (fun _ => set16_sameOutside _ _ _) fun _ => .refl _ _ _
  have hlayout := sameLayout_of_sameOutside (v := .v4) hsame le_rfl
  have hwhole := h.of_sameLayout hlayout
  have hip : tuple .v4 ip = tuple .v4 pkt.data := tuple_of_sameOutside h hsame le_rfl (.inl le_rfl)
  have hports' := hports.of_sameLayout hlayout
  have hpos : csumPos (ipProto ip) (ipHl ip * 4) = some _ := hports'.csumPos (ipHl ip * 4)
  have hoff := hports'.csumOffset
  have hle := hwhole.addrs_le
  have hwrite : ∀ w, tuple .v4 (set16 ip (ipHl ip * 4 + csumOffset (protoOf .v4 ip)) w) =
      tuple .v4 pkt.data := by
    intro w
    refine (tuple_of_sameOutside hwhole (set16_sameOutside _ _ _) ?_ (.inr ?_)).trans hip
    · simp only [transportAt, addrsAt, addrLen, fixedLen] at hle ⊢
      omega
    · exact Nat.add_le_add_left hoff _
  rw [hpos]
  simp only [hwhole.transportHeaderValid, if_true]
  by_cases hzero : ipProto ip = vrIpProtoUdp ∧
      le16 ip (ipHl ip * 4 + csumOffset (protoOf .v4 ip)) = 0
  · rw [if_pos hzero]
    exact hip
  · rw [if_neg hzero]
    exact hwrite _

theorem vrIp6UpdateCsum_tuple {ipInc portInc : ℕ} (h : Whole .v6 pkt.data rest)
    (hports : HasPorts .v6 pkt.data) :
    tuple .v6 (vrIp6UpdateCsum pkt ipInc portInc).data = tuple .v6 pkt.data := by
  have hpos : csumPos (ip6Nxt pkt.data) ip6HdrSize = some _ := hports.csumPos ip6HdrSize
  have hoff := hports.csumOffset
  unfold vrIp6UpdateCsum
  dsimp only
  rw [hpos]
  simp only
  split_ifs
  · rfl
  · refine tuple_of_sameOutside h (set16_sameOutside _ _ _) ?_ (.inr ?_)
    · simp only [fixedLen, ip6HdrSize]
      omega
    · exact Nat.add_le_add_left hoff _
  · rfl

theorem HasPorts.of_proto {ip' : List Byte} (h : HasPorts v ip) (hproto : protoOf v ip' = protoOf v ip) :
    HasPorts v ip' := by
  rwa [HasPorts, hproto]

theorem vrInetFlowNat_tuple (hr : FlowSized 4 r) (h : Whole .v4 pkt.data rest)
    (hports : HasPorts .v4 pkt.data) : ∃ pkt', vrInetFlowNat fe (some r) pkt = some pkt' ∧
      tuple .v4 pkt'.data = (tuple .v4 pkt.data).nat fe r := by
  obtain ⟨haddrs, hwhole⟩ := writeAddrs_tuple (v := .v4) fe hr h
  have hports₁ := hports.of_proto (congrArg Tuple.proto haddrs)
  rw [← natAddrs_eq_writeAddrs] at haddrs hwhole hports₁
  have htransport : ∀ inc, natTransport fe r (natAddrs fe r pkt.data).1 inc =
      natPorts fe r (transportAt .v4 (natAddrs fe r pkt.data).1) (natAddrs fe r pkt.data).1 inc :=
    fun inc => if_pos hwhole.transportHeaderValid
  have hnat := vrInetFlowNat_some fe r pkt
  rw [natIcmp_of_hasPorts hports] at hnat
  simp only [htransport] at hnat
  refine ⟨_, hnat, ?_⟩
  obtain ⟨htuple, hwhole₂⟩ :=
    natPorts_tuple fe (natAddrs fe r pkt.data).2 hr hwhole
  have hports₂ := hports₁.of_proto (congrArg Tuple.proto htuple)
  rw [Tuple.nat, ← haddrs, ← htuple]
  cases pkt.diag with
  | true => rfl
  | false => exact vrIpUpdateCsum_tuple hwhole₂ hports₂

theorem vrInet6FlowNat_tuple (hr : FlowSized 16 r) (h : Whole .v6 pkt.data rest)
    (hports : HasPorts .v6 pkt.data) : ∃ pkt', vrInet6FlowNat fe (some r) pkt = some pkt' ∧
      tuple .v6 pkt'.data = (tuple .v6 pkt.data).nat fe r := by
  obtain ⟨haddrs, hwhole⟩ := writeAddrs_tuple (v := .v6) fe hr h
  have hports₁ := hports.of_proto (congrArg Tuple.proto haddrs)
  rw [← nat6Addrs_eq_writeAddrs] at haddrs hwhole hports₁
  have htransport : nat6Transport fe r (nat6Addrs fe r pkt.data).1 =
      natPorts fe r (transportAt .v6 (nat6Addrs fe r pkt.data).1) (nat6Addrs fe r pkt.data).1 0 :=
    if_pos hports₁.transportHeaderValid6
  have hnat := vrInet6FlowNat_some fe r pkt
  rw [nat6Icmp_of_hasPorts hports] at hnat
  simp only [htransport] at hnat
  refine ⟨_, hnat, ?_⟩
  obtain ⟨htuple, hwhole₂⟩ := natPorts_tuple fe 0 hr hwhole
  have hports₂ := hports₁.of_proto (congrArg Tuple.proto htuple)
  rw [Tuple.nat, ← haddrs, ← htuple]
  by_cases hdiag : pkt.diag = true
  · rw [if_pos hdiag]
    exact congrArg (fun p : VrPacket => tuple .v6 p.data) (nat6IcmpCsum_of_hasPorts hports₂)
  · rw [if_neg hdiag]
    have hcsum : ∀ ipInc portInc, tuple .v6 (vrIp6UpdateCsum { pkt with data := (natPorts fe r
        (transportAt .v6 (nat6Addrs fe r pkt.data).1) (nat6Addrs fe r pkt.data).1 0).1 }
        ipInc portInc).data = _ := fun _ _ => vrIp6UpdateCsum_tuple hwhole₂ hports₂
    have hports₃ := fun ipInc portInc =>
      hports₂.of_proto (congrArg Tuple.proto (hcsum ipInc portInc))
    rw [nat6IcmpCsum_of_hasPorts (hports₃ _ _)]
    exact hcsum _ _

/-- **What the two functions do to a tuple.** -/
theorem flowNat_tuple (fe : NatEntry) (hr : FlowSized (addrLen v) r) (h : Whole v pkt.data rest)
    (hports : HasPorts v pkt.data) : ∃ pkt', flowNat v fe (some r) pkt = some pkt' ∧
      tuple v pkt'.data = (tuple v pkt.data).nat fe r := by
  cases v with
  | v4 => exact vrInetFlowNat_tuple hr h hports
  | v6 => exact vrInet6FlowNat_tuple hr h hports

end Steps

/-! ### There and back -/

theorem flowSized_of_tuple {v : Version} {ip rest : List Byte} {k : VrFlow} (h : Whole v ip rest)
    (hkey : tuple v ip = keyTuple k) : FlowSized (addrLen v) k := by
  have hle := h.addrs_le
  have hlen := whole_length h
  refine ⟨?_, ?_, ?_, ?_⟩
  · rw [← show (tuple v ip).src = k.sip from congrArg Tuple.src hkey]
    exact slice_length (by omega)
  · rw [← show (tuple v ip).dst = k.dip from congrArg Tuple.dst hkey]
    exact slice_length (by omega)
  · rw [← show (tuple v ip).sport = k.sport from congrArg Tuple.sport hkey]
    exact le16_lt _ _
  · rw [← show (tuple v ip).dport = k.dport from congrArg Tuple.dport hkey]
    exact le16_lt _ _

/-- **The round trip of a translation**: a packet of the flow becomes the mirror image of the key of
the reverse flow, and a reply to the translated packet is translated to a reply to the packet. -/
theorem flowNat_roundTrip (v : Version) (fe rfe : NatEntry) (pkt : VrPacket) (rest : List Byte)
    (hwhole : Whole v pkt.data rest) (hports : HasPorts v pkt.data)
    (hkey : tuple v pkt.data = keyTuple fe.feKey) (hrfe : FlowSized (addrLen v) rfe.feKey)
    (hmirrors : Mirrors fe rfe) :
    ∃ pkt', flowNat v fe (some rfe.feKey) pkt = some pkt' ∧
      (tuple v pkt'.data).mirror = keyTuple rfe.feKey ∧
      ∀ (reply : VrPacket) (rest' : List Byte), Whole v reply.data rest' →
        tuple v reply.data = (tuple v pkt'.data).mirror →
        ∃ reply', flowNat v rfe (some fe.feKey) reply = some reply' ∧
          tuple v reply'.data = (tuple v pkt.data).mirror := by
  obtain ⟨pkt', hnat, htuple⟩ := flowNat_tuple fe hrfe hwhole hports
  rw [hkey, hmirrors.nat_keyTuple] at htuple
  have hmirror : (tuple v pkt'.data).mirror = keyTuple rfe.feKey := by
    rw [htuple]
    rfl
  refine ⟨pkt', hnat, hmirror, fun reply rest' hwhole' hreply => ?_⟩
  rw [hmirror] at hreply
  have hproto : protoOf v reply.data = protoOf v pkt.data := by
    have hr : protoOf v reply.data = rfe.feKey.proto := congrArg Tuple.proto hreply
    have hp : protoOf v pkt.data = fe.feKey.proto := congrArg Tuple.proto hkey
    rw [hr, hp, hmirrors.proto]
  obtain ⟨reply', hnat', htuple'⟩ :=
    flowNat_tuple rfe (flowSized_of_tuple hwhole hkey) hwhole' (hports.of_proto hproto)
  refine ⟨reply', hnat', ?_⟩
  rw [htuple', hreply, hmirrors.symm.nat_keyTuple, hkey]

/-- The reverse flow of `udpFlow` when it translates everything. -/
def udpReverse : NatEntry :=
  ⟨⟨.inet, 7, 17, [10, 0, 0, 3], [192, 0, 2, 1], 81 * 256, 5⟩, true, true, true, true⟩

/-- The reply to the translated packet, from 10.0.0.3 to 192.0.2.1. -/
def udpReply : List Byte :=
  [0x45, 0, 0, 28, 0, 1, 0, 0, 64, 17, 0, 0, 10, 0, 0, 3, 192, 0, 2, 1] ++
    [0, 81, 5, 0, 0, 8, 0, 0]

theorem flowNat_roundTrip_udp :
    tuple .v4 udpPacket = keyTuple (udpFlow true true true true).feKey ∧
    ∃ pkt', flowNat .v4 (udpFlow true true true true) (some udpReverse.feKey)
        ⟨udpPacket, false, false⟩ = some pkt' ∧ tuple .v4 udpReply = (tuple .v4 pkt'.data).mirror ∧
      ∃ reply', flowNat .v4 udpReverse (some (udpFlow true true true true).feKey)
          ⟨udpReply, false, false⟩ = some reply' ∧
        tuple .v4 reply'.data = (tuple .v4 udpPacket).mirror := by
  have hkey : tuple .v4 udpPacket = keyTuple (udpFlow true true true true).feKey := by decide +kernel
  have hwhole : Whole .v4 udpPacket [] :=
    ⟨.inr (.inl (by decide +kernel)), by decide +kernel, by decide +kernel, by decide +kernel⟩
  have hwhole' : Whole .v4 udpReply [] :=
    ⟨.inr (.inl (by decide +kernel)), by decide +kernel, by decide +kernel, by decide +kernel⟩
  obtain ⟨pkt', hnat, hmirror, hback⟩ := flowNat_roundTrip .v4 (udpFlow true true true true) udpReverse
    ⟨udpPacket, false, false⟩ [] hwhole (.inr (by decide +kernel)) hkey
    ⟨rfl, rfl, by decide, by decide⟩ ⟨rfl, rfl, rfl, rfl, rfl, nofun, nofun, nofun, nofun⟩
  have hreply : tuple .v4 udpReply = (tuple .v4 pkt'.data).mirror := by
    rw [hmirror]
    decide +kernel
  exact ⟨hkey, pkt', hnat, hreply, hback ⟨udpReply, false, false⟩ [] hwhole' hreply⟩

end Vrouter.FlowNat
