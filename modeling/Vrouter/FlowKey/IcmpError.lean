import Vrouter.FlowKey.Mirror

/-! # The keys of ICMP errors

An ICMP error quotes the beginning of the packet that it is about, and belongs to the flow of that
packet, in the direction of the replies.  So its key should be that of a reply which comes the same way
(`formFlow_icmpError`).

The two versions turn the quoted packet around in different places.  For IPv4 the ports of a quoted ICMP
message stay where they are, as they do in a reply.  For IPv6 they are swapped like those of any other
protocol, and the error about a ping gets a key that no ping has (`icmpError_lost`).  For IPv4 only two
types of errors are taken for errors; a parameter problem, for one, has a key of its own. -/

namespace Vrouter.FlowKey

open Vrouter.Lib Vrouter.Mtrie Vrouter.Packet Vrouter.FatFlow

/-- The ICMP messages that quote a packet: destination unreachable, source quench, redirect, time
exceeded and parameter problem. -/
def icmpErrorTypes : List ℕ := [3, 4, 5, 11, 12]

/-- The packet is an ICMP error with its header. -/
def IsError : Version → List Byte → Prop
  | .v4, ip => vrIpTransportHeaderValid ip ∧ ipProto ip = vrIpProtoIcmp ∧
      icmpType (ipTransport ip) ∈ icmpErrorTypes
  | .v6, ip6 => vrIp6TransportHeaderValid ip6 ∧ ip6Proto ip6 = vrIpProtoIcmp6 ∧
      icmpType (ip6Transport ip6) < 128

instance : ∀ v ip, Decidable (IsError v ip)
  | .v4, _ => inferInstanceAs (Decidable (_ ∧ _ ∧ _))
  | .v6, _ => inferInstanceAs (Decidable (_ ∧ _ ∧ _))

/-- What an ICMP error quotes. -/
def quoted : Version → List Byte → List Byte
  | .v4, ip => (ipTransport ip).drop icmpHdrSize
  | .v6, ip6 => (ip6Transport ip6).drop icmpHdrSize

/-- The bytes are the beginning of a packet, as far as a key is formed from it. -/
structure Quotes (v : Version) (p q : List Byte) : Prop where
  plain : Plain v q
  headers : headers v q = headers v p

/-- The error is one that is filed under the packet it quotes, in the direction of the replies.  The
numbers in the places of the ports of an IPv6 echo message are swapped, which does no harm where they
are equal. -/
def Followed : Version → List Byte → List Byte → Prop
  | .v4, err, _ => vrIcmpError (ipTransport err)
  | .v6, _, p => ip6Proto p ≠ vrIpProtoIcmp6 ∨ echoId .v6 p = echoPort .v6

instance : ∀ v err p, Decidable (Followed v err p)
  | .v4, _, _ => inferInstanceAs (Decidable (_ = true))
  | .v6, _, _ => inferInstanceAs (Decidable (_ ∨ _))

variable {v : Version} {p q err reply : List Byte}

/-! ### Quotations -/

section start

variable {a b : List Byte} {k i n : ℕ}

section

variable (h : a.take k = b.take k)
include h

theorem u8_of_take_eq (hi : i < k) : u8 a i = u8 b i := by
  have hget : a[i]? = b[i]? := by
    rw [← List.getElem?_take_of_lt hi, h, List.getElem?_take_of_lt hi]
  unfold u8
  rw [List.getD_eq_getElem?_getD, List.getD_eq_getElem?_getD, hget]

theorem le16_of_take_eq (hi : i + 2 ≤ k) : le16 a i = le16 b i := by
  unfold le16
  rw [u8_of_take_eq h (show i < k by omega), u8_of_take_eq h (show i + 1 < k by omega)]

theorem drop_of_take_eq (n : ℕ) : (a.drop n).take (k - n) = (b.drop n).take (k - n) := by
  rw [← List.drop_take, ← List.drop_take, h]

theorem slice_of_take_eq (hi : i + n ≤ k) : slice a i n = slice b i n := by
  have hdrop := congrArg (List.take n) (drop_of_take_eq h i)
  rwa [List.take_take, List.take_take, Nat.min_eq_left (by omega)] at hdrop

end

end start

/-- How many bytes of a packet a key is formed from. -/
def keyBytes : Version → List Byte → ℕ
  | .v4, ip => max 20 (ipHl ip * 4 + icmpHdrSize)
  | .v6, ip6 => if ip6Nxt ip6 = vrIp6ProtoFrag then ip6HdrSize + ip6FragSize + icmpHdrSize
      else ip6HdrSize + icmpHdrSize

/-- What a key reads of a transport header. -/
structure SameTransport (t t' : List Byte) : Prop where
  type : icmpType t = icmpType t'
  eid : icmpEid t = icmpEid t'
  sport : le16 t 0 = le16 t' 0
  dport : le16 t 2 = le16 t' 2

theorem sameTransport_of_take_eq {t t' : List Byte} {k : ℕ} (h : t.take k = t'.take k)
    (hk : icmpHdrSize ≤ k) : SameTransport t t' := by
  have hsize : icmpHdrSize = 8 := rfl
  exact ⟨u8_of_take_eq h (by omega), le16_of_take_eq h (by omega), le16_of_take_eq h (by omega),
    le16_of_take_eq h (by omega)⟩

/-- A packet that begins as another one, as far as keys go, quotes it. -/
theorem quotes_of_take_eq {k : ℕ} (hp : Plain v p) (hk : keyBytes v p ≤ k)
    (h : q.take k = p.take k) : Quotes v p q := by
  have hsize : icmpHdrSize = 8 := rfl
  cases v with
  | v4 =>
    have h20 : 20 ≤ k := (le_max_left _ _).trans hk
    have hicmp : ipHl p * 4 + icmpHdrSize ≤ k := (le_max_right _ _).trans hk
    have hbyte := u8_of_take_eq h (show 0 < k by omega)
    have hhl : ipHl q = ipHl p := congrArg (· % 16) hbyte
    have hversion : ipVersion q = ipVersion p := congrArg (· / 16) hbyte
    have hproto : ipProto q = ipProto p := u8_of_take_eq h (by omega)
    have hoff : ipFragOff q = ipFragOff p := le16_of_take_eq h (by omega)
    have ht : SameTransport (ipTransport q) (ipTransport p) := by
      unfold ipTransport
      rw [hhl]
      exact sameTransport_of_take_eq (drop_of_take_eq h _) (by omega)
    have hports : inetPorts q = inetPorts p := by
      unfold inetPorts vrIcmpEcho
      dsimp only
      rw [hproto, ht.type, ht.eid, ht.sport, ht.dport]
    constructor
    · have herror : inetIcmpError q = inetIcmpError p := by
        unfold inetIcmpError vrIcmpError
        rw [hproto, ht.type]
      have hvalid : vrIpTransportHeaderValid q = vrIpTransportHeaderValid p := by
        unfold vrIpTransportHeaderValid vrIpIsIp4 ipOffset
        rw [hversion, hoff]
      exact ⟨hvalid.trans hp.1, by rw [herror]; exact hp.2⟩
    · have hsaddr : ipSaddr q = ipSaddr p := slice_of_take_eq h (by omega)
      have hdaddr : ipDaddr q = ipDaddr p := slice_of_take_eq h (by omega)
      simp only [headers, hproto, hsaddr, hdaddr, hports]
  | v6 =>
    have hhdr : ip6HdrSize = 40 := rfl
    have hfrag : ip6FragSize = 8 := rfl
    dsimp only [keyBytes] at hk
    have h48 : 48 ≤ k := by split_ifs at hk <;> omega
    have hnxt : ip6Nxt q = ip6Nxt p := u8_of_take_eq h (by omega)
    have hfnxt : ip6FragNxt q = ip6FragNxt p := u8_of_take_eq h (by omega)
    have hproto : ip6Proto q = ip6Proto p := by
      unfold ip6Proto
      rw [hnxt, hfnxt]
    have ht : SameTransport (ip6Transport q) (ip6Transport p) := by
      unfold ip6Transport
      rw [hnxt]
      split_ifs at hk ⊢
      · exact sameTransport_of_take_eq (drop_of_take_eq h _) (by omega)
      · exact sameTransport_of_take_eq (drop_of_take_eq h _) (by omega)
    have hports : inet6Ports q = inet6Ports p := by
      unfold inet6Ports
      dsimp only
      rw [hproto, ht.type, ht.eid, ht.sport, ht.dport]
    constructor
    · have hoff : ip6FragOffset q = ip6FragOffset p := le16_of_take_eq h (by omega)
      have hvalid : vrIp6TransportHeaderValid q = vrIp6TransportHeaderValid p := by
        unfold vrIp6TransportHeaderValid ip6Offset
        rw [hnxt, hoff]
      have herror : inet6IcmpError q = inet6IcmpError p := by
        unfold inet6IcmpError vrIcmp6Error
        rw [hproto, ht.type]
      have hneighbour : inet6Neighbour q = inet6Neighbour p := by
        unfold inet6Neighbour
        rw [hproto, ht.type]
      exact ⟨hvalid.trans hp.1, by rw [herror]; exact hp.2.1, by rw [hneighbour]; exact hp.2.2⟩
    · have hsrc : ip6Src q = ip6Src p := slice_of_take_eq h (by omega)
      have hdst : ip6Dst q = ip6Dst p := slice_of_take_eq h (by omega)
      simp only [headers, hproto, hsrc, hdst, hports]

/-! ### Errors -/

section

variable (tbl : FragmentTable) (vrf : ℕ) (pkt : PktMd) (custom : ℕ)

/-- An IPv4 error that is taken for one has the key of the quoted packet with its ends swapped, but the
numbers of an ICMP message stay. -/
theorem formFlow_error4 (herr : IsError .v4 err) (hq : Quotes .v4 p (quoted .v4 err))
    (h : vrIcmpError (ipTransport err)) {sport dport : ℕ} (hports : (sport, dport) =
      if ipProto p ≠ vrIpProtoIcmp then ((inetPorts p).2, (inetPorts p).1)
      else ((inetPorts p).1, (inetPorts p).2)) :
    (formFlow .v4 tbl vrf pkt err vrFlowKeyAll custom).1 =
      fatFlowKey pkt .inet (ipProto p) sport dport (ipDaddr p) (ipSaddr p) vrFlowKeyAll := by
  obtain ⟨hvalid, hproto, -⟩ := herr
  have herror : inetIcmpError err := by
    unfold inetIcmpError
    rw [decide_eq_true hproto]
    exact h
  have hpayload : inetPayloadFlow pkt (quoted .v4 err) vrFlowKeyAll = .key _ := if_neg hq.plain.2
  have hform : (formFlow .v4 tbl vrf pkt err vrFlowKeyAll custom).1 =
      vrInetProtoFlow pkt err vrFlowKeyAll := congrArg Prod.fst (if_pos hvalid)
  rw [hform, vrInetProtoFlow, if_pos herror]
  rw [show (ipTransport err).drop icmpHdrSize = quoted .v4 err from rfl, hpayload]
  obtain ⟨hqproto, hsaddr, hdaddr, hsport, hdport⟩ := Headers.mk.inj hq.headers
  simp only [fillFlow, vrFlowKeyAll, if_true, hqproto, hsaddr, hdaddr, hsport, hdport, ← hports]

/-- An IPv4 error that is not taken for one has a key of its own. -/
theorem formFlow_own4 (herr : IsError .v4 err) (h : ¬ vrIcmpError (ipTransport err)) :
    (formFlow .v4 tbl vrf pkt err vrFlowKeyAll custom).1 =
      fatFlowKey pkt .inet vrIpProtoIcmp 0 (icmpType (ipTransport err)) (ipSaddr err) (ipDaddr err)
        vrFlowKeyAll := by
  obtain ⟨hvalid, hproto, htype⟩ := herr
  have hplain : Plain .v4 err := ⟨hvalid, by
    unfold inetIcmpError
    rw [decide_eq_true hproto]
    exact h⟩
  have hecho : ¬ vrIcmpEcho (ipTransport err) := by
    unfold vrIcmpEcho
    simp only [icmpErrorTypes, List.mem_cons, List.not_mem_nil, or_false] at htype
    rcases htype with htype | htype | htype | htype | htype <;> rw [htype] <;> decide
  have hports : inetPorts err = (0, icmpType (ipTransport err)) :=
    (if_pos hproto).trans (if_neg hecho)
  rw [formFlow_plain hplain]
  simp only [headers, hproto, hports]
  rfl

/-- An IPv6 error has the key of the quoted packet with its ends swapped. -/
theorem formFlow_error6 (herr : IsError .v6 err) (hq : Quotes .v6 p (quoted .v6 err)) :
    (formFlow .v6 tbl vrf pkt err vrFlowKeyAll custom).1 =
      fatFlowKey pkt .inet6 (ip6Proto p) (inet6Ports p).2 (inet6Ports p).1 (ip6Dst p) (ip6Src p)
        vrFlowKeyAll := by
  obtain ⟨hvalid, hproto, htype⟩ := herr
  have herror : inet6IcmpError err := by
    unfold inet6IcmpError vrIcmp6Error
    rw [decide_eq_true hproto, decide_eq_true htype]
    rfl
  obtain ⟨hqvalid, hqerror, hneighbour⟩ := hq.plain
  have hform : (formFlow .v6 tbl vrf pkt err vrFlowKeyAll custom).1 =
      inet6PlainFlow pkt (quoted .v6 err) vrFlowKeyAll false := by
    simp only [formFlow, vrInet6FormFlow, hvalid, if_true, herror]
    change (inet6PayloadFlow tbl vrf pkt err (quoted .v6 err) vrFlowKeyAll custom).1 = _
    rw [inet6PayloadFlow, if_pos hqvalid, if_neg hqerror]
  rw [hform, inet6PlainFlow, if_neg hneighbour]
  obtain ⟨hqproto, hsrc, hdst, hsport, hdport⟩ := Headers.mk.inj hq.headers
  simp only [hqproto, hsrc, hdst, hsport, hdport]
  rfl

/-- The error is followed: it has the key of a reply under all rules. -/
theorem formFlow_followed (herr : IsError v err) (hq : Quotes v p (quoted v err))
    (hreply : Plain v reply) (hr : IsReply v p reply) (h : Followed v err p) :
    (formFlow v tbl vrf pkt err vrFlowKeyAll custom).1 =
      (formFlow v tbl vrf pkt reply vrFlowKeyAll custom).1 := by
  rw [formFlow_plain hreply, hr.proto, hr.saddr, hr.daddr]
  by_cases hproto : HasPorts (headers v p).proto
  · rw [(hr.ports hproto).1, (hr.ports hproto).2]
    cases v with
    | v4 =>
      have hicmp : ipProto p ≠ vrIpProtoIcmp := fun heq => by
        rw [show (headers .v4 p).proto = vrIpProtoIcmp from heq] at hproto
        exact absurd hproto (by decide)
      exact formFlow_error4 tbl vrf pkt custom herr hq h (if_pos hicmp).symm
    | v6 => exact formFlow_error6 tbl vrf pkt custom herr hq
  · rw [(hr.kept hproto).1, (hr.kept hproto).2]
    have hecho := (hr.echo hproto).1
    cases v with
    | v4 => exact formFlow_error4 tbl vrf pkt custom herr hq h (if_neg (not_not.mpr hecho.1)).symm
    | v6 =>
      have heq : (headers .v6 p).sport = (headers .v6 p).dport := by
        rw [hecho.ports.1, hecho.ports.2]
        exact h.resolve_left (not_not.mpr hecho.1)
      have herror := formFlow_error6 tbl vrf pkt custom herr hq
      rw [show (inet6Ports p).1 = (inet6Ports p).2 from heq] at herror
      rw [heq]
      exact herror

/-- No fat-flow rule of the interface applies. -/
def NoRules (pkt : PktMd) : Prop :=
  ∀ vif ∈ fatFlowVif pkt, ∀ proto, vif.fatFlow.fatFlowNumRules proto = 0

theorem fatFlowKey_noRules {pkt : PktMd} (h : NoRules pkt) (fam : Family) (proto sport dport : ℕ)
    (saddr daddr : List Byte) :
    fatFlowKey pkt fam proto sport dport saddr daddr vrFlowKeyAll =
      .key ⟨fam, vrInetFlowNexthop pkt, proto, saddr, daddr, sport, dport⟩ := by
  have hlookup : vrFlowFatFlowLookup pkt fam proto sport dport saddr daddr =
      some (noMask, saddr, daddr) := by
    unfold vrFlowFatFlowLookup
    cases hvif : fatFlowVif pkt with
    | none => rfl
    | some vif =>
      have hnone : ∀ incoming, vifFatFlowLookup incoming vif.fatFlow fam proto (ntohs sport)
          (ntohs dport) saddr daddr = some (noMask, saddr, daddr) := fun incoming => by
        unfold vifFatFlowLookup
        rw [if_pos (h vif hvif _), ite_self]
      dsimp only
      rw [hnone, Option.map_some]
      split_ifs <;> rfl
  rw [fatFlowKey, hlookup]
  rfl

/-- Without rules, an error that has the key of a reply is followed. -/
theorem followed_of_noRules {tbl : FragmentTable} {vrf : ℕ} {pkt : PktMd} {custom : ℕ}
    (hrules : NoRules pkt) (herr : IsError v err) (hq : Quotes v p (quoted v err))
    (hreply : Plain v reply) (hr : IsReply v p reply)
    (h : (formFlow v tbl vrf pkt err vrFlowKeyAll custom).1 =
      (formFlow v tbl vrf pkt reply vrFlowKeyAll custom).1) : Followed v err p := by
  rw [formFlow_plain hreply, fatFlowKey_noRules hrules] at h
  cases v with
  | v4 =>
    by_contra hunseen
    -- the key of an unseen error is one of an ICMP message that is no echo message
    rw [formFlow_own4 tbl vrf pkt custom herr hunseen, fatFlowKey_noRules hrules] at h
    obtain ⟨-, -, hproto, -, -, -, hdport⟩ := VrFlow.mk.inj (Formed.key.inj h)
    have hports : ¬ HasPorts (headers .v4 p).proto := by
      rw [← hr.proto, ← hproto]
      decide
    rw [(hr.echo hports).2.1.ports.2] at hdport
    have htype := herr.2.2
    rw [hdport] at htype
    exact absurd htype (by decide)
  | v6 =>
    by_cases hproto : ip6Proto p = vrIpProtoIcmp6
    · rw [formFlow_error6 tbl vrf pkt custom herr hq, fatFlowKey_noRules hrules] at h
      obtain ⟨-, -, -, -, -, hsport, -⟩ := VrFlow.mk.inj (Formed.key.inj h)
      have hports : ¬ HasPorts (headers .v6 p).proto := by
        rw [show (headers .v6 p).proto = vrIpProtoIcmp6 from hproto]
        decide
      obtain ⟨hecho, hecho', hid⟩ := hr.echo hports
      rw [hecho'.ports.1, hid] at hsport
      exact Or.inr (hsport.symm.trans hecho.ports.2)
    · exact Or.inl hproto

end

/-- **An ICMP error follows the flow that it reports on**: its key is that of a reply to the quoted
packet that comes the same way, whatever the rules and the interface are, exactly if it is one of the
errors that are `Followed`.  The others have another key than the reply on every interface without
rules. -/
theorem formFlow_icmpError (herr : IsError v err) (hq : Quotes v p (quoted v err))
    (hreply : Plain v reply) (hr : IsReply v p reply) :
    ((∀ tbl vrf pkt custom, (formFlow v tbl vrf pkt err vrFlowKeyAll custom).1 =
      (formFlow v tbl vrf pkt reply vrFlowKeyAll custom).1) ↔ Followed v err p) ∧
    ∀ tbl vrf pkt custom, NoRules pkt →
      ((formFlow v tbl vrf pkt err vrFlowKeyAll custom).1 =
        (formFlow v tbl vrf pkt reply vrFlowKeyAll custom).1 ↔ Followed v err p) := by
  have hplain : ∀ tbl vrf pkt custom, NoRules pkt →
      ((formFlow v tbl vrf pkt err vrFlowKeyAll custom).1 =
        (formFlow v tbl vrf pkt reply vrFlowKeyAll custom).1 ↔ Followed v err p) :=
    fun tbl vrf pkt custom hrules =>
      ⟨followed_of_noRules hrules herr hq hreply hr,
        formFlow_followed tbl vrf pkt custom herr hq hreply hr⟩
  refine ⟨⟨fun h => ?_, fun h tbl vrf pkt custom =>
    formFlow_followed tbl vrf pkt custom herr hq hreply hr h⟩, hplain⟩
  have hrules : NoRules (sent (portRules [])) := by
    rintro vif hvif proto
    obtain rfl : machineVif (portRules []) = vif := Option.some.inj hvif
    rfl
  exact (hplain (fun _ => none) 0 _ 0 hrules).mp (h _ _ _ _)

/-- A query from port 1024 to port 123 of another machine. -/
def query : List Byte := packet4 17 1 2 [4, 0, 0, 123, 0, 8, 0, 0]

/-- An ICMP message of a router to the machine that sent the query, with the query in it. -/
def aboutQuery (type : Byte) : List Byte :=
  packet4 1 9 1 ([type, 0, 0, 0, 0, 0, 0, 0] ++ query.take 28)

/-- The answer to the query, and the news that port 123 cannot be reached. -/
theorem formFlow_icmpError_unreachable :
    (formFlow .v4 (fun _ => none) 0 (received (portRules [17 * 2 ^ 16 + 123])) (aboutQuery 3)
        vrFlowKeyAll 0).1 =
      (formFlow .v4 (fun _ => none) 0 (received (portRules [17 * 2 ^ 16 + 123]))
        (packet4 17 2 1 [0, 123, 4, 0]) vrFlowKeyAll 0).1 :=
  (formFlow_icmpError (p := query) (by decide)
    (quotes_of_take_eq (k := 28) (by decide) (by decide) (by decide)) (by decide)
    ⟨by decide, by decide, by decide, by decide, by decide⟩).1.mpr (by decide) _ _ _ _

/-- The packet from `fd00::src` to `fd00::dst`. -/
def packet6 (proto src dst : Byte) (transport : List Byte) : List Byte :=
  [0x60, 0, 0, 0, 0, 8, proto, 64] ++ [0xfd, 0, 0, 0, 0, 0, 0, 0, 0, 0, 0, 0, 0, 0, 0, src] ++
    [0xfd, 0, 0, 0, 0, 0, 0, 0, 0, 0, 0, 0, 0, 0, 0, dst] ++ transport

/-- A ping with identifier 5. -/
def ping6 : List Byte := packet6 58 1 2 [128, 0, 0, 0, 0, 5, 0, 1]

/-- The error about an IPv6 ping has another key than its reply, and so has the parameter problem about
an IPv4 query. -/
theorem icmpError_lost :
    ((formFlow .v6 (fun _ => none) 0 (received (portRules []))
        (packet6 58 9 1 ([1, 0, 0, 0, 0, 0, 0, 0] ++ ping6)) vrFlowKeyAll 0).1 =
      .key ⟨.inet6, 7, 58, ip6Dst ping6, ip6Src ping6, 129 * 256, 5 * 256⟩ ∧
    (formFlow .v6 (fun _ => none) 0 (received (portRules []))
        (packet6 58 2 1 [129, 0, 0, 0, 0, 5, 0, 1]) vrFlowKeyAll 0).1 =
      .key ⟨.inet6, 7, 58, ip6Dst ping6, ip6Src ping6, 5 * 256, 129 * 256⟩) ∧
    (formFlow .v4 (fun _ => none) 0 (received (portRules [])) (aboutQuery 12) vrFlowKeyAll 0).1 =
      .key ⟨.inet, 7, 1, [10, 0, 0, 9], [10, 0, 0, 1], 0, 12⟩ ∧
    (formFlow .v4 (fun _ => none) 0 (received (portRules [])) (packet4 17 2 1 [0, 123, 4, 0])
        vrFlowKeyAll 0).1 =
      .key ⟨.inet, 7, 17, [10, 0, 0, 2], [10, 0, 0, 1], 123 * 256, 4⟩ := by
  decide +kernel

end Vrouter.FlowKey
