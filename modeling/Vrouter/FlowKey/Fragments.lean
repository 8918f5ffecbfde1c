import Vrouter.FlowKey.IcmpError
import Vrouter.Lib.Reach

/-! # The fragments of a datagram

The key of the first fragment comes from its headers, those of the others from the fragment table
and the addresses as they are.  What the table does is small: an entry that is still there has the
ports it was made with (`PortsKept`, for each operation and then for a step of the system).  So the
ports agree with the key of the first fragment if the entry is its own; the addresses do where the
rules of the interface leave them alone.  `fragments_one_flow` puts the two together for every run
in which the entry is not deleted. -/

namespace Vrouter.FlowKey

open Vrouter.Lib Vrouter.Mtrie Vrouter.Packet Vrouter.FatFlow Function

/-! ### What the fragment table keeps -/

/-- The entries that are still there have their ports. -/
def PortsKept (tbl tbl' : FragmentTable) : Prop :=
  ∀ key frag frag', tbl key = some frag → tbl' key = some frag' →
    frag'.fSport = frag.fSport ∧ frag'.fDport = frag.fDport

theorem PortsKept.refl (tbl : FragmentTable) : PortsKept tbl tbl := by
  intro key frag frag' h h'
  obtain rfl : frag = frag' := Option.some.inj (h.symm.trans h')
  exact ⟨rfl, rfl⟩

variable {tbl tbl' : FragmentTable} {key : FragmentKey} {frag : VrFragment} {vrf : ℕ}
  {ip : List Byte} {rules : FatFlowRules} {fam : Family} {pkt : PktMd} {v : Version} {flow : VrFlow}

theorem fragmentSeen_portsKept (hfrag : tbl key = some frag) (len : ℤ) (tail : Option ℤ) :
    PortsKept tbl (fragmentSeen tbl key frag len tail) := by
  intro key' f f' h h'
  by_cases hkey : key' = key
  · subst hkey
    obtain rfl : frag = f := Option.some.inj (hfrag.symm.trans h)
    simp only [fragmentSeen, update_self] at h'
    split_ifs at h'
    cases h'
    exact ⟨rfl, rfl⟩
  · simp only [fragmentSeen, update_of_ne hkey] at h'
    exact PortsKept.refl tbl key' f f' h h'

theorem vrFragmentGet_eq_some {custom : ℕ}
    (h : vrFragmentGet tbl vrf ip custom = some (some (key, frag))) : tbl key = some frag := by
  have found : ∀ k, (tbl k).map (fun f => (k, f)) = some (key, frag) → tbl key = some frag := by
    intro k hk
    obtain ⟨f, hf, heq⟩ := Option.map_eq_some_iff.mp hk
    cases heq
    exact hf
  simp only [vrFragmentGet] at h
  split_ifs at h
  · exact found _ (Option.some.inj h)
  · exact found _ (Option.some.inj h)
  · cases Option.some.inj h

variable {pkt : PktMd} {ip ip' : List Byte} {p : FkeyParams} {custom proto : ℕ} {allocOk : Bool}

theorem vrInetFragmentFlow_portsKept :
    PortsKept tbl (vrInetFragmentFlow tbl vrf pkt ip p custom).2 := by
  unfold vrInetFragmentFlow
  cases hget : vrFragmentGet tbl vrf ip custom with
  | none => exact PortsKept.refl tbl
  | some found =>
    cases found with
    | none => exact PortsKept.refl tbl
    | some kf => exact fragmentSeen_portsKept (vrFragmentGet_eq_some hget) _ _

theorem vrInet6FragmentFlow_portsKept (ip6 : List Byte) (forward : Bool) :
    PortsKept tbl (vrInet6FragmentFlow tbl vrf pkt ip ip6 p custom forward).2 := by
  unfold vrInet6FragmentFlow
  cases hget : vrFragmentGet tbl vrf ip custom with
  | none => exact PortsKept.refl tbl
  | some found =>
    cases found with
    | none => exact PortsKept.refl tbl
    | some kf => exact fragmentSeen_portsKept (vrFragmentGet_eq_some hget) _ _

theorem formFlow_portsKept (v : Version) :
    PortsKept tbl (formFlow v tbl vrf pkt ip p custom).2 := by
  cases v with
  | v4 =>
    simp only [formFlow, vrInetFormFlow]
    split_ifs
    · exact PortsKept.refl tbl
    · exact vrInetFragmentFlow_portsKept
  | v6 =>
    simp only [formFlow, vrInet6FormFlow, inet6PayloadFlow]
    split_ifs
    · exact PortsKept.refl tbl
    · exact PortsKept.refl tbl
    · exact vrInet6FragmentFlow_portsKept _ false
    · exact PortsKept.refl tbl
    · exact vrInet6FragmentFlow_portsKept _ true

/-- The payload bytes of a fragment, as the code computes them. -/
def payload : Version → List Byte → ℤ
  | .v4 => ipPayload
  | .v6 => ip6Payload

/-- Where the bytes of a fragment begin in its datagram. -/
def offset : Version → List Byte → ℤ
  | .v4, ip => (ipOffset ip : ℤ) * 8
  | .v6, ip6 => (ip6Offset ip6 : ℤ) * 8

/-- `vr_ip_fragment_tail` or `vr_ip6_fragment_tail`. -/
def fragmentTail : Version → List Byte → Bool
  | .v4 => vrIpFragmentTail
  | .v6 => vrIp6FragmentTail

/-- Both versions look up the key that is formed; that of an IPv4 packet may be of a tunnel. -/
theorem flowLookup_eq (v : Version) (tbl : FragmentTable) (allocOk : Bool) :
    flowLookup v tbl vrf pkt ip allocOk =
      match formFlow v tbl vrf pkt ip vrFlowKeyAll 0 with
      | (.key flow, tbl) =>
        if v = .v4 ∧ tunnelled pkt flow = true then (.flowSet, tbl)
        else enterHead tbl (fragmentHead v ip) (fragmentKey v vrf ip 0) flow (payload v ip) allocOk
      | r => r := by
  cases v with
  | v4 => simp only [true_and]; rfl
  | v6 => simp only [reduceCtorEq, false_and, if_false]; rfl

theorem enterHead_of_some (h : tbl key = some frag) (head : Bool) (key' : FragmentKey)
    (flow : VrFlow) (len : ℤ) (allocOk : Bool) :
    (enterHead tbl head key' flow len allocOk).2 key = some frag := by
  unfold enterHead vrFragmentAdd
  cases head with
  | false => exact h
  | true =>
    cases hkey' : tbl key' with
    | some f => exact h
    | none =>
      have hne : key ≠ key' := by
        rintro rfl
        rw [hkey'] at h
        cases h
      cases allocOk with
      | false => exact h
      | true => exact (update_of_ne hne _ _).trans h

/-! ### Runs -/

/-- What happens to the fragment table: packets are looked up, other keys are asked for, and the
scanner reaps an entry. -/
inductive FragEvent
  | packet (v : Version) (vrf : ℕ) (pkt : PktMd) (ip : List Byte) (allocOk : Bool)
  | other (v : Version) (vrf : ℕ) (pkt : PktMd) (ip : List Byte) (p : FkeyParams) (custom : ℕ)
      (stack : VrFlow) (allocOk : Bool)
  | reap (key : FragmentKey)

/-- The table after an event. -/
def fragStep (tbl : FragmentTable) : FragEvent → FragmentTable
  | .packet v vrf pkt ip allocOk => (flowLookup v tbl vrf pkt ip allocOk).2
  | .other v vrf pkt ip p custom stack allocOk =>
    (getFlowKey v tbl vrf pkt ip p custom stack allocOk).2
  | .reap key => Function.update tbl key none

/-- The table when an event has made its deletions; what it enters, it enters then. -/
def afterDeletions (tbl : FragmentTable) : FragEvent → FragmentTable
  | .packet v vrf pkt ip _ => (formFlow v tbl vrf pkt ip vrFlowKeyAll 0).2
  | .other v vrf pkt ip p custom _ _ => (formFlow v tbl vrf pkt ip p custom).2
  | .reap key => Function.update tbl key none

theorem afterDeletions_portsKept (tbl : FragmentTable) (e : FragEvent) :
    PortsKept tbl (afterDeletions tbl e) := by
  cases e with
  | packet v vrf pkt ip allocOk => exact formFlow_portsKept v
  | other v vrf pkt ip p custom stack allocOk => exact formFlow_portsKept v
  | reap key =>
    intro key' f f' h h'
    by_cases hkey : key' = key
    · subst hkey
      simp only [afterDeletions, update_self] at h'
      cases h'
    · simp only [afterDeletions, update_of_ne hkey] at h'
      exact PortsKept.refl tbl key' f f' h h'

theorem fragStep_of_afterDeletions {e : FragEvent} (h : afterDeletions tbl e key = some frag) :
    fragStep tbl e key = some frag := by
  cases e with
  | packet v vrf pkt ip allocOk =>
    simp only [afterDeletions] at h
    simp only [fragStep, flowLookup_eq]
    generalize formFlow v tbl vrf pkt ip vrFlowKeyAll 0 = r at h ⊢
    obtain ⟨_ | _ | _ | _, tbl'⟩ := r <;> dsimp only at h ⊢
    · split_ifs
      · exact h
      · exact enterHead_of_some h _ _ _ _ _
    · exact h
    · exact h
    · exact h
  | other v vrf pkt ip p custom stack allocOk =>
    cases v with
    | v4 =>
      simp only [afterDeletions, formFlow] at h
      simp only [fragStep, getFlowKey, vrInetGetFlowKey]
      generalize vrInetFormFlow tbl vrf pkt ip p custom = r at h ⊢
      obtain ⟨_ | _ | _ | _, tbl'⟩ := r <;> dsimp only at h ⊢
      · exact enterHead_of_some h _ _ _ _ _
      · exact h
      · exact h
      · exact h
    | v6 =>
      simp only [afterDeletions, formFlow] at h
      simp only [fragStep, getFlowKey, vrInet6GetFlowKey]
      generalize vrInet6FormFlow tbl vrf pkt ip p custom = r at h ⊢
      obtain ⟨_ | _ | _ | _, tbl'⟩ := r <;> dsimp only at h ⊢
      · exact enterHead_of_some h _ _ _ _ _
      · have hent := enterHead_of_some h (vrIp6FragmentHead ip) (fragmentKey6 vrf ip custom)
          stack (ip6Payload ip) allocOk
        split
        · rename_i heq
          rw [heq] at hent
          exact hent
        · exact hent
      · exact h
      · exact h
  | reap key' => exact h

/-- The tables that runs reach which never delete an entry. -/
def Kept (key : FragmentKey) : FragmentTable → FragmentTable → Prop :=
  Reach (fun tbl e => some (fragStep tbl e)) (fun tbl e => (afterDeletions tbl e key).isSome)

theorem Kept.ports (h : Kept key tbl tbl') (hfrag : tbl key = some frag) :
    ∃ frag', tbl' key = some frag' ∧ frag'.fSport = frag.fSport ∧ frag'.fDport = frag.fDport := by
  refine Reach.invariant (I := fun tbl => ∃ frag', tbl key = some frag' ∧
    frag'.fSport = frag.fSport ∧ frag'.fDport = frag.fDport) ⟨frag, hfrag, rfl, rfl⟩ ?_ h
  rintro tbl e tbl' ⟨f, hf, hs, hd⟩ hkept hstep
  cases hstep
  obtain ⟨f', hf'⟩ := Option.isSome_iff_exists.mp hkept
  obtain ⟨hs', hd'⟩ := afterDeletions_portsKept tbl e key f f' hf hf'
  exact ⟨f', fragStep_of_afterDeletions hf', hs'.trans hs, hd'.trans hd⟩

/-! ### What a key is formed from -/

/-- The headers that the key of a packet is formed from: its own or, for an ICMP error, those of the
packet it quotes, seen from the other end. -/
def keyHeaders : Version → List Byte → Option Headers
  | .v4, ip =>
    if inetIcmpError ip then
      let h := headers .v4 (quoted .v4 ip)
      if inetIcmpError (quoted .v4 ip) then none
      else if h.proto = vrIpProtoIcmp then some ⟨h.proto, h.daddr, h.saddr, h.sport, h.dport⟩
      else some ⟨h.proto, h.daddr, h.saddr, h.dport, h.sport⟩
    else some (headers .v4 ip)
  | .v6, ip6 =>
    if inet6IcmpError ip6 then
      let h := headers .v6 (quoted .v6 ip6)
      if Plain .v6 (quoted .v6 ip6) then some ⟨h.proto, h.daddr, h.saddr, h.dport, h.sport⟩ else none
    else if inet6Neighbour ip6 then none
    else some (headers .v6 ip6)

/-- What the fat-flow rules leave of the headers of a packet. -/
def afterRules (pkt : PktMd) (fam : Family) (h : Headers) : Option Headers :=
  (vrFlowFatFlowLookup pkt fam h.proto h.sport h.dport h.saddr h.daddr).map fun r =>
    { proto := h.proto
      saddr := if r.1.srcIp then List.replicate (rtIpAddrSize fam) 0 else r.2.1
      daddr := if r.1.dstIp then List.replicate (rtIpAddrSize fam) 0 else r.2.2
      sport := if r.1.srcPort then 0 else h.sport
      dport := if r.1.dstPort then 0 else h.dport }

/-- The key with these headers. -/
def Headers.toFlow (h : Headers) (fam : Family) (nhId : ℕ) : VrFlow :=
  ⟨fam, nhId, h.proto, h.saddr, h.daddr, h.sport, h.dport⟩

theorem fatFlowKey_eq_key {h : Headers} (hkey : fatFlowKey pkt fam h.proto h.sport h.dport h.saddr
      h.daddr vrFlowKeyAll = .key flow) :
    ∃ h', afterRules pkt fam h = some h' ∧ flow = h'.toFlow fam (vrInetFlowNexthop pkt) := by
  unfold fatFlowKey at hkey
  unfold afterRules
  cases hlookup : vrFlowFatFlowLookup pkt fam h.proto h.sport h.dport h.saddr h.daddr with
  | none =>
    rw [hlookup] at hkey
    cases hkey
  | some r =>
    rw [hlookup] at hkey
    obtain rfl := Formed.key.inj hkey
    refine ⟨_, rfl, ?_⟩
    obtain ⟨⟨a, b, c, d⟩, sip, dip⟩ := r
    cases a <;> cases b <;> cases c <;> cases d <;> rfl

/-- An IPv6 error that quotes a fragment; its key is formed from the entry of the error itself. -/
def QuotesFragment (v : Version) (ip : List Byte) : Prop :=
  v = .v6 ∧ inet6IcmpError ip = true ∧ ¬ vrIp6TransportHeaderValid (quoted .v6 ip)

/-- The table when such an error is a first fragment and its entry was found. -/
def quoteSeen (tbl : FragmentTable) (key : FragmentKey) (frag : VrFragment) (q : List Byte) :
    FragmentTable :=
  fragmentSeen tbl key frag (ip6Payload q)
    (if vrIp6FragmentTail q then some ((ip6Offset q : ℤ) * 8 + ip6Payload q) else none)

theorem formFlow4_eq_key {custom : ℕ} (hvalid : vrIpTransportHeaderValid ip)
    (h : formFlow .v4 tbl vrf pkt ip vrFlowKeyAll custom = (.key flow, tbl')) :
    tbl' = tbl ∧ ∃ h₀ h', keyHeaders .v4 ip = some h₀ ∧ afterRules pkt .inet h₀ = some h' ∧
      flow = h'.toFlow .inet (vrInetFlowNexthop pkt) := by
  simp only [formFlow, vrInetFormFlow, hvalid, if_true] at h
  obtain ⟨hkey, rfl⟩ := Prod.mk.inj h
  refine ⟨rfl, ?_⟩
  unfold vrInetProtoFlow at hkey
  by_cases herror : inetIcmpError ip = true
  · simp only [keyHeaders, herror, if_true]
    rw [if_pos herror] at hkey
    rw [show (ipTransport ip).drop icmpHdrSize = quoted .v4 ip from rfl] at hkey
    by_cases hinner : inetIcmpError (quoted .v4 ip) = true
    · rw [inetPayloadFlow, if_pos hinner] at hkey
      cases hkey
    · rw [inetPayloadFlow, if_neg hinner] at hkey
      simp only [fillFlow, vrFlowKeyAll, if_true] at hkey
      rw [if_neg hinner]
      by_cases hproto : ipProto (quoted .v4 ip) = vrIpProtoIcmp
      · rw [if_neg (by simpa using hproto)] at hkey
        obtain ⟨h', hrules, hflow⟩ := fatFlowKey_eq_key (h := ⟨ipProto (quoted .v4 ip),
          ipDaddr (quoted .v4 ip), ipSaddr (quoted .v4 ip), (inetPorts (quoted .v4 ip)).1,
          (inetPorts (quoted .v4 ip)).2⟩) hkey
        exact ⟨_, h', if_pos hproto, hrules, hflow⟩
      · rw [if_pos hproto] at hkey
        obtain ⟨h', hrules, hflow⟩ := fatFlowKey_eq_key (h := ⟨ipProto (quoted .v4 ip),
          ipDaddr (quoted .v4 ip), ipSaddr (quoted .v4 ip), (inetPorts (quoted .v4 ip)).2,
          (inetPorts (quoted .v4 ip)).1⟩) hkey
        exact ⟨_, h', if_neg hproto, hrules, hflow⟩
  · rw [if_neg herror] at hkey
    simp only [keyHeaders, herror]
    obtain ⟨h', hrules, hflow⟩ := fatFlowKey_eq_key (h := headers .v4 ip) hkey
    exact ⟨_, h', rfl, hrules, hflow⟩

theorem inet6PlainFlow_eq_key {forward : Bool}
    (h : inet6PlainFlow pkt ip vrFlowKeyAll forward = .key flow) :
    ¬ inet6Neighbour ip = true ∧
      (if forward then
        fatFlowKey pkt .inet6 (ip6Proto ip) (inet6Ports ip).1 (inet6Ports ip).2 (ip6Src ip)
          (ip6Dst ip) vrFlowKeyAll
      else
        fatFlowKey pkt .inet6 (ip6Proto ip) (inet6Ports ip).2 (inet6Ports ip).1 (ip6Dst ip)
          (ip6Src ip) vrFlowKeyAll) = .key flow := by
  unfold inet6PlainFlow at h
  by_cases hneighbour : inet6Neighbour ip = true
  · rw [if_pos hneighbour] at h
    cases h
  · rw [if_neg hneighbour] at h
    exact ⟨hneighbour, h⟩

theorem formFlow6_eq_key (hvalid : vrIp6TransportHeaderValid ip)
    (hfrag : ip6Nxt ip = vrIp6ProtoFrag) (hsix : vrIpIsIp6 ip)
    (h : formFlow .v6 tbl vrf pkt ip vrFlowKeyAll 0 = (.key flow, tbl')) :
    (tbl' = tbl ∧ ∃ h₀ h', keyHeaders .v6 ip = some h₀ ∧ afterRules pkt .inet6 h₀ = some h' ∧
      flow = h'.toFlow .inet6 (vrInetFlowNexthop pkt)) ∨
    ∃ frag, QuotesFragment .v6 ip ∧ tbl (fragmentKey .v6 vrf ip 0) = some frag ∧
      tbl' = quoteSeen tbl (fragmentKey .v6 vrf ip 0) frag (quoted .v6 ip) ∧
      flow = ⟨.inet6, vrInetFlowNexthop pkt, ip6FragNxt (quoted .v6 ip), ip6Dst (quoted .v6 ip),
        ip6Src (quoted .v6 ip), frag.fDport, frag.fSport⟩ := by
  simp only [formFlow, vrInet6FormFlow, hvalid, if_true] at h
  by_cases herror : inet6IcmpError ip = true
  · rw [if_pos herror, show (ip6Transport ip).drop icmpHdrSize = quoted .v6 ip from rfl,
      inet6PayloadFlow] at h
    by_cases hq : vrIp6TransportHeaderValid (quoted .v6 ip) = true
    · rw [if_pos hq] at h
      split_ifs at h with hinner
      · cases (Prod.mk.inj h).1
      · obtain ⟨hkey, rfl⟩ := Prod.mk.inj h
        refine .inl ⟨rfl, ?_⟩
        obtain ⟨hneighbour, hkey⟩ := inet6PlainFlow_eq_key hkey
        obtain ⟨h', hrules, hflow⟩ := fatFlowKey_eq_key (h := ⟨ip6Proto (quoted .v6 ip),
          ip6Dst (quoted .v6 ip), ip6Src (quoted .v6 ip), (inet6Ports (quoted .v6 ip)).2,
          (inet6Ports (quoted .v6 ip)).1⟩) hkey
        exact ⟨_, h', by simp [keyHeaders, herror, Plain, hq, hinner, hneighbour, headers], hrules,
          hflow⟩
    · rw [if_neg hq] at h
      unfold vrInet6FragmentFlow vrFragmentGet at h
      simp only [hsix, if_true, hfrag] at h
      cases hentry : tbl (fragmentKey6 vrf ip 0) with
      | none =>
        simp only [hentry, Option.map_none] at h
        cases (Prod.mk.inj h).1
      | some frag =>
        simp only [hentry, Option.map_some] at h
        obtain ⟨hkey, rfl⟩ := Prod.mk.inj h
        exact .inr ⟨frag, ⟨rfl, herror, hq⟩, hentry, rfl, (Formed.key.inj hkey).symm⟩
  · rw [if_neg herror] at h
    obtain ⟨hkey, rfl⟩ := Prod.mk.inj h
    refine .inl ⟨rfl, ?_⟩
    obtain ⟨hneighbour, hkey⟩ := inet6PlainFlow_eq_key hkey
    obtain ⟨h', hrules, hflow⟩ := fatFlowKey_eq_key (h := headers .v6 ip) hkey
    exact ⟨_, h', by simp [keyHeaders, herror, hneighbour], hrules, hflow⟩

/-! ### One flow for a datagram -/

/-- A fragment with the identification of another, which has no transport header. -/
def LaterFragment : Version → List Byte → List Byte → Prop
  | .v4, ip, ip' => ¬ vrIpTransportHeaderValid ip' ∧ ipSaddr ip' = ipSaddr ip ∧
      ipDaddr ip' = ipDaddr ip ∧ ipId ip' = ipId ip ∧ ipProto ip' = ipProto ip
  | .v6, ip6, ip6' => ¬ vrIp6TransportHeaderValid ip6' ∧ vrIpIsIp6 ip6' ∧ ip6Src ip6' = ip6Src ip6 ∧
      ip6Dst ip6' = ip6Dst ip6 ∧ ip6FragId ip6' = ip6FragId ip6 ∧ ip6FragNxt ip6' = ip6FragNxt ip6

instance : ∀ v ip ip', Decidable (LaterFragment v ip ip')
  | .v4, _, _ => inferInstanceAs (Decidable (_ ∧ _))
  | .v6, _, _ => inferInstanceAs (Decidable (_ ∧ _))

theorem formFlow_later (h : LaterFragment v ip ip') (hhead : fragmentHead v ip) {custom : ℕ}
    (hfrag : tbl (fragmentKey v vrf ip custom) = some frag) (pkt : PktMd) (p : FkeyParams) :
    formFlow v tbl vrf pkt ip' p custom =
      (.key (fillFlow v.family (vrInetFlowNexthop pkt) (headers v ip).saddr (headers v ip).daddr
        (headers v ip).proto frag.fSport frag.fDport p),
      fragmentSeen tbl (fragmentKey v vrf ip custom) frag (payload v ip')
        (if fragmentTail v ip' then some (offset v ip' + payload v ip') else none)) := by
  cases v with
  | v4 =>
    obtain ⟨hvalid, hsaddr, hdaddr, hid, hproto⟩ := h
    have hfour : vrIpIsIp4 ip' = true ∧ vrIpIsIp6 ip' = false := by
      simp only [vrIpTransportHeaderValid, Bool.or_eq_true, not_or, Bool.not_eq_true',
        Bool.not_eq_false] at hvalid
      refine ⟨hvalid.1, ?_⟩
      have hversion : ipVersion ip' = 4 := of_decide_eq_true hvalid.1
      simp only [vrIpIsIp6, hversion]
      decide
    have hkey : fragmentKey4 vrf ip' custom = fragmentKey4 vrf ip custom := by
      simp only [fragmentKey4, hsaddr, hdaddr, hid]
    have hfrag' : tbl (fragmentKey4 vrf ip custom) = some frag := hfrag
    simp only [formFlow, vrInetFormFlow, hvalid, if_false, vrInetFragmentFlow, vrFragmentGet,
      hfour.1, hfour.2, if_true, hkey, hfrag', Option.map_some, hsaddr, hdaddr, hproto,
      Bool.false_eq_true]
    rfl
  | v6 =>
    obtain ⟨hvalid, hsix, hsrc, hdst, hid, hnxt⟩ := h
    have hfrag44 : ip6Nxt ip' = vrIp6ProtoFrag := by
      simp only [vrIp6TransportHeaderValid, Bool.or_eq_true, not_or, decide_eq_true_eq, ne_eq,
        Decidable.not_not] at hvalid
      exact hvalid.1
    have hfrag44' : ip6Nxt ip = vrIp6ProtoFrag := by
      simp only [fragmentHead, vrIp6FragmentHead, Bool.and_eq_true, decide_eq_true_eq] at hhead
      exact hhead.1
    have hkey : fragmentKey6 vrf ip' custom = fragmentKey6 vrf ip custom := by
      simp only [fragmentKey6, hsrc, hdst, hid]
    have hfrag' : tbl (fragmentKey6 vrf ip custom) = some frag := hfrag
    simp only [formFlow, vrInet6FormFlow, hvalid, if_false, vrInet6FragmentFlow, vrFragmentGet,
      hsix, if_true, hfrag44, hkey, hfrag', Option.map_some, hsrc, hdst, hnxt, headers, ip6Proto,
      hfrag44', Bool.false_eq_true]
    rfl

theorem enterHead_eq_key {flow' : VrFlow} {len : ℤ}
    (h : enterHead tbl true key flow len allocOk = (.key flow', tbl')) :
    flow' = flow ∧ ∃ frag, tbl' key = some frag ∧
      ((frag.fSport = flow.sport ∧ frag.fDport = flow.dport) ↔
        ∀ f, tbl key = some f → f.fSport = flow.sport ∧ f.fDport = flow.dport) := by
  unfold enterHead vrFragmentAdd at h
  rw [if_pos rfl] at h
  cases hkey : tbl key with
  | some frag =>
    rw [hkey] at h
    obtain ⟨hflow, rfl⟩ := Prod.mk.inj h
    exact ⟨(Formed.key.inj hflow).symm, frag, hkey, by simp⟩
  | none =>
    rw [hkey] at h
    cases allocOk with
    | false => cases (Prod.mk.inj h).1
    | true =>
      obtain ⟨hflow, rfl⟩ := Prod.mk.inj h
      exact ⟨(Formed.key.inj hflow).symm, _, update_self .., by simp⟩

/-- Looking up the key of a first fragment: the key is the one formed, and there is an entry, which
has its ports unless there was one before. -/
theorem flowLookup_head (hhead : fragmentHead v ip)
    (h : flowLookup v tbl vrf pkt ip allocOk = (.key flow, tbl')) :
    ∃ tblF, formFlow v tbl vrf pkt ip vrFlowKeyAll 0 = (.key flow, tblF) ∧
      (v = .v4 → tunnelled pkt flow = false) ∧
      ∃ frag, tbl' (fragmentKey v vrf ip 0) = some frag ∧
        ((frag.fSport = flow.sport ∧ frag.fDport = flow.dport) ↔
          ∀ f, tblF (fragmentKey v vrf ip 0) = some f →
            f.fSport = flow.sport ∧ f.fDport = flow.dport) := by
  rw [flowLookup_eq, hhead] at h
  generalize formFlow v tbl vrf pkt ip vrFlowKeyAll 0 = r at h ⊢
  obtain ⟨f | _ | _ | _, tblF⟩ := r
  · dsimp only at h
    split_ifs at h with htunnel
    · cases (Prod.mk.inj h).1
    · obtain ⟨rfl, hfrag⟩ := enterHead_eq_key h
      exact ⟨tblF, rfl, fun hv => by simpa [hv] using htunnel, hfrag⟩
  · cases (Prod.mk.inj h).1
  · cases (Prod.mk.inj h).1
  · cases (Prod.mk.inj h).1

theorem LaterFragment.not_head (h : LaterFragment v ip ip') :
    fragmentHead v ip' = false := by
  cases v with
  | v4 =>
    have hvalid := h.1
    simp only [vrIpTransportHeaderValid, Bool.or_eq_true, not_or, decide_eq_true_eq] at hvalid
    simp only [fragmentHead, vrIpFragmentHead, hvalid.2, decide_false, Bool.and_false]
  | v6 =>
    have hvalid := h.1
    simp only [vrIp6TransportHeaderValid, Bool.or_eq_true, not_or, decide_eq_true_eq] at hvalid
    simp only [fragmentHead, vrIp6FragmentHead, hvalid.2, decide_false, Bool.and_false]

/-- Looking up the key of a packet that is no first fragment gives the key formed, unless the packet
is tunnelled. -/
theorem flowLookup_of_not_head {flow' : VrFlow} (hhead : fragmentHead v ip = false)
    (hform : (formFlow v tbl vrf pkt ip vrFlowKeyAll 0).1 = .key flow')
    (htunnel : v = .v4 → tunnelled pkt flow = false) (allocOk : Bool) :
    (flowLookup v tbl vrf pkt ip allocOk).1 = .key flow ↔ flow' = flow := by
  rw [flowLookup_eq]
  generalize formFlow v tbl vrf pkt ip vrFlowKeyAll 0 = r at hform ⊢
  obtain ⟨f, t⟩ := r
  obtain rfl : f = .key flow' := hform
  dsimp only
  rw [hhead]
  split_ifs with htunnelled
  · simp only [false_iff]
    rintro rfl
    simp [htunnel htunnelled.1] at htunnelled
  · exact ⟨Formed.key.inj, congrArg _⟩

/-! ### Datagrams with one flow -/

/-- The protocol and the addresses are the same. -/
def Headers.SameEnds (h h' : Headers) : Prop :=
  h.proto = h'.proto ∧ h.saddr = h'.saddr ∧ h.daddr = h'.daddr

/-- What the first fragment of a datagram has to be like.  The headers that its key is formed from
are left with the protocol and the addresses of the datagram, and if the table has an entry already,
it is one with their ports. -/
def OneFlow (v : Version) (tbl : FragmentTable) (vrf : ℕ) (pkt : PktMd) (ip : List Byte) : Prop :=
  (∀ h₀ h, keyHeaders v ip = some h₀ → afterRules pkt v.family h₀ = some h →
    h.SameEnds (headers v ip) ∧
      ∀ frag, tbl (fragmentKey v vrf ip 0) = some frag →
        frag.fSport = h.sport ∧ frag.fDport = h.dport) ∧
  (QuotesFragment v ip → ∀ frag, tbl (fragmentKey v vrf ip 0) = some frag →
    (ip6FragNxt (quoted v ip) = (headers v ip).proto ∧
      ip6Dst (quoted v ip) = (headers v ip).saddr ∧ ip6Src (quoted v ip) = (headers v ip).daddr) ∧
    ((quoteSeen tbl (fragmentKey v vrf ip 0) frag (quoted v ip) (fragmentKey v vrf ip 0)).isSome =
      true → frag.fSport = frag.fDport))

/-- The key of a first fragment is one that the others get, too. -/
def Shared (v : Version) (vrf : ℕ) (ip : List Byte) (flow : VrFlow) (tbl : FragmentTable) : Prop :=
  (flow.proto = (headers v ip).proto ∧ flow.sip = (headers v ip).saddr ∧
    flow.dip = (headers v ip).daddr) ∧
  ∀ frag, tbl (fragmentKey v vrf ip 0) = some frag →
    frag.fSport = flow.sport ∧ frag.fDport = flow.dport

theorem keyHeaders_of_quotesFragment (h : QuotesFragment v ip) : keyHeaders v ip = none := by
  obtain ⟨rfl, herror, hq⟩ := h
  simp [keyHeaders, herror, Plain, hq]

theorem oneFlow_iff_of_headers {h₀ h : Headers} {nhId : ℕ} (hh₀ : keyHeaders v ip = some h₀)
    (hh : afterRules pkt v.family h₀ = some h) :
    OneFlow v tbl vrf pkt ip ↔ Shared v vrf ip (h.toFlow v.family nhId) tbl := by
  have hquote : ¬ QuotesFragment v ip := fun hq => by
    rw [keyHeaders_of_quotesFragment hq] at hh₀
    cases hh₀
  refine ⟨fun hone => hone.1 h₀ h hh₀ hh, fun hshared => ⟨fun h₁ h₂ hh₁ hh₂ => ?_,
    fun hq => absurd hq hquote⟩⟩
  obtain rfl := Option.some.inj (hh₀.symm.trans hh₁)
  obtain rfl := Option.some.inj (hh.symm.trans hh₂)
  exact hshared

theorem oneFlow_iff_of_quote {nhId : ℕ} (hq : QuotesFragment v ip)
    (hfrag : tbl (fragmentKey v vrf ip 0) = some frag) :
    OneFlow v tbl vrf pkt ip ↔ Shared v vrf ip ⟨v.family, nhId, ip6FragNxt (quoted v ip),
        ip6Dst (quoted v ip), ip6Src (quoted v ip), frag.fDport, frag.fSport⟩
      (quoteSeen tbl (fragmentKey v vrf ip 0) frag (quoted v ip)) := by
  have hports : PortsKept tbl (quoteSeen tbl (fragmentKey v vrf ip 0) frag (quoted v ip)) :=
    fragmentSeen_portsKept hfrag _ _
  have hnone := keyHeaders_of_quotesFragment hq
  unfold OneFlow Shared
  constructor
  · rintro ⟨-, hone⟩
    obtain ⟨hends, hequal⟩ := hone hq frag hfrag
    refine ⟨hends, fun f hf => ?_⟩
    obtain ⟨hs, hd⟩ := hports _ _ _ hfrag hf
    rw [hs, hd, hequal (by rw [hf]; rfl)]
    exact ⟨rfl, rfl⟩
  · rintro ⟨hends, hkept⟩
    refine ⟨fun h₀ _ hh₀ => ?_, fun _ f hf => ?_⟩
    · rw [hnone] at hh₀
      cases hh₀
    obtain rfl := Option.some.inj (hfrag.symm.trans hf)
    refine ⟨hends, fun hsome => ?_⟩
    obtain ⟨f', hf'⟩ := Option.isSome_iff_exists.mp hsome
    rw [← (hports _ _ _ hfrag hf').1]
    exact (hkept f' hf').1

/-- The key of a first fragment, and when it is shared. -/
theorem formFlow_head (hhead : fragmentHead v ip) (hsix : v = .v6 → vrIpIsIp6 ip)
    (h : formFlow v tbl vrf pkt ip vrFlowKeyAll 0 = (.key flow, tbl')) :
    flow.family = v.family ∧ flow.nhId = vrInetFlowNexthop pkt ∧
      (OneFlow v tbl vrf pkt ip ↔ Shared v vrf ip flow tbl') := by
  cases v with
  | v4 =>
    have hvalid : vrIpTransportHeaderValid ip := by
      simp only [fragmentHead, vrIpFragmentHead, Bool.and_eq_true, decide_eq_true_eq] at hhead
      simp [vrIpTransportHeaderValid, hhead.2.2]
    obtain ⟨rfl, h₀, h', hh₀, hrules, rfl⟩ := formFlow4_eq_key hvalid h
    exact ⟨rfl, rfl, oneFlow_iff_of_headers hh₀ hrules⟩
  | v6 =>
    simp only [fragmentHead, vrIp6FragmentHead, Bool.and_eq_true, decide_eq_true_eq] at hhead
    have hvalid : vrIp6TransportHeaderValid ip := by simp [vrIp6TransportHeaderValid, hhead.2.2]
    obtain ⟨rfl, h₀, h', hh₀, hrules, rfl⟩ | ⟨frag, hq, hfrag, rfl, rfl⟩ :=
      formFlow6_eq_key hvalid hhead.1 (hsix rfl) h
    · exact ⟨rfl, rfl, oneFlow_iff_of_headers hh₀ hrules⟩
    · exact ⟨rfl, rfl, oneFlow_iff_of_quote hq hfrag⟩

/-- **All fragments of a datagram hit one flow**, if and only if its first fragment is as `OneFlow`
says.  The first fragment gets its key; then anything may happen that does not delete the entry;
then a later fragment gets its key. -/
theorem fragments_one_flow (v : Version) (tbl₀ tbl₁ tbl₂ : FragmentTable) (vrf : ℕ) (pkt : PktMd)
    (ip ip' : List Byte) (allocOk allocOk' : Bool) (flow : VrFlow) (hhead : fragmentHead v ip)
    (hsix : v = .v6 → vrIpIsIp6 ip)
    (hkey : flowLookup v tbl₀ vrf pkt ip allocOk = (.key flow, tbl₁))
    (hrun : Kept (fragmentKey v vrf ip 0) tbl₁ tbl₂) (hlater : LaterFragment v ip ip') :
    (flowLookup v tbl₂ vrf pkt ip' allocOk').1 = .key flow ↔ OneFlow v tbl₀ vrf pkt ip := by
  obtain ⟨tblF, hform, htunnel, frag, hfrag, hports⟩ := flowLookup_head hhead hkey
  obtain ⟨frag', hfrag', hs, hd⟩ := hrun.ports hfrag
  obtain ⟨hfamily, hnh, hone⟩ := formFlow_head hhead hsix hform
  have hformed := congrArg Prod.fst (formFlow_later hlater hhead hfrag' pkt vrFlowKeyAll)
  rw [flowLookup_of_not_head hlater.not_head hformed htunnel, hone, Shared, ← hports, hs, hd]
  obtain ⟨family, nhId, proto, sip, dip, sport, dport⟩ := flow
  obtain rfl : family = v.family := hfamily
  obtain rfl : nhId = vrInetFlowNexthop pkt := hnh
  simp only [fillFlow, vrFlowKeyAll, if_true, VrFlow.mk.injEq, true_and]
  constructor
  · rintro ⟨hproto, hsip, hdip, hsport, hdport⟩
    exact ⟨⟨hproto.symm, hsip.symm, hdip.symm⟩, hsport, hdport⟩
  · rintro ⟨⟨hproto, hsip, hdip⟩, hsport, hdport⟩
    exact ⟨hproto.symm, hsip.symm, hdip.symm, hsport, hdport⟩

/-! ### A datagram in two fragments -/

/-- The first fragment of a datagram from `10.0.0.1` to `10.0.0.2`. -/
def firstFragment (proto : Byte) (transport : List Byte) : List Byte :=
  [0x45, 0, 0, 28, 0, 1, 0x20, 0, 64, proto, 0, 0, 10, 0, 0, 1, 10, 0, 0, 2] ++ transport

/-- Its last fragment. -/
def lastFragment (proto : Byte) : List Byte :=
  [0x45, 0, 0, 28, 0, 1, 0, 5, 64, proto, 0, 0, 10, 0, 0, 1, 10, 0, 0, 2]

/-- The keys of the two fragments of a datagram, one after the other. -/
def twoKeys (tbl : FragmentTable) (pkt : PktMd) (first last : List Byte) : Formed × Formed :=
  let r := flowLookup .v4 tbl 0 pkt first true
  (r.1, (flowLookup .v4 r.2 0 pkt last true).1)

/-- A query to port 53 of UDP with a rule that ignores the source address; a UDP datagram with the
identification of a TCP datagram that is in the table; an ICMP error about a UDP packet. -/
theorem twoKeys_differ :
    twoKeys (fun _ => none) (sent (portRules [2 ^ 24 + 17 * 2 ^ 16 + 53]))
        (firstFragment 17 [4, 0, 0, 53]) (lastFragment 17) =
      (.key ⟨.inet, 7, 17, [0, 0, 0, 0], [10, 0, 0, 2], 0, 53 * 256⟩,
        .key ⟨.inet, 7, 17, [10, 0, 0, 1], [10, 0, 0, 2], 0, 53 * 256⟩) ∧
    twoKeys (flowLookup .v4 (fun _ => none) 0 (sent (portRules []))
          (firstFragment 6 [0, 80, 0, 80]) true).2 (sent (portRules []))
        (firstFragment 17 [4, 0, 0, 53]) (lastFragment 17) =
      (.key ⟨.inet, 7, 17, [10, 0, 0, 1], [10, 0, 0, 2], 4, 53 * 256⟩,
        .key ⟨.inet, 7, 17, [10, 0, 0, 1], [10, 0, 0, 2], 80 * 256, 80 * 256⟩) ∧
    twoKeys (fun _ => none) (sent (portRules []))
        (firstFragment 1 ([3, 3, 0, 0, 0, 0, 0, 0] ++ packet4 17 2 1 [4, 0, 0, 53])) (lastFragment 1) =
      (.key ⟨.inet, 7, 17, [10, 0, 0, 1], [10, 0, 0, 2], 53 * 256, 4⟩,
        .key ⟨.inet, 7, 1, [10, 0, 0, 1], [10, 0, 0, 2], 53 * 256, 4⟩) := by
  decide +kernel

/-- A packet of a machine whose interface has a rule for port 53 of UDP. -/
def querier : PktMd := sent (portRules [17 * 2 ^ 16 + 53])

/-- The table after the first fragment of a query to port 53. -/
def afterFirst : FragmentTable :=
  (flowLookup .v4 (fun _ => none) 0 querier (firstFragment 17 [4, 0, 0, 53]) true).2

/-- The entry of the query. -/
def queryKey : FragmentKey := fragmentKey .v4 0 (firstFragment 17 [4, 0, 0, 53]) 0

/-- A middle fragment of the query. -/
def middleEvent : FragEvent :=
  .packet .v4 0 querier [0x45, 0, 0, 28, 0, 1, 0x20, 1, 64, 17, 0, 0, 10, 0, 0, 1, 10, 0, 0, 2] true

/-- The last fragment of the query has the addresses and the port of the first, whose repetition does
no harm. -/
theorem fragments_one_flow_query :
    (flowLookup .v4 (fragStep afterFirst middleEvent) 0 querier (lastFragment 17) true).1 =
      .key ⟨.inet, 7, 17, [10, 0, 0, 1], [10, 0, 0, 2], 0, 53 * 256⟩ := by
  refine (fragments_one_flow .v4 afterFirst afterFirst (fragStep afterFirst middleEvent) 0
    querier (firstFragment 17 [4, 0, 0, 53]) (lastFragment 17) true true _ (by decide)
    (fun hv => by cases hv)
    (Prod.ext (by decide +kernel) ?_) (Reach.init.step middleEvent (by decide +kernel) rfl)
    (by decide)).mpr ⟨fun h₀ h hh₀ hh => ?_, fun hq => by cases hq.1⟩
  · rfl
  · have hown : keyHeaders .v4 (firstFragment 17 [4, 0, 0, 53]) =
        some ⟨17, [10, 0, 0, 1], [10, 0, 0, 2], 4, 53 * 256⟩ := by decide
    obtain rfl := Option.some.inj (hown.symm.trans hh₀)
    have hleft : afterRules querier .inet ⟨17, [10, 0, 0, 1], [10, 0, 0, 2], 4, 53 * 256⟩ =
        some ⟨17, [10, 0, 0, 1], [10, 0, 0, 2], 0, 53 * 256⟩ := by decide +kernel
    obtain rfl := Option.some.inj (hleft.symm.trans hh)
    refine ⟨⟨by decide, by decide, by decide⟩, fun frag hfrag => ?_⟩
    have hentry : afterFirst queryKey = some ⟨0, 53 * 256, 0, 8⟩ := by decide +kernel
    obtain rfl := Option.some.inj (hentry.symm.trans hfrag)
    exact ⟨rfl, rfl⟩

end Vrouter.FlowKey
