import Vrouter.FlowKey.Model
import Vrouter.Mtrie.Routes

/-! # The keys of the two directions

The key of a packet that a virtual machine sends and the key of the reply that comes to it are
formed by the same rules, those of the interface of the machine.  `vifFatFlowLookup_back` says what
the direction changes: the two addresses, and nothing else.  `vifFatFlowLookup_swapPorts` says what
swapping the ports changes: the two bits of the mask for them, unless the ports are equal.  Together
they give the key of the reply (`formFlow_reply`): it is the mirror image of the first key where the
ports differ; the two numbers of an echo message keep their places. -/

namespace Vrouter.FlowKey

open Vrouter.Lib Vrouter.Mtrie Vrouter.Itable Vrouter.Packet Vrouter.FatFlow

/-! ### What the direction changes -/

theorem vifFatFlowExcludeListLookup_comm (vif : VifFatFlow) (fam : Family) (a b : List Byte) :
    vifFatFlowExcludeListLookup vif fam a b = vifFatFlowExcludeListLookup vif fam b a := by
  cases fam <;> simp only [vifFatFlowExcludeListLookup, Bool.or_comm]

/-- A result with its two addresses swapped. -/
def turnResult (r : FatFlowMask × List Byte × List Byte) : FatFlowMask × List Byte × List Byte :=
  (r.1, r.2.2, r.2.1)

theorem vifFatFlowLookup_back (vif : VifFatFlow) (fam : Family) (proto sport dport : ℕ)
    (saddr daddr : List Byte) :
    vifFatFlowLookup false vif fam proto sport dport daddr saddr =
      (vifFatFlowLookup true vif fam proto sport dport saddr daddr).map turnResult := by
  simp only [vifFatFlowLookup, vifFatFlowExcludeListLookup_comm vif fam daddr saddr]
  split_ifs <;> rfl

/-! ### What swapping the ports changes -/

/-- The mask with the bits of the two ports swapped. -/
def swapPorts (m : FatFlowMask) : FatFlowMask :=
  { m with srcPort := m.dstPort, dstPort := m.srcPort }

theorem swapPorts_eq_noMask (m : FatFlowMask) : swapPorts m = noMask ↔ m = noMask := by
  obtain ⟨a, b, c, d⟩ := m
  simp only [swapPorts, noMask, FatFlowMask.mk.injEq]
  tauto

variable {s d : ℕ}

theorem portRuleMask_swapPorts (rules : FatFlowRules) {p : ProtoIndex} (h : s ≠ d) :
    portRuleMask rules p d s = swapPorts (portRuleMask rules p s d) := by
  simp only [portRuleMask, swapPorts]
  generalize vifFatFlowPortGet rules p s = a
  generalize vifFatFlowPortGet rules p d = b
  generalize vifFatFlowPortGet rules p 0 = z
  by_cases hab : a = 0 ∧ b = 0
  · -- the rule for port 0 sets both bits
    simp only [hab.1, hab.2, vifFatFlowPortSet, vifFatFlowPortSipIgnore, vifFatFlowPortDipIgnore]
    simp
    omega
  · have hle : s ≤ d ∧ ¬ d ≤ s ∨ d ≤ s ∧ ¬ s ≤ d := by omega
    rcases hle with hle | hle <;>
      by_cases ha : a = 0 <;> by_cases hb : b = 0 <;> by_cases hp : p = .noproto <;>
        simp [ha, hb, hp, hle.1, hle.2, or_comm, vifFatFlowPortSet, vifFatFlowPortSipIgnore,
          vifFatFlowPortDipIgnore] <;> exact absurd ⟨ha, hb⟩ hab

/-- A match with the bits of the two ports swapped. -/
def PrefixMatch.swap (m : PrefixMatch) : PrefixMatch := { m with mask := swapPorts m.mask }

theorem portInfoMatch_swap (kind : RuleKind) (fam : Family) (dip : List Byte) (a b : Bool)
    (info : Option PortData) :
    portInfoMatch kind fam dip b a info =
      (portInfoMatch kind fam dip a b info).map (Option.map PrefixMatch.swap) := by
  unfold portInfoMatch
  cases info.filter fun d => d.has kind with
  | none => rfl
  | some d =>
    cases kind with
    | single => rfl
    | dual =>
      dsimp only
      cases vifFatFlowIpPrefixLookup d.secondPrefix fam dip with
      | none => rfl
      | some plen => cases plen <;> rfl

theorem orMatch_swap (a b : Option (Option PrefixMatch)) :
    orMatch (a.map (Option.map PrefixMatch.swap)) (b.map (Option.map PrefixMatch.swap)) =
      (orMatch a b).map (Option.map PrefixMatch.swap) := by
  obtain _ | _ | m := a <;> rfl

theorem vifFatFlowPrefixProtoPortMatch_swap (kind : RuleKind) (r : RuleData) (fam : Family)
    (dip : List Byte) (proto : ℕ) (h : s ≠ d) :
    vifFatFlowPrefixProtoPortMatch kind r fam dip proto d s =
      (vifFatFlowPrefixProtoPortMatch kind r fam dip proto s d).map
        (Option.map PrefixMatch.swap) := by
  unfold vifFatFlowPrefixProtoPortMatch
  cases r.proto (vifFatFlowGetProtoIndex proto) with
  | none => rfl
  | some ptable =>
    dsimp only
    -- each of the three port infos keeps its port and gets the other's bit
    rw [portInfoMatch_swap kind fam dip true false (vrItableGet ptable d),
      portInfoMatch_swap kind fam dip false true (vrItableGet ptable s),
      portInfoMatch_swap kind fam dip true true (vrItableGet ptable 0)]
    rcases Nat.lt_or_gt_of_ne h with hlt | hlt
    · have hnot : ¬ d < s := by omega
      simp only [hlt, hnot, if_true, if_false, orMatch_swap]
      rw [← portInfoMatch_swap kind fam dip true true]
    · have hnot : ¬ s < d := by omega
      simp only [hlt, hnot, if_true, if_false, orMatch_swap]
      rw [← portInfoMatch_swap kind fam dip true true]

/-- A result with the bits of the two ports swapped. -/
def swapResult (r : FatFlowMask × List Byte × List Byte) : FatFlowMask × List Byte × List Byte :=
  (swapPorts r.1, r.2)

theorem singleMatch_swap (fam : Family) (rdata : Option RuleData) (proto : ℕ) (h : s ≠ d) :
    singleMatch fam rdata proto d s =
      (singleMatch fam rdata proto s d).map (Option.map PrefixMatch.swap) := by
  cases rdata with
  | none => rfl
  | some r => exact vifFatFlowPrefixProtoPortMatch_swap .single r fam [] proto h

theorem prefixRuleMatch_swapPorts (rules : FatFlowRules) (fam : Family) (proto : ℕ) (h : s ≠ d)
    (sip dip : List Byte) :
    prefixRuleMatch rules fam proto d s sip dip =
      (prefixRuleMatch rules fam proto s d sip dip).map swapResult := by
  unfold prefixRuleMatch
  cases addrLookup (rules.prefixRules fam .src) fam sip .null with
  | none => rfl
  | some found =>
    dsimp only [Option.bind_some]
    cases rdataOf rules found with
    | none => rfl
    | some rdataSrc =>
      dsimp only [Option.bind_some]
      rw [singleMatch_swap fam rdataSrc proto h]
      obtain _ | _ | m := singleMatch fam rdataSrc proto s d
      · rfl
      · dsimp only [Option.map_some, Option.map_none, Option.bind_some]
        cases addrLookup (rules.prefixRules fam .dst) fam dip found.2 with
        | none => rfl
        | some found' =>
          dsimp only [Option.bind_some]
          cases rdataOf rules found' with
          | none => rfl
          | some rdataDst =>
            dsimp only [Option.bind_some]
            rw [singleMatch_swap fam rdataDst proto h]
            obtain _ | _ | m := singleMatch fam rdataDst proto s d
            · rfl
            · cases rdataSrc with
              | none => rfl
              | some r =>
                dsimp only [Option.map_some, Option.map_none, Option.bind_some]
                rw [vifFatFlowPrefixProtoPortMatch_swap .dual r fam dip proto h]
                obtain _ | _ | m :=
                  vifFatFlowPrefixProtoPortMatch .dual r fam dip proto s d <;> rfl
            · rfl
      · rfl

/-- The protocol has ports. -/
def HasPorts (proto : ℕ) : Prop := vifFatFlowGetProtoIndex proto ≠ .noproto

instance (proto : ℕ) : Decidable (HasPorts proto) := inferInstanceAs (Decidable (_ ≠ _))

theorem vifFatFlowLookup_swapPorts (vif : VifFatFlow) (fam : Family) {proto : ℕ}
    (hproto : HasPorts proto) (h : s ≠ d) (saddr daddr : List Byte) :
    vifFatFlowLookup true vif fam proto d s saddr daddr =
      (vifFatFlowLookup true vif fam proto s d saddr daddr).map swapResult := by
  have hmask := portRuleMask_swapPorts vif.rules (p := vifFatFlowGetProtoIndex proto) h
  have hmatch : vifFatFlowPrefixRuleMatch true vif.rules fam proto d s saddr daddr =
      (vifFatFlowPrefixRuleMatch true vif.rules fam proto s d saddr daddr).map swapResult :=
    prefixRuleMatch_swapPorts vif.rules fam proto h saddr daddr
  unfold HasPorts at hproto
  simp only [vifFatFlowLookup, hproto, if_false, false_and, hmask, hmatch, ne_eq,
    swapPorts_eq_noMask]
  split_ifs <;> rfl

/-! ### Keys -/

/-- A key with its addresses swapped. -/
def VrFlow.turn (f : VrFlow) : VrFlow := { f with sip := f.dip, dip := f.sip }

/-- A key with its ports swapped. -/
def VrFlow.swapPorts (f : VrFlow) : VrFlow := { f with sport := f.dport, dport := f.sport }

/-- A key with its addresses and its ports swapped. -/
def VrFlow.mirror (f : VrFlow) : VrFlow := f.turn.swapPorts

/-- What is formed, with the key changed. -/
def Formed.mapKey (g : VrFlow → VrFlow) : Formed → Formed
  | .key f => .key (g f)
  | .flowSet => .flowSet
  | .drop reason => .drop reason
  | .undefined => .undefined

theorem Formed.mapKey_mapKey (g g' : VrFlow → VrFlow) (r : Formed) :
    (r.mapKey g).mapKey g' = r.mapKey (fun f => g' (g f)) := by
  cases r <;> rfl

section

variable {pkt reply : PktMd} (fam : Family) (proto : ℕ)

/-- The key of a packet that comes to the interface, from that of one with the addresses swapped
that the machine sends. -/
theorem fatFlowKey_back (hvm : pkt.vpIf.isVirtual) (hto : fatFlowVif reply = some pkt.vpIf)
    (hne : reply.vpIf.vifIdx ≠ pkt.vpIf.vifIdx) (sport dport : ℕ) (saddr daddr : List Byte) :
    fatFlowKey reply fam proto sport dport daddr saddr vrFlowKeyAll =
      (fatFlowKey pkt fam proto sport dport saddr daddr vrFlowKeyAll).mapKey fun f =>
        { f.turn with nhId := vrInetFlowNexthop reply } := by
  have hfrom : fatFlowVif pkt = some pkt.vpIf := if_pos hvm
  simp only [fatFlowKey, vrFlowFatFlowLookup, hto, hfrom, decide_true, hne, decide_false]
  rw [vifFatFlowLookup_back]
  cases vifFatFlowLookup true pkt.vpIf.fatFlow fam proto (ntohs sport) (ntohs dport) saddr daddr with
  | none => rfl
  | some r => rfl

theorem fatFlowKey_swapPorts (hvm : pkt.vpIf.isVirtual) (hproto : HasPorts proto) {sport dport : ℕ}
    (h : ntohs sport ≠ ntohs dport) (saddr daddr : List Byte) :
    fatFlowKey pkt fam proto dport sport saddr daddr vrFlowKeyAll =
      (fatFlowKey pkt fam proto sport dport saddr daddr vrFlowKeyAll).mapKey VrFlow.swapPorts := by
  have hfrom : fatFlowVif pkt = some pkt.vpIf := if_pos hvm
  simp only [fatFlowKey, vrFlowFatFlowLookup, hfrom, decide_true]
  rw [vifFatFlowLookup_swapPorts pkt.vpIf.fatFlow fam hproto h]
  cases vifFatFlowLookup true pkt.vpIf.fatFlow fam proto (ntohs sport) (ntohs dport) saddr daddr with
  | none => rfl
  | some r => rfl

end

/-! ### Replies -/

/-- Two words. -/
def Words (p : ℕ × ℕ) : Prop := p.1 < 2 ^ 16 ∧ p.2 < 2 ^ 16

theorem Words.ite {c : Prop} [Decidable c] {p q : ℕ × ℕ} (hp : Words p) (hq : Words q) :
    Words (if c then p else q) := by
  split
  · exact hp
  · exact hq

theorem words_le16 (t : List Byte) : Words (le16 t 0, le16 t 2) := ⟨le16_lt t 0, le16_lt t 2⟩

theorem words_icmpType (t : List Byte) : Words (0, icmpType t) :=
  ⟨Nat.two_pow_pos 16, (u8_lt t 0).trans (by decide)⟩

theorem headers_words (v : Version) (ip : List Byte) :
    Words ((headers v ip).sport, (headers v ip).dport) := by
  cases v with
  | v4 =>
    have hreply : vrIcmpTypeEchoReply < 2 ^ 16 := by decide
    refine Words.ite (Words.ite ⟨le16_lt _ 4, hreply⟩ (words_icmpType _)) ?_
    exact Words.ite (words_le16 _) ⟨by decide, by decide⟩
  | v6 =>
    have hreply : ntohs vrIcmp6TypeEchoReply < 2 ^ 16 := by decide
    refine Words.ite (Words.ite ⟨le16_lt _ 4, hreply⟩ (words_icmpType _)) ?_
    exact Words.ite (words_le16 _) ⟨by decide, by decide⟩

/-- The packet is an echo request or an echo reply. -/
def IsEcho : Version → List Byte → Prop
  | .v4, ip => ipProto ip = vrIpProtoIcmp ∧ vrIcmpEcho (ipTransport ip)
  | .v6, ip6 => ip6Proto ip6 = vrIpProtoIcmp6 ∧
      (icmpType (ip6Transport ip6) = vrIcmp6TypeEchoReq ∨
        icmpType (ip6Transport ip6) = vrIcmp6TypeEchoReply)

instance : ∀ v ip, Decidable (IsEcho v ip)
  | .v4, _ => inferInstanceAs (Decidable (_ ∧ _))
  | .v6, _ => inferInstanceAs (Decidable (_ ∧ _))

/-- The identifier of an echo message. -/
def echoId : Version → List Byte → ℕ
  | .v4, ip => icmpEid (ipTransport ip)
  | .v6, ip6 => icmpEid (ip6Transport ip6)

/-- The number in the place of the destination port of an echo message. -/
def echoPort : Version → ℕ
  | .v4 => vrIcmpTypeEchoReply
  | .v6 => ntohs vrIcmp6TypeEchoReply

theorem IsEcho.ports {v : Version} {ip : List Byte} (h : IsEcho v ip) :
    (headers v ip).sport = echoId v ip ∧ (headers v ip).dport = echoPort v := by
  cases v with
  | v4 =>
    have hports : inetPorts ip = (echoId .v4 ip, echoPort .v4) := (if_pos h.1).trans (if_pos h.2)
    exact ⟨congrArg Prod.fst hports, congrArg Prod.snd hports⟩
  | v6 =>
    have hports : inet6Ports ip = (echoId .v6 ip, echoPort .v6) := (if_pos h.1).trans (if_pos h.2)
    exact ⟨congrArg Prod.fst hports, congrArg Prod.snd hports⟩

/-- One packet answers another: the addresses are swapped, and the ports of a protocol that has
them; an echo message is answered by one with the same identifier. -/
structure IsReply (v : Version) (ip ip' : List Byte) : Prop where
  proto : (headers v ip').proto = (headers v ip).proto
  saddr : (headers v ip').saddr = (headers v ip).daddr
  daddr : (headers v ip').daddr = (headers v ip).saddr
  ports : HasPorts (headers v ip).proto →
    (headers v ip').sport = (headers v ip).dport ∧ (headers v ip').dport = (headers v ip).sport
  echo : ¬ HasPorts (headers v ip).proto →
    IsEcho v ip ∧ IsEcho v ip' ∧ echoId v ip' = echoId v ip

/-- The numbers in the places of the ports stay there in the reply to an echo message. -/
theorem IsReply.kept {v : Version} {ip ip' : List Byte} (h : IsReply v ip ip')
    (hproto : ¬ HasPorts (headers v ip).proto) :
    (headers v ip').sport = (headers v ip).sport ∧
      (headers v ip').dport = (headers v ip).dport := by
  obtain ⟨hecho, hecho', hid⟩ := h.echo hproto
  rw [hecho.ports.1, hecho.ports.2, hecho'.ports.1, hecho'.ports.2, hid]
  exact ⟨rfl, rfl⟩

/-- The fat-flow fields of a new interface after a request with port rules. -/
def portRules (rules : List ℕ) : VifFatFlow :=
  let fresh : VifFatFlow := ⟨[], [], [], fun _ => 0, noRules⟩
  let items := rules.map fun r => ⟨r, [], [], 0, 0, [], [], 0, 0⟩
  ((vifFatFlowAdd smallEnv fresh ⟨items, [], [], [], []⟩ fun _ => .null).map Prod.snd).getD fresh

/-- The interface of a machine. -/
def machineVif (fatFlow : VifFatFlow) : Vif := ⟨1, .virtual, false, 7, none, fatFlow⟩

/-- A packet that the machine sends. -/
def sent (fatFlow : VifFatFlow) : PktMd := ⟨machineVif fatFlow, none, 0, false⟩

/-- A packet that comes to the machine from the fabric. -/
def received (fatFlow : VifFatFlow) : PktMd where
  vpIf := ⟨0, .physical, false, 0, none, portRules []⟩
  vpNh := some ⟨7, .encap, true, false, some (machineVif fatFlow), []⟩
  vlan := 0
  outerSrcIp := true

/-- The packet from `10.0.0.src` to `10.0.0.dst` whose transport header starts with four bytes and
an identifier. -/
def packet4 (proto src dst : Byte) (transport : List Byte) : List Byte :=
  [0x45, 0, 0, 28, 0, 1, 0, 0, 64, proto, 0, 0, 10, 0, 0, src, 10, 0, 0, dst] ++ transport

end Vrouter.FlowKey
