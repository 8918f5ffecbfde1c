import Vrouter.Packet.Checksum

/-! # The data plane library

What the DPDK data path takes from the library it is built on.  A packet buffer (`struct rte_mbuf`) has
data, and in front of it a headroom whose bytes stay what they are: data that was cut off in front
(`rte_pktmbuf_adj`) can be put back (`rte_pktmbuf_prepend`).  A packet is a chain of such buffers.

The functions of the library are parameters (`Rte`, `RteHash`), and what it documents of them are
assumptions (`LawfulRte`, `LawfulRteHash`).  Its checksums add up words as a little-endian machine
reads them; they are determined only modulo `2 ^ 16 - 1`, since which of the two zeros a function
returns differs between its releases. -/

namespace Vrouter.Dpdk

open Vrouter.Lib Vrouter.Packet

/-! ### Buffers -/

/-- `struct rte_mbuf`: the bytes in front of the data, and the data. -/
structure Mbuf where
  headroom : List Byte
  data : List Byte
  deriving DecidableEq, Repr

/-- The data of a chain. -/
def chainData (ms : List Mbuf) : List Byte := ms.flatMap Mbuf.data

@[simp] theorem chainData_nil : chainData [] = [] := rfl

@[simp] theorem chainData_cons (m : Mbuf) (ms : List Mbuf) :
    chainData (m :: ms) = m.data ++ chainData ms := rfl

@[simp] theorem chainData_append (ms ns : List Mbuf) :
    chainData (ms ++ ns) = chainData ms ++ chainData ns := List.flatMap_append

/-! ### Fields of a TCP header at an offset -/

def tcpSport (b : List Byte) (t : ℕ) : ℕ := be16 b t
def tcpDport (b : List Byte) (t : ℕ) : ℕ := be16 b (t + 2)
def tcpSeq (b : List Byte) (t : ℕ) : ℕ := be32 b (t + 4)
def tcpAck (b : List Byte) (t : ℕ) : ℕ := be32 b (t + 8)

/-- `VR_TCP_OFFSET` -/
def tcpOffset (b : List Byte) (t : ℕ) : ℕ := u8 b (t + 12) / 16

/-- `VR_TCP_FLAGS` -/
def tcpFlags (b : List Byte) (t : ℕ) : ℕ := be16 b (t + 12) % 2 ^ 9

def tcpWin (b : List Byte) (t : ℕ) : ℕ := be16 b (t + 14)
def tcpCsum (b : List Byte) (t : ℕ) : ℕ := le16 b (t + 16)

/-! ### Functions on buffers and packets -/

/-- The functions that are called on packets, and the flags of a buffer (`ol_flags`) that are set.  A
checksum has 16 bits. -/
class Rte where
  /-- `rte_pktmbuf_adj` -/
  rtePktmbufAdj : Mbuf → ℕ → Option Mbuf
  /-- `rte_pktmbuf_prepend` -/
  rtePktmbufPrepend : Mbuf → ℕ → Option Mbuf
  /-- `rte_ipv4_phdr_cksum`, of an IP header and the flags of its buffer. -/
  rteIpv4PhdrCksum : List Byte → ℕ → Fin (2 ^ 16)
  /-- `rte_ipv6_phdr_cksum` -/
  rteIpv6PhdrCksum : List Byte → ℕ → Fin (2 ^ 16)
  /-- `rte_ipv4_udptcp_cksum`, of an IP header and the offset of the transport header. -/
  rteIpv4UdptcpCksum : List Byte → ℕ → Fin (2 ^ 16)
  /-- `rte_ipv6_udptcp_cksum` -/
  rteIpv6UdptcpCksum : List Byte → ℕ → Fin (2 ^ 16)
  /-- `rte_ipv4_cksum` -/
  rteIpv4Cksum : List Byte → Fin (2 ^ 16)
  pktTxIpCksum : ℕ
  pktTxIpv4 : ℕ
  pktTxIpv6 : ℕ
  pktTxTcpCksum : ℕ

export Rte (rtePktmbufAdj rtePktmbufPrepend rteIpv4PhdrCksum rteIpv6PhdrCksum rteIpv4UdptcpCksum
  rteIpv6UdptcpCksum rteIpv4Cksum pktTxIpCksum pktTxIpv4 pktTxIpv6 pktTxTcpCksum)

/-- The words of the pseudo-header of an IPv4 packet without options. -/
def ipv4PhdrSum (ip : List Byte) : ℕ :=
  wordSum (slice ip 12 8) + 256 * ipProto ip + swap16 (be16 ip 2 - 20)

/-- The words of the pseudo-header of an IPv6 packet. -/
def ipv6PhdrSum (ip6 : List Byte) : ℕ :=
  wordSum (slice ip6 8 32) + ip6Plen ip6 + 256 * ip6Nxt ip6

/-- **What is documented of these functions.**  Bytes are cut off in front of the data, and room is made
there if there is enough headroom.  Without flags the checksums of a pseudo-header are the sum over it,
and those of a packet without IP options, all of which is there, the complement of the sum over its
pseudo-header and the rest. -/
class LawfulRte [Rte] : Prop where
  adj_eq : ∀ {m : Mbuf} {len : ℕ}, len ≤ m.data.length →
    rtePktmbufAdj m len = some ⟨m.headroom ++ m.data.take len, m.data.drop len⟩
  prepend_eq : ∀ {m : Mbuf} {len : ℕ}, len ≤ m.headroom.length →
    rtePktmbufPrepend m len = some ⟨m.headroom.take (m.headroom.length - len),
      m.headroom.drop (m.headroom.length - len) ++ m.data⟩
  prepend_none : ∀ {m : Mbuf} {len : ℕ}, m.headroom.length < len → rtePktmbufPrepend m len = none
  ipv4Phdr : ∀ ip : List Byte, ipHl ip = 5 → 20 ≤ be16 ip 2 →
    ((rteIpv4PhdrCksum ip 0 : ℕ) : ZMod 65535) = (ipv4PhdrSum ip : ℕ)
  ipv6Phdr : ∀ ip6 : List Byte, ((rteIpv6PhdrCksum ip6 0 : ℕ) : ZMod 65535) = (ipv6PhdrSum ip6 : ℕ)
  ipv4Udptcp : ∀ ip : List Byte, ipHl ip = 5 → 20 ≤ be16 ip 2 → be16 ip 2 ≤ ip.length →
    ((rteIpv4UdptcpCksum ip 20 : ℕ) : ZMod 65535) =
      -((ipv4PhdrSum ip : ℕ) + (wordSum (slice ip 20 (be16 ip 2 - 20)) : ℕ))
  ipv6Udptcp : ∀ ip6 : List Byte, 40 + be16 ip6 4 ≤ ip6.length →
    ((rteIpv6UdptcpCksum ip6 40 : ℕ) : ZMod 65535) =
      -((ipv6PhdrSum ip6 : ℕ) + (wordSum (slice ip6 40 (be16 ip6 4)) : ℕ))

section Lawful

variable [Rte] [LawfulRte] {m m' : Mbuf} {len : ℕ}

/-- What was cut off can be put back. -/
theorem prepend_of_adj (h : len ≤ m.data.length) :
    rtePktmbufPrepend ⟨m.headroom ++ m.data.take len, m.data.drop len⟩ len = some m := by
  have hlen : (m.headroom ++ m.data.take len).length = m.headroom.length + len := by
    rw [List.length_append, List.length_take, Nat.min_eq_left h]
  rw [LawfulRte.prepend_eq (by dsimp only; omega)]
  dsimp only
  rw [hlen, Nat.add_sub_cancel, List.take_left, List.drop_left, List.take_append_drop]

theorem drop_of_prepend (h : rtePktmbufPrepend m len = some m') : m'.data.drop len = m.data := by
  by_cases hroom : len ≤ m.headroom.length
  · rw [LawfulRte.prepend_eq hroom] at h
    cases h
    apply List.drop_left'
    rw [List.length_drop]
    omega
  · rw [LawfulRte.prepend_none (by omega)] at h
    cases h

end Lawful

/-! ### Hash tables -/

/-- `struct rte_hash`, with keys in `κ` and data in `α`. -/
class RteHash (κ α : Type) where
  Table : Type
  /-- `rte_hash_create` -/
  rteHashCreate : Table
  /-- `rte_hash_lookup_data` -/
  rteHashLookupData : Table → κ → Option α
  /-- `rte_hash_add_key_data`, when it succeeds. -/
  rteHashAddKeyData : Table → κ → α → Table
  /-- `rte_hash_del_key` -/
  rteHashDelKey : Table → κ → Table
  /-- What `rte_hash_iterate` goes through. -/
  rteHashIterate : Table → List (κ × α)

export RteHash (rteHashCreate rteHashLookupData rteHashAddKeyData rteHashDelKey rteHashIterate)

/-- **What is documented of a table**: it holds the data that was added last for a key, and going
through it meets every key once. -/
class LawfulRteHash (κ α : Type) [DecidableEq κ] [RteHash κ α] : Prop where
  lookup_create : ∀ k : κ, rteHashLookupData (rteHashCreate : RteHash.Table κ α) k = none
  lookup_add : ∀ (t : RteHash.Table κ α) (k k' : κ) (a : α),
    rteHashLookupData (rteHashAddKeyData t k a) k' = if k' = k then some a else rteHashLookupData t k'
  lookup_del : ∀ (t : RteHash.Table κ α) (k k' : κ),
    rteHashLookupData (rteHashDelKey t k) k' = if k' = k then none else rteHashLookupData t k'
  mem_iterate : ∀ {t : RteHash.Table κ α} {k : κ} {a : α},
    (k, a) ∈ rteHashIterate t ↔ rteHashLookupData t k = some a
  nodup_iterate : ∀ t : RteHash.Table κ α, ((rteHashIterate t).map Prod.fst).Nodup

theorem slice_length_le (b : List Byte) (i n : ℕ) : (slice b i n).length ≤ n := by
  rw [slice, List.length_take]
  exact min_le_left _ _

theorem wordSum_slice_le (b : List Byte) (i n : ℕ) : wordSum (slice b i n) ≤ 65280 * n :=
  (wordSumFrom_le _ 0).trans (Nat.mul_le_mul le_rfl (slice_length_le b i n))

/-! ### One library that does what is documented

It is there so that the theorems can be used on packets.  `onesForZero` is for the releases in which a
checksum of zero is written as all ones, for TCP as for UDP. -/

namespace Sample

def fold (s : ℕ) : Fin (2 ^ 16) := ⟨fold16 (s % 2 ^ 32), fold16_lt (Nat.mod_lt _ (by decide))⟩

/-- The complement of a sum. -/
def finish (onesForZero : Bool) (s : ℕ) : Fin (2 ^ 16) :=
  let c := not16 (fold s)
  if onesForZero ∧ c = 0 then 65535 else ⟨c, not16_lt _⟩

/-- `rte_mbuf` and the checksums. -/
@[reducible] def rteOf (onesForZero : Bool) : Rte where
  rtePktmbufAdj m len :=
    if m.data.length < len then none
    else some ⟨m.headroom ++ m.data.take len, m.data.drop len⟩
  rtePktmbufPrepend m len :=
    if m.headroom.length < len then none
    else some ⟨m.headroom.take (m.headroom.length - len),
      m.headroom.drop (m.headroom.length - len) ++ m.data⟩
  rteIpv4PhdrCksum ip _ := fold (ipv4PhdrSum ip)
  rteIpv6PhdrCksum ip6 _ := fold (ipv6PhdrSum ip6)
  rteIpv4UdptcpCksum ip t := finish onesForZero (ipv4PhdrSum ip + wordSum (slice ip t (be16 ip 2 - 20)))
  rteIpv6UdptcpCksum ip6 t := finish onesForZero (ipv6PhdrSum ip6 + wordSum (slice ip6 t (be16 ip6 4)))
  rteIpv4Cksum ip := finish false (wordSum (ip.take 20))
  pktTxIpCksum := 1
  pktTxIpv4 := 2
  pktTxIpv6 := 4
  pktTxTcpCksum := 8

theorem fold_cast {s : ℕ} (h : s < 2 ^ 32) : ((fold s : ℕ) : ZMod 65535) = (s : ℕ) := by
  change ((fold16 (s % 2 ^ 32) : ℕ) : ZMod 65535) = _
  rw [Nat.mod_eq_of_lt h, fold16_cast h]

theorem finish_cast {onesForZero : Bool} {s : ℕ} (h : s < 2 ^ 32) :
    ((finish onesForZero s : ℕ) : ZMod 65535) = -(s : ℕ) := by
  have hnot : (not16 (fold s) : ZMod 65535) = -(s : ℕ) := by
    rw [not16_cast (fold s).isLt, fold_cast h]
  unfold finish
  dsimp only
  split_ifs with hzero
  · rw [hzero.2, Nat.cast_zero] at hnot
    rw [← hnot]
    exact ZMod.natCast_self 65535
  · exact hnot

theorem ipv4PhdrSum_le (ip : List Byte) : ipv4PhdrSum ip ≤ 2 ^ 20 := by
  have h1 := wordSum_slice_le ip 12 8
  have h2 : ipProto ip < 256 := u8_lt ip 9
  have h3 := swap16_lt (be16 ip 2 - 20)
  unfold ipv4PhdrSum
  omega

theorem ipv6PhdrSum_le (ip6 : List Byte) : ipv6PhdrSum ip6 ≤ 2 ^ 22 := by
  have h1 := wordSum_slice_le ip6 8 32
  have h2 : ip6Nxt ip6 < 256 := u8_lt ip6 6
  have h3 : ip6Plen ip6 < 2 ^ 16 := le16_lt ip6 4
  unfold ipv6PhdrSum
  omega

theorem rteOf_lawful (onesForZero : Bool) : @LawfulRte (rteOf onesForZero) := by
  refine @LawfulRte.mk (rteOf onesForZero) (fun h => if_neg (by omega)) (fun h => if_neg (by omega))
    (fun h => if_pos h) (fun ip _ _ => fold_cast ?_) (fun ip6 => fold_cast ?_)
    (fun ip _ _ _ => (finish_cast ?_).trans ?_) (fun ip6 _ => (finish_cast ?_).trans ?_)
  · have := ipv4PhdrSum_le ip
    omega
  · have := ipv6PhdrSum_le ip6
    omega
  · have h1 := ipv4PhdrSum_le ip
    have h2 := wordSum_slice_le ip 20 (be16 ip 2 - 20)
    have h3 := be16_lt ip 2
    omega
  · push_cast
    rfl
  · have h1 := ipv6PhdrSum_le ip6
    have h2 := wordSum_slice_le ip6 40 (be16 ip6 4)
    have h3 := be16_lt ip6 4
    omega
  · push_cast
    rfl

scoped instance rte : Rte := rteOf true

scoped instance lawfulRte : LawfulRte := rteOf_lawful true

/-- A table as a list of its entries. -/
scoped instance rteHash (κ α : Type) [DecidableEq κ] : RteHash κ α where
  Table := { l : List (κ × α) // (l.map Prod.fst).Nodup }
  rteHashCreate := ⟨[], List.nodup_nil⟩
  rteHashLookupData t k := t.1.lookup k
  rteHashAddKeyData t k a := ⟨(k, a) :: t.1.filter (fun x => x.1 ≠ k), by
    refine List.nodup_cons.mpr ⟨fun hk => ?_, t.2.sublist (List.filter_sublist.map Prod.fst)⟩
    obtain ⟨x, hx, rfl⟩ := List.mem_map.mp hk
    simpa using (List.mem_filter.mp hx).2⟩
  rteHashDelKey t k := ⟨t.1.filter fun x => x.1 ≠ k, t.2.sublist (List.filter_sublist.map Prod.fst)⟩
  rteHashIterate t := t.1

section

variable {κ α : Type} [DecidableEq κ]

theorem lookup_filter (l : List (κ × α)) (k k' : κ) :
    (l.filter fun x => x.1 ≠ k).lookup k' = if k' = k then none else l.lookup k' := by
  induction l with
  | nil => simp
  | cons x l ih =>
    rw [List.filter_cons, List.lookup_cons]
    by_cases hx : x.1 = k
    · rw [if_neg (by simpa using hx), ih]
      split_ifs with hk
      · rfl
      · rw [beq_false_of_ne (by rw [hx]; exact hk)]
    · rw [if_pos (by simpa using hx), List.lookup_cons, ih]
      by_cases hk : k' = k
      · rw [if_pos hk, if_pos hk, beq_false_of_ne (by rw [hk]; exact Ne.symm hx)]
      · rw [if_neg hk, if_neg hk]

theorem mem_iff_lookup {l : List (κ × α)} (h : (l.map Prod.fst).Nodup) {k : κ} {a : α} :
    (k, a) ∈ l ↔ l.lookup k = some a := by
  constructor
  · intro hmem
    obtain ⟨l₁, l₂, rfl⟩ := List.append_of_mem hmem
    refine List.lookup_eq_some_iff.mpr ⟨l₁, l₂, rfl, fun x hx => bne_iff_ne.mpr ?_⟩
    rw [List.map_append, List.nodup_append] at h
    exact fun he => h.2.2 x.1 (List.mem_map_of_mem hx) k (List.mem_map.mpr ⟨_, List.mem_cons_self, rfl⟩)
      he.symm
  · intro hl
    obtain ⟨l₁, l₂, rfl, -⟩ := List.lookup_eq_some_iff.mp hl
    simp

scoped instance lawfulRteHash : LawfulRteHash κ α where
  lookup_create _ := rfl
  lookup_add t k k' a := by
    change List.lookup k' ((k, a) :: _) = _
    rw [List.lookup_cons, lookup_filter]
    by_cases hk : k' = k
    · rw [hk, beq_self_eq_true]
      exact (if_pos rfl).symm
    · rw [beq_false_of_ne hk, if_neg hk, if_neg hk]
      rfl
  lookup_del t k k' := lookup_filter t.1 k k'
  mem_iterate := fun {t} _ _ => mem_iff_lookup t.2
  nodup_iterate t := t.2

end

end Sample

end Vrouter.Dpdk
