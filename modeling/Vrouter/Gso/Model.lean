import Vrouter.Dpdk.Mbuf

/-! # Segmentation offload

A translation of `vr_dpdk_gso.c`.  `dpdk_segment_packet` makes segments of a packet that came from a
virtual machine as a chain of buffers: `dpdk_split_chained_mbuf` takes the chain apart and puts a copy
of the headers in front of every buffer but the first, `dpdk_gso_segment_ip_tcp` writes the lengths,
the sequence numbers, the flags and the checksums of the inner headers, and
`dpdk_adjust_outer_header` those of the outer ones.

A buffer has an address, so that it can be said where each one ends up: in the output, freed, or with
the caller.  A pointer to the inner IP header is the byte string from there on; `pkt_len` of a buffer
without a chain is the length of its data. -/

namespace Vrouter.Gso

open Vrouter.Lib Vrouter.Packet Vrouter.Dpdk

/-! ### Buffers -/

/-- The fields of `struct rte_mbuf` that segmentation writes beside the data. -/
structure MbufMd where
  l2Len : ℕ := 0
  l3Len : ℕ := 0
  vlanTci : ℕ := 0
  olFlags : ℕ := 0
  deriving DecidableEq, Repr

/-- A buffer: its address, its bytes, its other fields, and what the packet structure in its private
area says of the type of the packet. -/
structure Buf where
  addr : ℕ
  mbuf : Mbuf
  md : MbufMd := {}
  vpType : VpType := .null
  deriving DecidableEq, Repr

def Buf.data (m : Buf) : List Byte := m.mbuf.data

/-- A buffer with other data. -/
def Buf.withData (m : Buf) (d : List Byte) : Buf := { m with mbuf := { m.mbuf with data := d } }

/-- The packet: a chain of buffers, with what the first one says of it.  The length of a buffer has 16
bits. -/
structure Chain where
  head : Buf
  rest : List Buf
  nbSegs : ℕ
  pktLen : ℕ
  fits : ∀ m ∈ head :: rest, m.mbuf.headroom.length + m.mbuf.data.length < 2 ^ 16
  distinct : ((head :: rest).map Buf.addr).Nodup

def Chain.bufs (c : Chain) : List Buf := c.head :: c.rest

/-- What `dpdk_segment_packet` returns: the segments; or an error, the buffers that are still chained to
the one the caller has, and those that were freed. -/
inductive Result
  | segments (out : List Buf)
  | failed (ret : ℤ) (left freed : List Buf)
  deriving DecidableEq, Repr

/-! ### Splitting -/

section Library

variable [Rte]

/-- Room is made in front of a buffer, and the headers are copied there. -/
def Buf.addHeaders (m : Buf) (hdr : List Byte) (hdrLen : ℕ) : Option Buf :=
  (rtePktmbufPrepend m.mbuf hdrLen).map fun mb => { m with mbuf := { mb with data := setBytes mb.data 0 hdr } }

/-- The loop of `dpdk_split_chained_mbuf`: the buffers that are left, and those that are in `pkts_out`.
When it fails, the first one stays with the caller, and the others are freed. -/
def splitLoop (hdr : List Byte) (nbPktsOut totalSegs hdrLen : ℕ) :
    List Buf → List Buf → Except (List Buf) (List Buf)
  | [], out => .ok out
  | curr :: next, out =>
    match if out = [] then some curr else curr.addHeaders hdr hdrLen with
    | none => .error (out.tail ++ curr :: next)
    | some curr =>
      if out.length + 1 ≥ nbPktsOut ∨ out.length ≥ totalSegs then
        .error ((out ++ [curr]).tail ++ next)
      else splitLoop hdr nbPktsOut totalSegs hdrLen next (out ++ [curr])

def dpdkSplitChainedMbuf (c : Chain) (nbPktsOut hdrLen : ℕ) : Except (List Buf) (List Buf) :=
  splitLoop (c.head.data.take hdrLen) nbPktsOut c.nbSegs hdrLen c.bufs []

/-! ### The inner headers -/

/-- `struct dpdk_gso_state` -/
structure GsoState where
  isIpv6 : Bool
  macHlen : ℕ
  ipHlen : ℕ
  hlen : ℕ
  tcpSeq : ℕ
  ipId : ℕ
  txCksumOffload : Bool
  deriving DecidableEq, Repr

/-- `dpdk_gso_init_state`; `b` is the data of the first buffer. -/
def dpdkGsoInitState (b : List Byte) (macHlen : ℕ) (isIpv6 hwCksum : Bool) : Option GsoState :=
  let ip := b.drop macHlen
  let ipHlen := if isIpv6 then 40 else ipHl ip * 4
  if (if isIpv6 then ip6Nxt ip else ipProto ip) ≠ vrIpProtoTcp then none
  else some
    { isIpv6 := isIpv6
      macHlen := macHlen
      ipHlen := ipHlen
      hlen := macHlen + ipHlen + tcpOffset ip ipHlen * 4
      tcpSeq := tcpSeq ip ipHlen
      ipId := be16 ip 4
      txCksumOffload := hwCksum }

def rteTcpCwrFlag : ℕ := 0x80
def rteTcpPshFlag : ℕ := 0x08
def rteTcpFinFlag : ℕ := 0x01

/-- The flags of one segment: CWR only in the first one, FIN and PSH only in the last one. -/
def segmentFlags (first last : Bool) (flags : ℕ) : ℕ :=
  let flags := if first then flags else flags &&& (255 - rteTcpCwrFlag)
  if last then flags else flags &&& (255 - (rteTcpFinFlag + rteTcpPshFlag))

/-- The flags of a TCP header at an offset are written. -/
def writeFlags (first last : Bool) (ip : List Byte) (t : ℕ) : List Byte :=
  ip.set (t + 13) (Fin.ofNat 256 (segmentFlags first last (u8 ip (t + 13))))

/-- The bytes that `dpdk_gso_ipv4_tcp_internal` writes; `olFlags` and `pktLen` are those of the
buffer. -/
def ipv4TcpInternal (st : GsoState) (olFlags pktLen : ℕ) (ip : List Byte) : List Byte :=
  let t := st.ipHlen
  let ip := set16 ip 4 (swap16 st.ipId)
  let ip := set16 ip 2 (swap16 ((pktLen + 2 ^ 32 - st.macHlen) % 2 ^ 16))
  let ip := setBytes ip (t + 4) (beBytes32 st.tcpSeq)
  if st.txCksumOffload then
    let ip := set16 (set16 ip 10 0) (t + 16) 0
    set16 ip (t + 16) (rteIpv4PhdrCksum ip olFlags)
  else
    let ip := set16 ip (t + 16) 0
    let ip := set16 ip (t + 16) (rteIpv4UdptcpCksum ip t)
    let ip := set16 ip 10 0
    set16 ip 10 (rteIpv4Cksum ip)

/-- The bytes that `dpdk_gso_ipv6_tcp_internal` writes. -/
def ipv6TcpInternal (st : GsoState) (olFlags pktLen : ℕ) (ip : List Byte) : List Byte :=
  let t := st.ipHlen
  let ip := set16 ip 4 (swap16 ((pktLen + 2 ^ 32 - st.macHlen - st.ipHlen) % 2 ^ 16))
  let ip := setBytes ip (t + 4) (beBytes32 st.tcpSeq)
  let ip := set16 ip (t + 16) 0
  set16 ip (t + 16)
    (if st.txCksumOffload then rteIpv6PhdrCksum ip olFlags else rteIpv6UdptcpCksum ip t)

/-- What is written behind the outer header of one segment. -/
def segmentInner (st : GsoState) (first last : Bool) (olFlags pktLen : ℕ) (ip : List Byte) :
    List Byte :=
  let ip := writeFlags first last ip st.ipHlen
  if st.isIpv6 then ipv6TcpInternal st olFlags pktLen ip else ipv4TcpInternal st olFlags pktLen ip

/-- The flags for the checksums that the hardware computes. -/
def txFlags (isIpv6 : Bool) : ℕ :=
  if isIpv6 then pktTxIpv6 ||| pktTxTcpCksum else pktTxIpCksum ||| pktTxIpv4 ||| pktTxTcpCksum

/-- What `dpdk_gso_ipv4_tcp_internal` and `dpdk_gso_ipv6_tcp_internal` write beside the data. -/
def internalMd (st : GsoState) (md : MbufMd) : MbufMd :=
  if st.txCksumOffload then
    { md with
      l2Len := st.macHlen
      l3Len := st.ipHlen
      olFlags := md.olFlags ||| txFlags st.isIpv6 }
  else md

/-- The state for the next segment. -/
def GsoState.next (st : GsoState) (pktLen : ℕ) : GsoState :=
  { st with
    tcpSeq := (st.tcpSeq + (pktLen + 2 ^ 32 - st.hlen)) % 2 ^ 32
    ipId := (st.ipId + 1) % 2 ^ 16 }

/-- One round of the loop of `dpdk_gso_segment_ip_tcp`. -/
def segmentOne (st : GsoState) (first last : Bool) (m : Buf) : Buf :=
  { m.withData (m.data.take st.macHlen ++
      segmentInner st first last m.md.olFlags m.data.length (m.data.drop st.macHlen)) with
    md := internalMd st m.md }

/-- The loop of `dpdk_gso_segment_ip_tcp`. -/
def segmentLoop (first : Bool) : GsoState → List Buf → List Buf
  | _, [] => []
  | st, m :: ms => segmentOne st first ms.isEmpty m :: segmentLoop false (st.next m.data.length) ms

/-! ### The outer header -/

def dpdkGetEtherHeaderLen (b : List Byte) : ℕ := if be16 b 12 = 0x8100 then 18 else 14

def vrGenerateUniqueIpId (vrIpId : ℕ) : ℕ :=
  if (vrIpId + 1) % 2 ^ 16 = 0 then 1 else (vrIpId + 1) % 2 ^ 16

/-- What `dpdk_adjust_outer_header` writes; `id` is the new `ip_id`. -/
def writeOuter (id : ℕ) (b : List Byte) : List Byte :=
  let eth := dpdkGetEtherHeaderLen b
  let b := set16 b (eth + 2) (swap16 ((b.length + 2 ^ 32 - eth) % 2 ^ 16))
  let b := set16 b (eth + 4) id
  let hl := u8 b eth % 16 * 4
  let b :=
    if u8 b (eth + 9) = vrIpProtoUdp then
      set16 b (eth + hl + 4) (swap16 ((be16 b (eth + 2) + 2 ^ 16 - hl) % 2 ^ 16))
    else b
  set16 b (eth + 10) (vrIpCsum (b.drop eth))

/-- `rte_pktmbuf_adj` and `dpdk_adjust_outer_header`. -/
def dpdkAdjustOuterHeader (outerHeaderLen vrIpId : ℕ) (m : Buf) : Buf × ℕ :=
  let inner := (rtePktmbufAdj m.mbuf outerHeaderLen).getD m.mbuf
  let mb := (rtePktmbufPrepend inner outerHeaderLen).getD inner
  let (id, vrIpId) :=
    if m.vpType = .ipoip then (ipId inner.data, vrIpId)
    else (swap16 (vrGenerateUniqueIpId vrIpId), vrGenerateUniqueIpId vrIpId)
  ({ m with mbuf := { mb with data := writeOuter id mb.data } }, vrIpId)

/-- What the last loop of `dpdk_segment_packet` writes beside the data. -/
def finalMd (mbufIn md : MbufMd) : MbufMd := { mbufIn with olFlags := md.olFlags ||| mbufIn.olFlags }

/-- The last loop of `dpdk_segment_packet`; `mbufIn` is what the first buffer says. -/
def adjustLoop (outerHeaderLen : ℕ) (mbufIn : MbufMd) : ℕ → List Buf → List Buf
  | _, [] => []
  | vrIpId, m :: ms =>
    let (m, vrIpId) := dpdkAdjustOuterHeader outerHeaderLen vrIpId m
    { m with md := finalMd mbufIn m.md } :: adjustLoop outerHeaderLen mbufIn vrIpId ms

/-! ### Segmentation -/

def dpdkSegmentPacket (vrIpId : ℕ) (c : Chain) (isIpv6 : Bool) (outerHeaderLen outNum mssSize : ℕ)
    (doOuterIpCsum : Bool) : Result :=
  match dpdkGsoInitState c.head.data outerHeaderLen isIpv6 doOuterIpCsum with
  | none => .failed (-1) c.bufs []
  | some st =>
    if mssSize * outNum < (c.pktLen + 2 ^ 32 - st.hlen) % 2 ^ 16 then .failed (-22) c.bufs []
    else
      match dpdkSplitChainedMbuf c outNum st.hlen with
      | .error freed => .failed (-1) [c.head] freed
      | .ok out =>
        -- the first segment is the buffer that came in
        .segments (adjustLoop outerHeaderLen (internalMd st c.head.md) vrIpId
          (segmentLoop true st out))

end Library

end Vrouter.Gso
