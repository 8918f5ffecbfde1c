import Vrouter.Dpdk.Mbuf

/-! # Receive offload

A translation of `vr_dpdk_gro.c`.  `dpdk_gro_process` looks at a frame for a virtual machine, just
before it would be sent there.  A TCP segment that continues the last one of its flow is cut down to
its payload and chained to the buffers that an entry of the flow holds; one that does not, makes the
entry be flushed and goes on by itself.  `dpdk_gro_flush` writes the lengths, the acknowledgement, the
window, the timestamps and the checksums into the header of the first segment and sends the chain.

A frame comes on a core with tables.  It is given by its buffers, without the `struct vr_gro` in
front, whose two indices are fields of their own.  What the router looks up when a frame comes is a
parameter of the step, so nexthops and interfaces may come and go in between. -/

namespace Vrouter.Gro

open Vrouter.Lib Vrouter.Packet Vrouter.Dpdk

/-! ### Surroundings -/

/-- `struct vr_interface` -/
structure Vif where
  vifIdx : ℕ
  vifGen : ℕ := 0
  isVirtual : Bool := true
  groNeeded : Bool := true
  mrgRxbuf : Bool := true
  deriving DecidableEq, Repr

/-- `struct vr_nexthop` -/
structure Nh where
  nhDev : Option Vif
  bridge : Bool := false
  deriving DecidableEq, Repr

/-- What is looked up in the router; `pktTypeOk` is what `vr_pkt_type` says of a packet. -/
structure Router where
  nexthop : ℕ → Option Nh
  interface : ℕ → Option Vif
  pktTypeOk : List Byte → Bool

/-- A frame, and the interface it is for: the first buffer, in which the network header is `nwOff`
bytes behind the start, and the other buffers of the chain.  The length of a buffer has 16 bits. -/
structure Frame where
  vif : Vif
  vgVifId : ℕ
  vgNhId : ℕ
  head : Mbuf
  nwOff : ℕ
  rest : List Mbuf := []
  fits : head.data.length < 2 ^ 16
  deriving DecidableEq

/-- The bytes of the first buffer from the network header on. -/
def Frame.nw (f : Frame) : List Byte := f.head.data.drop f.nwOff

/-- All bytes from the network header on. -/
def Frame.bytes (f : Frame) : List Byte := f.nw ++ chainData f.rest

/-! ### What is read off a frame -/

/-- `struct vr_dpdk_gro_flow_key_v4` and `struct vr_dpdk_gro_flow_key_v6`, each for its own table. -/
structure GroKey where
  isIpv6 : Bool
  ipSrc : List Byte
  ipDst : List Byte
  portSrc : ℕ
  portDst : ℕ
  proto : ℕ
  vifIdx : ℕ
  deriving DecidableEq, Repr

/-- What `dpdk_gro_process` reads of the IP header: the flow, where the TCP header is, the length of
the packet, the length from the TCP header on, and whether the packet has options or is a fragment. -/
structure IpPart where
  key : GroKey
  hlen : ℕ
  ipPktLen : ℕ
  l4Len : ℕ
  flush : Bool
  deriving DecidableEq, Repr

/-- `IP_MF | IP_OFFMASK` -/
def ipFragMask : ℕ := 0x3FFF

/-- The part of `dpdk_gro_process` on the IP header. -/
def parseIp (vifIdx : ℕ) (b : List Byte) : Option IpPart :=
  if vrIpIsIp6 b then
    if ip6Nxt b ≠ vrIpProtoTcp then none
    else some
      { key := ⟨true, ip6Src b, ip6Dst b, tcpSport b 40, tcpDport b 40, ip6Nxt b, vifIdx⟩
        hlen := 40
        ipPktLen := (be16 b 4 + 40) % 2 ^ 16
        l4Len := be16 b 4
        flush := false }
  else if vrIpIsIp4 b then
    if ipProto b ≠ vrIpProtoTcp then none
    else some
      { key := ⟨false, ipSaddr b, ipDaddr b, tcpSport b (ipHl b * 4), tcpDport b (ipHl b * 4),
          ipProto b, vifIdx⟩
        hlen := ipHl b * 4
        ipPktLen := be16 b 2
        l4Len := (be16 b 2 + 2 ^ 16 - ipHl b * 4) % 2 ^ 16
        flush := be16 b 6 &&& ipFragMask ≠ 0 || ipHl b * 4 ≠ 20 }
  else none

/-- `VR_TCP_FLAG_ACK` -/
def tcpFlagAck : ℕ := 0x10

/-- The word of two paddings and a timestamp option. -/
def timestampOption : List Byte := [1, 1, 8, 10]

def tcpolenTstampAppa : ℕ := 12

/-- The length of the TCP header. -/
def tcpHlen (b : List Byte) (t : ℕ) : ℕ := tcpOffset b t * 4

/-- `l`: the length of the TCP options. -/
def optionLen (b : List Byte) (t : ℕ) : ℕ := (tcpHlen b t + 2 ^ 16 - 20) % 2 ^ 16

def IpPart.tcpDataLen (p : IpPart) (b : List Byte) : ℕ :=
  (p.l4Len + 2 ^ 16 - tcpHlen b p.hlen) % 2 ^ 16

/-- Whether a segment can not be merged. -/
def Frame.flush (f : Frame) (p : IpPart) : Bool :=
  let b := f.nw
  f.rest ≠ [] || p.flush || tcpFlags b p.hlen &&& (0x1FF - tcpFlagAck) ≠ 0 ||
    (optionLen b p.hlen ≠ 0 && (optionLen b p.hlen ≠ tcpolenTstampAppa ||
      slice b (p.hlen + 20) 4 ≠ timestampOption)) ||
    p.tcpDataLen b % 2 = 1

/-! ### Entries -/

/-- `struct gro_entry`.  The header that `leip` points to is where the data of `mbufHead` starts. -/
structure GroEntry where
  isIpv6 : Bool
  mbufHead : Mbuf
  mbufNext : List Mbuf
  srcVifIdx : ℕ
  srcVifGen : ℕ
  dstVifIdx : ℕ
  dstVifGen : ℕ
  nhId : ℕ
  mbufCnt : ℕ
  pLen : ℕ
  ulpCsum : ℕ
  nextSeq : ℕ
  ackSeq : ℕ
  tsval : ℕ
  tsecr : ℕ
  window : ℕ
  timestamp : Bool
  mtime : ℕ
  segSz : ℕ
  deriving DecidableEq, Repr

/-- The two tables.  A table holds pointers to entries; here an entry that is written to is filed again
under its key. -/
abbrev Table [RteHash GroKey GroEntry] := RteHash.Table GroKey GroEntry

/-! ### Checksums -/

/-- `dpdk_gro_csum_tcph`: the sum over the TCP header, in which the checksum is zero then. -/
def dpdkGroCsumTcph (b : List Byte) (t : ℕ) : ℕ :=
  fold16 (wordSum (slice (set16 b (t + 16) 0) t (tcpHlen b t)))

/-- `dpdk_gro_rx_csum_fixup`: the checksum less those of the headers; for the first packet of an entry
the addresses and the protocol stay. -/
def dpdkGroRxCsumFixup [Rte] (mbufCnt : ℕ) (isIpv6 : Bool) (b : List Byte) (t csum : ℕ) : ℕ :=
  let cs :=
    if isIpv6 then
      if mbufCnt = 1 then be16 b 4 else swap16 (rteIpv6PhdrCksum b 0)
    else if mbufCnt = 1 then (be16 b 2 + 2 ^ 16 - 20) % 2 ^ 16
    else swap16 (rteIpv4PhdrCksum b 0)
  fold16 (csum + not16 cs + swap16 (not16 (dpdkGroCsumTcph b t)))

/-! ### Flushing -/

/-- Where the TCP header of an entry is. -/
def GroEntry.tcpOff (e : GroEntry) : ℕ := if e.isIpv6 then 40 else 20

/-- The IP header gets the length of the merged packet. -/
def GroEntry.writeIp (e : GroEntry) (b : List Byte) : List Byte :=
  if e.isIpv6 then set16 b 4 (swap16 ((e.pLen + 2 ^ 32 - 40) % 2 ^ 16))
  else
    let cl := swap16 (not16 (ipCsum b)) + swap16 (not16 (ipLen b)) + e.pLen
    set16 (set16 b 10 (swap16 (not16 (fold16 cl)))) 2 (swap16 (e.pLen % 2 ^ 16))

/-- The TCP header gets the last acknowledgement, window and timestamps. -/
def GroEntry.writeTcp (e : GroEntry) (b : List Byte) : List Byte :=
  let t := e.tcpOff
  let b := set16 (setBytes b (t + 8) (beBytes32 e.ackSeq)) (t + 14) (swap16 e.window)
  if e.timestamp then
    setBytes (setBytes b (t + 24) (beBytes32 e.tsval)) (t + 28) (beBytes32 e.tsecr)
  else b

/-- The TCP header gets its checksum. -/
def GroEntry.writeCsum (e : GroEntry) (b : List Byte) : List Byte :=
  let t := e.tcpOff
  let ulpCsum := (e.ulpCsum + (e.pLen + 2 ^ 32 - t) + swap16 (dpdkGroCsumTcph b t)) % 2 ^ 32
  set16 b (t + 16) (swap16 (not16 (fold16 ulpCsum)))

/-- The first buffer of a flushed entry. -/
def GroEntry.header (e : GroEntry) : Mbuf :=
  if 1 < e.mbufCnt then
    { e.mbufHead with data := e.writeCsum (e.writeTcp (e.writeIp e.mbufHead.data)) }
  else e.mbufHead

/-- A packet that is sent: its buffers, of which the first starts with `l2Len` bytes in front of the
network header, `pkt_len`, `nb_segs` and `tso_segsz`. -/
structure Merged where
  nhId : ℕ
  l2Len : ℕ
  head : Mbuf
  rest : List Mbuf
  pktLen : ℕ
  nbSegs : ℕ
  tsoSegsz : ℕ
  deriving DecidableEq, Repr

/-- All bytes from the network header on. -/
def Merged.bytes (p : Merged) : List Byte := p.head.data.drop p.l2Len ++ chainData p.rest

/-- The packet of an entry, before the header of the link is put in front. -/
def GroEntry.packet (e : GroEntry) : Merged where
  nhId := e.nhId
  l2Len := 0
  head := e.header
  rest := e.mbufNext
  pktLen := if 1 < e.mbufCnt then e.pLen else e.header.data.length
  nbSegs := if 1 < e.mbufCnt then e.mbufCnt else 1
  tsoSegsz := if 1 < e.mbufCnt then e.segSz else 0

/-- Why a flushed packet is dropped. -/
inductive DropReason
  | invalidNh
  | invalidIf
  | invalidPacket
  | invalidProtocol
  deriving DecidableEq, Repr

/-- The interface that the packet came from. -/
def Router.checkSource (r : Router) (e : GroEntry) : Except DropReason Unit :=
  match r.interface e.srcVifIdx with
  | none => .error .invalidIf
  | some vif => if vif.vifGen ≠ e.srcVifGen then .error .invalidIf else .ok ()

/-- What leaves: a frame that is not merged, a flushed packet, or nothing, since the flushed packet
or the frame is dropped. -/
inductive Out
  | passed (f : Frame)
  | merged (key : GroKey) (p : Merged)
  | lost (reason : DropReason) (key : GroKey) (e : GroEntry)
  | cksumErr (f : Frame)
  deriving DecidableEq

/-! ### What a step depends on -/

/-- The interface behind the nexthop of a frame, if it is one of a virtual machine. -/
def Router.target (r : Router) (f : Frame) : Option Vif :=
  match (r.nexthop f.vgNhId).bind Nh.nhDev with
  | none => none
  | some dev => if dev.isVirtual then some dev else none

/-- A frame with another checksum in its TCP header. -/
def Frame.setCsum (f : Frame) (p : IpPart) (w : ℕ) : Frame :=
  { f with
    head := { f.head with data := set16 f.head.data (f.nwOff + p.hlen + 16) w }
    fits := by simpa using f.fits }

/-- What a step depends on outside of the frame: the router, the cycle counter of the core, and
whether `rte_zmalloc` and `rte_hash_add_key_data` succeed. -/
structure Env where
  router : Router
  now : ℕ := 0
  allocOk : Bool := true
  addOk : Bool := true

def vrDpdkTxFlushLoops : ℕ := 16

def groFlushCycles : ℕ := 100 * vrDpdkTxFlushLoops

/-- Which entries are flushed in a round. -/
def Env.idle (env : Env) (e : GroEntry) : Bool :=
  groFlushCycles < (env.now + 2 ^ 64 - e.mtime) % 2 ^ 64

/-- Whether a segment does not continue an entry. -/
def outOfOrder (e : GroEntry) (b : List Byte) (p : IpPart) : Bool :=
  tcpSeq b p.hlen ≠ e.nextSeq || p.tcpDataLen b = 0 ||
    (optionLen b p.hlen ≠ 0 && (e.tsval > be32 b (p.hlen + 24) || be32 b (p.hlen + 28) = 0))

/-! ### Sending -/

section Library

variable [Rte]

/-- The packet is sent to a nexthop of the bridge or of IP. -/
def Router.send (r : Router) (nh : Nh) (e : GroEntry) : Except DropReason Merged :=
  let p := e.packet
  if nh.bridge then
    match rtePktmbufPrepend p.head vrEtherHlen with
    | none => .error .invalidPacket
    | some head => do
      r.checkSource e
      if r.pktTypeOk head.data then
        pure { p with l2Len := vrEtherHlen, head := head, pktLen := p.pktLen + vrEtherHlen }
      else .error .invalidPacket
  else do
    r.checkSource e
    if vrIpIsIp4 p.head.data ∨ vrIpIsIp6 p.head.data then pure p else .error .invalidProtocol

/-- What becomes of a flushed entry. -/
def Router.deliver (r : Router) (e : GroEntry) : Except DropReason Merged :=
  match r.nexthop e.nhId with
  | none => .error .invalidNh
  | some nh =>
    match nh.nhDev with
    | none => .error .invalidIf
    | some vif =>
      if ¬ vif.isVirtual then .error .invalidIf
      else if vif.vifIdx ≠ e.dstVifIdx ∨ vif.vifGen ≠ e.dstVifGen then .error .invalidIf
      else r.send nh e

def dpdkGroFlush (r : Router) (key : GroKey) (e : GroEntry) : Out :=
  match r.deliver e with
  | .ok p => .merged key p
  | .error reason => .lost reason key e

/-! ### Processing -/

/-- The checksum that `dpdk_gro_process` computes; a sum of zero is zero. -/
def Frame.computedCsum (f : Frame) (p : IpPart) : ℕ :=
  let b := set16 f.nw (p.hlen + 16) 0
  let c := if p.key.isIpv6 then rteIpv6UdptcpCksum b p.hlen else rteIpv4UdptcpCksum b p.hlen
  if (c : ℕ) = 65535 then 0 else c

/-- The new entry of a flow. -/
def newEntry (env : Env) (dev : Vif) (f : Frame) (p : IpPart) : GroEntry :=
  let b := f.nw
  let t := p.hlen
  { isIpv6 := p.key.isIpv6
    -- the buffer starts at the network header now
    mbufHead := (rtePktmbufAdj f.head f.nwOff).getD f.head
    mbufNext := f.rest
    srcVifIdx := f.vgVifId
    srcVifGen := ((env.router.interface f.vgVifId).map Vif.vifGen).getD 0
    dstVifIdx := dev.vifIdx
    dstVifGen := dev.vifGen
    nhId := f.vgNhId
    mbufCnt := 1
    pLen := p.ipPktLen
    ulpCsum := dpdkGroRxCsumFixup 1 p.key.isIpv6 b t (not16 (swap16 (tcpCsum b t)))
    nextSeq := (tcpSeq b t + p.tcpDataLen b) % 2 ^ 32
    ackSeq := tcpAck b t
    tsval := if optionLen b t ≠ 0 then be32 b (t + 24) else 0
    tsecr := if optionLen b t ≠ 0 then be32 b (t + 28) else 0
    window := tcpWin b t
    timestamp := optionLen b t ≠ 0
    mtime := env.now
    segSz := p.tcpDataLen b }

/-- The buffer of a frame, cut down to its payload from the end. -/
def payloadMbuf (f : Frame) (p : IpPart) : Mbuf :=
  (rtePktmbufAdj f.head ((f.head.data.length + 2 ^ 16 - p.tcpDataLen f.nw) % 2 ^ 16)).getD f.head

/-- The segment is appended. -/
def append (env : Env) (e : GroEntry) (f : Frame) (p : IpPart) : GroEntry :=
  let b := f.nw
  let t := p.hlen
  let csum := not16 (swap16 (tcpCsum b t))
  { e with
    tsval := if optionLen b t ≠ 0 then be32 b (t + 24) else e.tsval
    tsecr := if optionLen b t ≠ 0 then be32 b (t + 28) else e.tsecr
    nextSeq := (e.nextSeq + p.tcpDataLen b) % 2 ^ 32
    ackSeq := tcpAck b t
    window := tcpWin b t
    mbufCnt := (e.mbufCnt + 1) % 2 ^ 16
    ulpCsum := (e.ulpCsum +
      dpdkGroRxCsumFixup ((e.mbufCnt + 1) % 2 ^ 16) p.key.isIpv6 b t csum) % 2 ^ 32
    pLen := (e.pLen + p.tcpDataLen b) % 2 ^ 32
    mbufNext := e.mbufNext ++ payloadMbuf f p :: f.rest
    mtime := env.now }

variable [RteHash GroKey GroEntry]

/-- A new flow is created. -/
def create (env : Env) (dev : Vif) (tbl : Table) (f : Frame) (p : IpPart) : List Out × Table :=
  if p.tcpDataLen f.nw = 0 ∨ f.flush p then ([.passed f], tbl)
  else if ¬ env.allocOk then ([.passed f], tbl)
  else if env.addOk then ([], rteHashAddKeyData tbl p.key (newEntry env dev f p))
  else ([.passed f], tbl)

/-- A frame that is not dropped, from the look-up on. -/
def update (env : Env) (dev : Vif) (tbl : Table) (f : Frame) (p : IpPart) : List Out × Table :=
  match rteHashLookupData tbl p.key with
  | none => create env dev tbl f p
  | some e =>
    let flushed := dpdkGroFlush env.router p.key e
    let tblWithout := rteHashDelKey tbl p.key
    if f.flush p then ([flushed, .passed f], tblWithout)
    else if e.pLen > 65535 - p.tcpDataLen f.nw then
      let (out, tbl) := create env dev tblWithout f p
      (flushed :: out, tbl)
    else if outOfOrder e f.nw p then ([flushed, .passed f], tblWithout)
    else
      let e' := append env e f p
      if e.segSz ≠ p.tcpDataLen f.nw then ([dpdkGroFlush env.router p.key e'], tblWithout)
      else ([], rteHashAddKeyData tbl p.key e')

def dpdkGroProcess (env : Env) (tbl : Table) (f : Frame) : List Out × Table :=
  if ¬ (f.vif.groNeeded ∧ f.vif.mrgRxbuf) then ([.passed f], tbl)
  else
    match env.router.target f, parseIp f.vif.vifIdx f.nw with
    | none, _ => ([.passed f], tbl)
    | some _, none => ([.passed f], tbl)
    | some dev, some p =>
      if f.flush p then update env dev tbl f p
      else
        let c := f.computedCsum p
        if swap16 (tcpCsum f.nw p.hlen) ≠ swap16 c then ([.cksumErr f], tbl)
        else update env dev tbl (f.setCsum p c) p

def dpdkGroFlushAllInactive (env : Env) (tbl : Table) : List Out × Table :=
  let old := (rteHashIterate tbl).filter fun x => env.idle x.2
  (old.map fun x => dpdkGroFlush env.router x.1 x.2,
    old.foldl (fun tbl x => rteHashDelKey tbl x.1) tbl)

end Library

end Vrouter.Gro
