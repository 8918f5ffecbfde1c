import Vrouter.Lib.Bits

/-! # The multibit trie of the inet routing tables

A translation of `vr_ip_mtrie.c` and of `inet_route_add`, `inet_route_del` (`vr_route.c`).  A
VRF's table is a trie with a stride of eight bits: an entry is either a *leaf*, which holds a
nexthop or an opaque pointer, or a *bucket* of 256 entries.  Both kinds carry a prefix length, a
label with its flags and the index of a bridge entry.

Pointers to buckets are never shared, so an entry owns the subtrie below it and the trie is an
inductive type; the deferred freeing of buckets and the reference counts of nexthops are left
out.  Every allocation succeeds.  A bit-field of `w` bits stores its value modulo `2 ^ w`.  The
nexthop table and the bridge table are read through an environment `Env`. -/

namespace Vrouter.Mtrie

open Vrouter.Lib

/-! ### Constants -/

/-- The families a route request may name; every other value is `other`. -/
inductive Family
  | inet
  | inet6
  | other
  deriving DecidableEq, Repr

def ip4PrefixLen : ℕ := 32
def ip6PrefixLen : ℕ := 128
def ipbucketLevelBits : ℕ := 8
def ipbucketLevelSize : ℕ := 1 <<< ipbucketLevelBits
def ip4BktLevels : ℕ := ip4PrefixLen / ipbucketLevelBits
def ip6BktLevels : ℕ := ip6PrefixLen / ipbucketLevelBits

def vrBeInvalidIndex : ℕ := 2 ^ 32 - 1
def vrRtLabelValidFlag : ℕ := 1
def nhDiscardId : ℕ := 0
def vrEtherAlen : ℕ := 6

def enoent : ℤ := 2
def einval : ℤ := 22

/-- `bi_bits`, `bi_pfx_len` and `bi_size` of one level. -/
structure MtrieBktInfo where
  biBits : ℕ
  biPfxLen : ℕ
  biSize : ℕ
  deriving DecidableEq, Repr

/-- `mtrie_ip_bkt_info_init`: each level adds a stride to the level before it. -/
def ipBktInfo : ℕ → MtrieBktInfo
  | 0 => ⟨ipbucketLevelBits, ipbucketLevelBits, ipbucketLevelSize⟩
  | level + 1 =>
    ⟨ipbucketLevelBits, (ipBktInfo level).biPfxLen + ipbucketLevelBits, ipbucketLevelSize⟩

def ipBktGetMaxLevel : Family → ℕ
  | .inet6 => ip6BktLevels
  | _ => ip4BktLevels

/-- `RT_IP_ADDR_SIZE`, in bytes. -/
def rtIpAddrSize : Family → ℕ
  | .inet6 => 16
  | _ => 4

@[simp] theorem biPfxLen_eq : ∀ level, (ipBktInfo level).biPfxLen = 8 * (level + 1)
  | 0 => rfl
  | level + 1 => by simp only [ipBktInfo, biPfxLen_eq level, ipbucketLevelBits]; omega

@[simp] theorem biBits_eq (level : ℕ) : (ipBktInfo level).biBits = 8 := by
  cases level <;> rfl

@[simp] theorem biSize_eq (level : ℕ) : (ipBktInfo level).biSize = 256 := by
  cases level <;> rfl

theorem rtIpAddrSize_eq (fam : Family) : rtIpAddrSize fam = ipBktGetMaxLevel fam := by
  cases fam <;> rfl

/-! ### Nexthops, pointers and entries -/

inductive NhType
  | dead
  | rcv
  | encap
  | tunnel
  | resolve
  | discard
  | composite
  | vrfTranslate
  | l2Rcv
  deriving DecidableEq, Repr

structure Nexthop where
  nhId : ℕ
  nhType : NhType
  deriving DecidableEq, Repr

/-- The pointer an entry holds, and `rt->rtr_nh`. -/
inductive VoidPtr
  | null
  | nexthop (nh : Nexthop)
  | vdata (addr : ℕ)
  deriving DecidableEq, Repr

/-- What the trie reads from the rest of vrouter: the nexthop table, the bridge table (a MAC of
a VRF to the index of its bridge entry) and the table sizes, which `vr_vrfs` sets.  A nexthop is
filed under its own id, and the discard nexthop, which `ip4_default_nh` points to, exists. -/
structure Env where
  vrVrfs : ℕ
  rtbMaxVrfs : ℕ
  getNexthop : ℕ → Option Nexthop
  bridgeLookup : ℕ → List Byte → Option ℕ
  ip4DefaultNh : Nexthop
  rtbMaxVrfs_eq : rtbMaxVrfs = vrVrfs
  getNexthop_id : ∀ {i nh}, getNexthop i = some nh → nh.nhId = i
  getNexthop_discard : getNexthop nhDiscardId = some ip4DefaultNh

/-- `ENTRY_TYPE_NEXTHOP` and `ENTRY_TYPE_VDATA`, the two types of a leaf. -/
inductive LeafType
  | nexthop
  | vdata
  deriving DecidableEq, Repr

/-- The fields every entry has beside its pointer and its type. -/
structure EntryInfo where
  entryPrefixLen : ℕ
  entryLabelFlags : ℕ
  entryLabel : ℕ
  entryBridgeIndex : ℕ
  deriving DecidableEq, Repr

/-- `struct ip_bucket_entry`, with the bucket it points to. -/
inductive Entry
  | leaf (type : LeafType) (data : VoidPtr) (info : EntryInfo)
  | bucket (info : EntryInfo) (bkt : Byte → Entry)

def Entry.info : Entry → EntryInfo
  | .leaf _ _ i => i
  | .bucket i _ => i

/-- `struct vr_route_req`: the request and the nexthop pointer beside it. -/
structure RouteReq where
  rtrVrfId : ℕ
  rtrFamily : Family
  rtrPrefix : List Byte
  rtrPrefixLen : ℕ
  rtrLabelFlags : ℕ
  rtrLabel : ℕ
  rtrNhId : ℕ
  rtrMac : List Byte
  rtrReplacePlen : ℕ
  rtrIndex : ℕ
  rtrNh : VoidPtr
  deriving DecidableEq, Repr

def rtToIndex (rt : RouteReq) (level : ℕ) : Byte := rt.rtrPrefix.getD level 0

/-- The pointer `set_entry_to_nh` stores: the nexthop itself while it is the one filed under its
id, the discard nexthop otherwise. -/
def setEntryToNh (env : Env) : VoidPtr → VoidPtr
  | .nexthop nh =>
    if env.getNexthop nh.nhId = some nh then .nexthop nh
    else match env.getNexthop nhDiscardId with
      | some d => .nexthop d
      | none => .null
  | _ => .null

/-- The pointer stored by `set_entry_to_nh` or `set_entry_to_vdata`, by the type of the leaf. -/
def setEntryData (env : Env) : LeafType → VoidPtr → VoidPtr
  | .nexthop, p => setEntryToNh env p
  | .vdata, p => p

/-- The leaf type that the flag `data_is_nh` selects. -/
def leafType (dataIsNh : Bool) : LeafType := if dataIsNh then .nexthop else .vdata

/-! ### Adding -/

/-- `mtrie_alloc_bucket`: every entry of a new bucket copies the parent. -/
def mtrieAllocBucket (env : Env) (dataIsNh : Bool) (data : VoidPtr) (info : EntryInfo) :
    Byte → Entry :=
  fun _ => .leaf (leafType dataIsNh) (setEntryData env (leafType dataIsNh) data) info

/-- The bucket of an entry, allocated from the entry where it is not one yet. -/
def bktOf (env : Env) (dataIsNh : Bool) : Entry → Byte → Entry
  | .leaf _ d i => mtrieAllocBucket env dataIsNh d i
  | .bucket _ bkt => bkt

/-- The fields an entry takes from the request, in the widths of the bit-fields. -/
def reqInfo (rt : RouteReq) (plen : ℕ) : EntryInfo where
  entryPrefixLen := plen % 2 ^ 8
  entryLabelFlags := rt.rtrLabelFlags % 2 ^ 5
  entryLabel := rt.rtrLabel % 2 ^ 24
  entryBridgeIndex := rt.rtrIndex

def addToTree (env : Env) (rt : RouteReq) : Entry → ℕ → Entry
  | .leaf t d i, _ =>
    if i.entryPrefixLen > rt.rtrPrefixLen then .leaf t d i
    else .leaf t (setEntryData env t rt.rtrNh) (reqInfo rt rt.rtrPrefixLen)
  | .bucket i bkt, level =>
    if i.entryPrefixLen > rt.rtrPrefixLen then .bucket i bkt
    else
      -- a bucket takes the prefix length only; its label and bridge index stay
      let i' := { i with entryPrefixLen := rt.rtrPrefixLen % 2 ^ 8 }
      if level ≥ ipBktGetMaxLevel rt.rtrFamily - 1 then .bucket i' bkt
      else .bucket i' fun j => addToTree env rt (bkt j) (level + 1)

/-- The loop of `__mtrie_add` over the entries of one bucket: `fin` entries from `i` on, where
the `unsigned char` index wraps around. -/
def addToEntries (env : Env) (rt : RouteReq) (level : ℕ) : ℕ → Byte → (Byte → Entry) → Byte → Entry
  | 0, _, bkt => bkt
  | fin + 1, i, bkt =>
    addToEntries env rt level fin (i + 1)
      (Function.update bkt i (addToTree env rt (bkt i) level))

/-- How many entries of its bucket a prefix covers. -/
def coveredEntries (level plen : ℕ) : ℕ :=
  let b := ipBktInfo level
  if plen > b.biPfxLen - b.biBits ∧ plen ≤ b.biPfxLen then 1 <<< (b.biPfxLen - plen) else b.biSize

/-- `__mtrie_add` from `level` on, with `n` levels to go: the entry is turned into a bucket when
it is not one, and the walk goes on until the level that holds the prefix. -/
def mtrieAddFrom (env : Env) (rt : RouteReq) (dataIsNh : Bool) : ℕ → ℕ → Entry → Entry
  | 0, _, ent => ent
  | n + 1, level, ent =>
    let bkt := bktOf env dataIsNh ent
    let index := rtToIndex rt level
    if rt.rtrPrefixLen > (ipBktInfo level).biPfxLen then
      .bucket ent.info
        (Function.update bkt index (mtrieAddFrom env rt dataIsNh n (level + 1) (bkt index)))
    else
      .bucket ent.info
        (addToEntries env rt level (coveredEntries level rt.rtrPrefixLen) index bkt)

/-- `__mtrie_add` on the root of a trie. -/
def mtrieAddCore (env : Env) (rt : RouteReq) (dataIsNh : Bool) (root : Entry) : Entry :=
  mtrieAddFrom env rt dataIsNh (ipBktGetMaxLevel rt.rtrFamily) 0 root

/-! ### Deleting -/

/-- The leaf after a deletion: it takes the replacement that the request carries. -/
def replaceLeaf (env : Env) (rt : RouteReq) (t : LeafType) : Entry :=
  .leaf t (setEntryData env t rt.rtrNh) (reqInfo rt rt.rtrReplacePlen)

/-- The fields of a bucket entry that a deletion rewrites before it descends. -/
def replaceInfo (rt : RouteReq) (i : EntryInfo) : EntryInfo :=
  { reqInfo rt rt.rtrReplacePlen with entryBridgeIndex := i.entryBridgeIndex }

/-- `memcmp` of two entries.  Two bucket entries always differ, in their pointers. -/
def sameEntry : Entry → Entry → Bool
  | .leaf t d i, .leaf t' d' i' => decide (t = t' ∧ d = d' ∧ i = i')
  | _, _ => false

/-- Whether entries `1` to `255` all equal entry `0`. -/
def allSame (bkt : Byte → Entry) : Bool :=
  (List.finRange 256).all fun j => j == 0 || sameEntry (bkt j) (bkt 0)

/-- The end of `__mtrie_delete`: a bucket of equal entries collapses to a leaf
(`mtrie_delete_bkt`). -/
def mtrieDeleteBkt (env : Env) (dataIsNh : Bool) (info : EntryInfo) (bkt : Byte → Entry) : Entry :=
  if allSame bkt then
    match bkt 0 with
    | .leaf _ d i => .leaf (leafType dataIsNh) (setEntryData env (leafType dataIsNh) d) i
    | .bucket _ _ => .bucket info bkt
  else .bucket info bkt

/-- The range of entries `[index, fin)` that a deletion visits in the bucket at `level`. -/
def deleteRange (rt : RouteReq) (level : ℕ) : ℕ × ℕ :=
  let b := ipBktInfo level
  let index := (rtToIndex rt level).val
  if rt.rtrPrefixLen > b.biPfxLen - b.biBits ∧ rt.rtrPrefixLen ≤ b.biPfxLen then
    let fin := 1 <<< (b.biPfxLen - rt.rtrPrefixLen)
    -- index &= ~(fin - 1)
    let index := index - index % fin
    (index, min (fin + index) b.biSize)
  else (0, b.biSize)

/-- `__mtrie_delete`.  The fields of the entry are passed beside it, because the caller may have
rewritten them just before the call. -/
def mtrieDeleteEntry (env : Env) (rt : RouteReq) (dataIsNh : Bool) :
    Entry → EntryInfo → ℕ → Entry
  | .leaf t d _, i, _ =>
    if i.entryPrefixLen = rt.rtrPrefixLen then replaceLeaf env rt t else .leaf t d i
  | .bucket _ bkt, i, level =>
    let index := rtToIndex rt level
    let bkt' : Byte → Entry :=
      if rt.rtrPrefixLen > (ipBktInfo level).biPfxLen then
        Function.update bkt index
          (mtrieDeleteEntry env rt dataIsNh (bkt index) (bkt index).info (level + 1))
      else fun j =>
        if (deleteRange rt level).1 ≤ j.val ∧ j.val < (deleteRange rt level).2 then
          if (bkt j).info.entryPrefixLen = rt.rtrPrefixLen then
            match bkt j with
            | .leaf t _ _ => replaceLeaf env rt t
            | .bucket i' _ =>
              mtrieDeleteEntry env rt dataIsNh (bkt j) (replaceInfo rt i') (level + 1)
          else bkt j
        else bkt j
    mtrieDeleteBkt env dataIsNh i bkt'

/-! ### Looking up -/

/-- The number of entries, from the indexed one on, in which `__mtrie_lookup` accepts a prefix as
long as the queried one.  The shift of an `int` by 32 or more is undefined. -/
def lookupLimit (level plen : ℕ) : Option ℕ :=
  let b := ipBktInfo level
  if plen > b.biPfxLen then some b.biSize
  else if b.biPfxLen - plen < 32 then some (1 <<< (b.biPfxLen - plen)) else none

/-- The loop over a bucket, with `n` entries to go: `visit j i n` handles entry `j`, the `i`-th one
visited, and gives the request that the loop ends with if it does not go on in this bucket. -/
def scanBkt (visit : Byte → ℕ → ℕ → Option (Option RouteReq)) (index : Byte) (rt : RouteReq) :
    ℕ → ℕ → Option RouteReq
  | 0, _ => some rt
  | n + 1, i =>
    match visit (index + Fin.ofNat 256 i) i n with
    | some res => res
    | none => scanBkt visit index rt n (i + 1)

/-- The request after a leaf was accepted. -/
def takeLeaf (d : VoidPtr) (i : EntryInfo) (rt : RouteReq) : RouteReq :=
  { rt with
    rtrLabelFlags := i.entryLabelFlags
    rtrLabel := i.entryLabel
    rtrPrefixLen := i.entryPrefixLen
    rtrIndex := i.entryBridgeIndex
    rtrNh := d }

/-- `__mtrie_lookup` on a bucket, up to its loop. -/
def lookupWith (loop : ℕ → ℕ → Byte → ℕ → ℕ → RouteReq → Option RouteReq) (level : ℕ)
    (rt : RouteReq) : Option (RouteReq × VoidPtr) :=
  if level ≥ ipBktGetMaxLevel rt.rtrFamily then some (rt, .null)
  else
    match lookupLimit level rt.rtrPrefixLen with
    | none => none
    | some limit =>
      (loop level limit (rtToIndex rt level) (ipBktInfo level).biSize 0 rt).map
        fun rt' => (rt', rt'.rtrNh)

/-- The loop of `__mtrie_lookup` from the `i`-th entry on, in the bucket that `ent` points to. -/
def lookupLoop : Entry → ℕ → ℕ → Byte → ℕ → ℕ → RouteReq → Option RouteReq
  | .leaf _ _ _, _, _, _, _, _, rt => some rt
  | .bucket _ bkt, level, limit, index, n, i, rt =>
    scanBkt (fun j i n =>
      match bkt j with
      | .leaf _ d info =>
        if i ≥ limit ∧ info.entryPrefixLen ≥ rt.rtrPrefixLen then none
        else if info.entryPrefixLen > rt.rtrPrefixLen then none
        else some (some (takeLeaf d info rt))
      | .bucket _ _ =>
        match lookupWith (lookupLoop (bkt j)) (level + 1) rt with
        | none => some none
        | some (rt', ret) =>
          -- the loop has made the child its own bucket, and goes on there at the old level
          if ret ≠ .null then some (some rt')
          else some (lookupLoop (bkt j) level limit index n (i + 1) rt')) index rt n i

/-- `__mtrie_lookup` on the bucket an entry points to: the request afterwards and the pointer
returned; `none` where the behaviour is undefined. -/
def mtrieLookupCore : Entry → ℕ → RouteReq → Option (RouteReq × VoidPtr)
  | .leaf _ _ _, _, rt => some (rt, .null)
  | .bucket info bkt, level, rt => lookupWith (lookupLoop (.bucket info bkt)) level rt

/-! ### The tables -/

/-- `vn_rtable`: the tries of the two families, by VRF. -/
abbrev VnRtable := Bool → ℕ → Option Entry

/-- The index into `vn_rtable`. -/
def rtableIndex (fam : Family) : Bool := decide (fam = .inet6)

def vrfidToMtrie (env : Env) (tbl : VnRtable) (vrf : ℕ) (fam : Family) : Option Entry :=
  if vrf ≥ env.vrVrfs then none else tbl (rtableIndex fam) vrf

def setMtrie (tbl : VnRtable) (vrf : ℕ) (fam : Family) (root : Entry) : VnRtable :=
  Function.update tbl (rtableIndex fam) (Function.update (tbl (rtableIndex fam)) vrf (some root))

/-- The root that `mtrie_alloc_vrf` makes: the discard nexthop. -/
def mtrieAllocVrf (env : Env) : Entry :=
  .leaf .nexthop
    (match env.getNexthop nhDiscardId with | some d => .nexthop d | none => .null)
    ⟨0, 0, 0xFFFFFF, vrBeInvalidIndex⟩

/-- The bridge index a request stands for: that of its MAC when it carries one. -/
def reqBridgeIndex (env : Env) (rt : RouteReq) : Option ℕ :=
  if rt.rtrMac.length = vrEtherAlen ∧ ¬ rt.rtrMac.all (· == 0) then
    env.bridgeLookup rt.rtrVrfId rt.rtrMac
  else some vrBeInvalidIndex

/-- The label a request stands for. -/
def reqLabel (rt : RouteReq) : ℕ :=
  if rt.rtrLabelFlags &&& vrRtLabelValidFlag = 0 then 0xFFFFFF else rt.rtrLabel &&& 0xFFFFFF

def mtrieAdd (env : Env) (tbl : VnRtable) (rt : RouteReq) : ℤ × VnRtable :=
  let trie := (vrfidToMtrie env tbl rt.rtrVrfId rt.rtrFamily).getD (mtrieAllocVrf env)
  -- a trie that was just allocated stays in the table even if the request fails
  let tbl := setMtrie tbl rt.rtrVrfId rt.rtrFamily trie
  match env.getNexthop rt.rtrNhId with
  | none => (-enoent, tbl)
  | some nh =>
    if rt.rtrLabelFlags &&& vrRtLabelValidFlag = 0 ∧ nh.nhType = .tunnel then (-einval, tbl)
    else
      match reqBridgeIndex env rt with
      | none => (-enoent, tbl)
      | some index =>
        let rt := { rt with rtrNh := .nexthop nh, rtrIndex := index, rtrLabel := reqLabel rt }
        (0, setMtrie tbl rt.rtrVrfId rt.rtrFamily (mtrieAddCore env rt true trie))

def mtrieDelete (env : Env) (tbl : VnRtable) (rt : RouteReq) : ℤ × VnRtable :=
  match vrfidToMtrie env tbl rt.rtrVrfId rt.rtrFamily with
  | none => (-enoent, tbl)
  | some trie =>
    match env.getNexthop rt.rtrNhId with
    | none => (-enoent, tbl)
    | some nh =>
      match reqBridgeIndex env rt with
      | none => (-enoent, tbl)
      | some index =>
        let rt := { rt with rtrNh := .nexthop nh, rtrIndex := index, rtrLabel := reqLabel rt }
        (0, setMtrie tbl rt.rtrVrfId rt.rtrFamily
          (mtrieDeleteEntry env rt true trie trie.info 0))

/-- `mtrie_lookup`: the request afterwards and the nexthop returned. -/
def mtrieLookup (env : Env) (tbl : VnRtable) (vrf : ℕ) (rt : RouteReq) :
    Option (RouteReq × VoidPtr) :=
  let dflt : VoidPtr := .nexthop env.ip4DefaultNh
  match vrfidToMtrie env tbl vrf rt.rtrFamily with
  | none => some ({ rt with rtrNh := dflt }, dflt)
  | some (.leaf .nexthop d i) =>
    if d = .null then some ({ rt with rtrNh := dflt }, dflt)
    else some (takeLeaf d i rt, d)
  | some root =>
    match mtrieLookupCore root 0 rt with
    | none => none
    | some (rt', ret) =>
      let nh := if ret = .null then dflt else ret
      some ({ rt' with rtrNh := nh }, nh)

/-! ### Tries of other data -/

/-- The root that `vdata_mtrie_init` makes. -/
def vdataMtrieInit (plen : ℕ) (data : VoidPtr) : Entry :=
  .leaf .vdata data ⟨plen % 2 ^ 8, 0, 0xFFFFFF, vrBeInvalidIndex⟩

def vdataMtrieAdd (env : Env) (root : Entry) (rt : RouteReq) : Entry :=
  mtrieAddCore env rt false root

def vdataMtrieLookup (mtrie : Option Entry) (rt : RouteReq) : Option (RouteReq × VoidPtr) :=
  match mtrie with
  | none => some (rt, .null)
  | some (.leaf .vdata d i) => some ({ rt with rtrPrefixLen := i.entryPrefixLen }, d)
  | some root => mtrieLookupCore root 0 rt

/-! ### Requests -/

/-- The masking of `inet_route_add`: the bits beyond the prefix length become zero. -/
def maskPrefix (fam : Family) (plen : ℕ) (pfx : List Byte) : List Byte :=
  let pmask := plen % 8
  let pmaskByte := plen / 8
  let pfx' :=
    if pmask ≠ 0 then
      pfx.modify pmaskByte fun b => Fin.ofNat 256 (b.val &&& (0xFF - ((1 <<< (8 - pmask)) - 1)))
    else pfx
  let pmaskByte := if pmask ≠ 0 then pmaskByte + 1 else pmaskByte
  (List.range' pmaskByte (rtIpAddrSize fam - pmaskByte)).foldl (fun p i => p.set i 0) pfx'

def inetRouteAdd (env : Env) (tbl : VnRtable) (rt : RouteReq) : ℤ × VnRtable :=
  if rt.rtrFamily = .other then (-einval, tbl)
  else if rt.rtrPrefix.length = 0 then (-einval, tbl)
  else if rt.rtrVrfId ≥ env.rtbMaxVrfs ∨ rt.rtrPrefixLen > rtIpAddrSize rt.rtrFamily * 8 then
    (-einval, tbl)
  else
    mtrieAdd env tbl
      { rt with rtrPrefix := maskPrefix rt.rtrFamily rt.rtrPrefixLen rt.rtrPrefix }

def inetRouteDel (env : Env) (tbl : VnRtable) (rt : RouteReq) : ℤ × VnRtable :=
  if rt.rtrPrefixLen > rtIpAddrSize rt.rtrFamily * 8 ∨ rt.rtrVrfId ≥ env.rtbMaxVrfs then
    (-einval, tbl)
  else mtrieDelete env tbl rt

end Vrouter.Mtrie
