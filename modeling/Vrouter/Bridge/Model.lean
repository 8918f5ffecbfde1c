import Mathlib.Algebra.BigOperators.Fin
import Vrouter.Lib.Bits

/-! # The bridge table

A translation of the part of `vr_bridge.c` that adds, deletes and looks up bridge routes, and of
`bridge_entry_add` and `bridge_entry_del` (`vr_route.c`).  A bridge route takes a VRF and a MAC address to
a nexthop, with a label if it has one.

The hash table is taken as what it is meant to be, a map from keys to entries (`index`).  The entries
are memory that is used again: one that was deleted keeps its label, and which unused entry an addition
is given, or that there is none left, is up to the table.  Of the nexthops there is what the bridge
table sees: the object that is installed under an id, and the count of references to an object.

The flags are those that the code names, and `VR_BRIDGE_FLAG_MASK` keeps them.  The update of the flags
is not contested by another core.  Packet counters and the lookup by index are left out. -/

namespace Vrouter.Bridge

open Vrouter.Lib Function

def enoent : ℤ := 2
def enomem : ℤ := 12
def einval : ℤ := 22
def vrEtherAlen : ℕ := 6
def vrMaxVrfs : ℕ := 65536

/-- `struct vr_bridge_entry_key` -/
structure Key where
  beVrfId : BitVec 16
  beMac : List Byte
  deriving DecidableEq, Repr

/-- `VR_BE_*_FLAG` -/
structure BeFlags where
  valid : Bool := false
  labelValid : Bool := false
  floodDhcp : Bool := false
  macMoved : Bool := false
  l2ControlData : Bool := false
  deriving DecidableEq, Repr

/-- `struct vr_bridge_entry`; a nexthop is named by its address, `none` is `NULL`. -/
structure BridgeEntry where
  beNh : Option ℕ
  beNhId : ℤ
  beLabel : ℕ
  beFlags : BeFlags
  deriving DecidableEq, Repr

/-- The hash table with its entries, which of them are in use, and the nexthops: what is installed
under an id, and `nh_users`. -/
structure State (n : ℕ) where
  index : Key → Option (Fin n)
  used : Fin n → Bool
  entry : Fin n → BridgeEntry
  nexthops : ℕ → Option ℕ
  nhUsers : ℕ → ℕ

/-- The fields of `struct vr_route_req` that are read here. -/
structure RouteReq where
  rtrVrfId : ℕ
  rtrMac : List Byte
  rtrNhId : ℤ
  rtrLabel : ℕ
  rtrLabelFlags : BeFlags
  deriving DecidableEq, Repr

variable {n : ℕ}

/-- The key of a request: the VRF is cut to sixteen bits. -/
def RouteReq.key (rt : RouteReq) : Key := ⟨BitVec.ofNat 16 rt.rtrVrfId, rt.rtrMac⟩

/-! ### Nexthops -/

/-- `__vrouter_get_nexthop` -/
def State.nexthop (s : State n) (id : ℤ) : Option ℕ := if 0 ≤ id then s.nexthops id.toNat else none

/-- One reference more to an object. -/
def State.hold (s : State n) (p : ℕ) : State n :=
  { s with nhUsers := update s.nhUsers p (s.nhUsers p + 1) }

/-- `vrouter_put_nexthop`, as far as the count goes. -/
def State.put (s : State n) (p : ℕ) : State n :=
  { s with nhUsers := update s.nhUsers p (s.nhUsers p - 1) }

/-- `vrouter_get_nexthop` -/
def State.get (s : State n) (id : ℤ) : Option ℕ × State n :=
  match s.nexthop id with
  | some p => (some p, s.hold p)
  | none => (none, s)

/-! ### Additions -/

def State.setEntry (s : State n) (i : Fin n) (e : BridgeEntry) : State n :=
  { s with entry := update s.entry i e }

/-- A new entry for a key: what it does not write is what the memory holds. -/
def takeEntry (s : State n) (i : Fin n) (key : Key) : State n :=
  { s with
    index := update s.index key (some i)
    used := update s.used i true
    entry := update s.entry i { s.entry i with beFlags := { valid := true }, beNhId := -1 } }

/-- The end of `bridge_add`: the nexthop of an entry is replaced, unless its id is the same. -/
def replaceNexthop (s : State n) (i : Fin n) (nhId : ℤ) : State n :=
  if (s.entry i).beNhId ≠ nhId then
    let oldNh := (s.entry i).beNh
    let (nh, s) := s.get nhId
    let s := s.setEntry i { s.entry i with
      beNh := nh
      beNhId := if nh.isSome then nhId else -1
      beFlags := { (s.entry i).beFlags with macMoved := false } }
    match oldNh with
    | some p => s.put p
    | none => s
  else s

/-- `bridge_add`; `free` is the entry that `vr_find_free_bridge_entry` would give. -/
def bridgeAdd (s : State n) (free : Option (Fin n)) (key : Key) (nhId : ℤ) :
    Option (Fin n) × State n :=
  match s.index key with
  | some i => (some i, replaceNexthop s i nhId)
  | none =>
    match free with
    | none => (none, s)
    | some i => (some i, replaceNexthop (takeEntry s i key) i nhId)

/-- The label and the flags of a request are written to an entry. -/
def labelled (rt : RouteReq) (e : BridgeEntry) : BridgeEntry :=
  { e with
    beLabel := if rt.rtrLabelFlags.labelValid then rt.rtrLabel else e.beLabel
    beFlags := { rt.rtrLabelFlags with valid := true } }

/-- `__bridge_table_add` -/
def bridgeTableAddEntry (s : State n) (free : Option (Fin n)) (rt : RouteReq) : ℤ × State n :=
  match bridgeAdd s free rt.key rt.rtrNhId with
  | (none, s) => (-enomem, s)
  | (some i, s) => (0, s.setEntry i (labelled rt (s.entry i)))

def isMacZero (mac : List Byte) : Bool := mac.all (· == 0)

def bridgeTableAdd (s : State n) (free : Option (Fin n)) (rt : RouteReq) : ℤ × State n :=
  if rt.rtrMac.length ≠ vrEtherAlen then (-einval, s)
  else if isMacZero rt.rtrMac then (-einval, s)
  else
    match s.get rt.rtrNhId with
    | (none, s) => (-enoent, s)
    | (some rtrNh, s) =>
      let (ret, s) := bridgeTableAddEntry s free rt
      (ret, s.put rtrNh)

def bridgeEntryAdd (maxVrfs : ℕ) (s : State n) (free : Option (Fin n)) (rt : RouteReq) :
    ℤ × State n :=
  if rt.rtrVrfId ≥ maxVrfs ∨ rt.rtrMac.length ≠ vrEtherAlen then (-einval, s)
  else bridgeTableAdd s free rt

/-! ### Deletions -/

def bridgeTableEntryFree (s : State n) (key : Key) (i : Fin n) : State n :=
  let e := s.entry i
  let e := { e with beFlags := { e.beFlags with valid := false } }
  let s' : State n :=
    match e.beNh with
    | some nh => (s.setEntry i { e with beNh := none, beNhId := -1 }).put nh
    | none => s.setEntry i e
  { s' with index := update s'.index key none, used := update s'.used i false }

def bridgeTableDelete (s : State n) (rt : RouteReq) : ℤ × State n :=
  if rt.rtrMac.length ≠ vrEtherAlen then (-einval, s)
  else
    match s.index rt.key with
    | none => (-enoent, s)
    | some i => (0, bridgeTableEntryFree s rt.key i)

def bridgeEntryDel (maxVrfs : ℕ) (s : State n) (rt : RouteReq) : ℤ × State n :=
  if rt.rtrMac.length > 6 ∨ rt.rtrVrfId ≥ maxVrfs then (-einval, s)
  else bridgeTableDelete s rt

/-! ### Lookups -/

/-- What an entry says: its nexthop, and its label if it has one. -/
def BridgeEntry.answer (e : BridgeEntry) : Option (ℕ × Option ℕ) :=
  e.beNh.map fun nh => (nh, if e.beFlags.labelValid then some e.beLabel else none)

/-- The answer for a key. -/
def State.answer (s : State n) (key : Key) : Option (ℕ × Option ℕ) :=
  (s.index key).bind fun i => (s.entry i).answer

/-- `bridge_table_lookup`, by VRF and MAC address. -/
def bridgeTableLookup (s : State n) (vrf : ℕ) (mac : List Byte) : Option (ℕ × Option ℕ) :=
  s.answer ⟨BitVec.ofNat 16 vrf, mac⟩

end Vrouter.Bridge
