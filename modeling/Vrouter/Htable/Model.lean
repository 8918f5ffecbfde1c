import Mathlib.Algebra.Ring.Nat
import Mathlib.Data.List.Basic
import Mathlib.Logic.Function.Basic
import Mathlib.Tactic.Common

/-! # The hash table

A translation of `vr_htable.c`.  A table has main entries in buckets of four and overflow
entries; the fourth main entry of a bucket heads a chain of overflow entries, and the overflow
entries that no bucket uses are on a free list.  Both lists run through `hentry_next`, which is
the index of the entry it points to.  Entries carry a payload of the caller's type `π`, which the
table itself reads only through `ht_get_key`.

Releasing an overflow entry only marks it.  A work item, scheduled per bucket, unlinks the marked
entries of the bucket, and a callback, deferred until no reader can hold the entry, returns each of
them to the free list.  `Sys` is a table with its pending work items and callbacks; the compare and
swap loops of the source run without contention, as each function is one step. -/

namespace Vrouter.Htable

def vrHentriesPerBucket : ℕ := 4

def vrInvalidHentryIndex : ℕ := 2 ^ 32 - 1

/-- The sizes of a table, fixed when it is created. -/
structure Geometry where
  buckets : ℕ
  htOentries : ℕ
  buckets_pos : 0 < buckets
  small : buckets * vrHentriesPerBucket + htOentries < 2 ^ 32

def Geometry.htHentries (g : Geometry) : ℕ := g.buckets * vrHentriesPerBucket

def Geometry.total (g : Geometry) : ℕ := g.htHentries + g.htOentries

structure HentryFlags where
  valid : Bool
  deleteMarked : Bool
  deleteProcessed : Bool
  inFreeList : Bool
  deriving DecidableEq, Repr

def HentryFlags.zero : HentryFlags := ⟨false, false, false, false⟩
def HentryFlags.onlyValid : HentryFlags := ⟨true, false, false, false⟩

structure Hentry (π : Type) where
  hentryNext : Option ℕ
  hentryBucketIndex : ℕ
  hentryNextIndex : ℕ
  hentryFlags : HentryFlags
  payload : π

/-- `struct vr_hentry_delete_data`, one per bucket. -/
structure DeleteData where
  hdCount : ℕ
  hdScheduled : Bool
  deriving DecidableEq, Repr

structure Table (π : Type) where
  hentry : ℕ → Hentry π
  htFreeOentryHead : Option ℕ
  htUsedOentries : ℕ
  htUsedEntries : ℕ
  htDtable : ℕ → DeleteData

/-- A table, the buckets whose deletion work is pending, and the entries whose deferred deletion
is. -/
structure Sys (π : Type) where
  tbl : Table π
  works : List ℕ
  defers : List ℕ

variable {π κ : Type}

/-- Rewrites one entry. -/
def Table.modify (t : Table π) (i : ℕ) (f : Hentry π → Hentry π) : Table π :=
  { t with hentry := Function.update t.hentry i (f (t.hentry i)) }

/-- A caller writes the payload of an entry. -/
def Sys.setPayload (s : Sys π) (i : ℕ) (v : π) : Sys π :=
  { s with tbl := s.tbl.modify i fun e => { e with payload := v } }

/-- The 32-bit counters. -/
def incr32 (n : ℕ) : ℕ := (n + 1) % 2 ^ 32
def decr32 (n : ℕ) : ℕ := (n + 2 ^ 32 - 1) % 2 ^ 32

/-- `hentry_next_index` of an entry that points to `p`. -/
def nextIndexOf (p : Option ℕ) : ℕ := p.getD vrInvalidHentryIndex

/-- The last main entry of the bucket `k`, which heads its chain. -/
def headOf (k : ℕ) : ℕ := k * vrHentriesPerBucket + (vrHentriesPerBucket - 1)

/-- The first main entry of the bucket that a hash selects. -/
def bucketBase (g : Geometry) (hash : ℕ) : ℕ :=
  hash % g.htHentries - hash % g.htHentries % vrHentriesPerBucket

/-! ### The free list -/

/-- `vr_htable_get_free_oentry` -/
def getFreeOentry (t : Table π) : Option (ℕ × Table π) :=
  match t.htFreeOentryHead with
  | none => none
  | some i =>
    let t := { t with htFreeOentryHead := (t.hentry i).hentryNext }
    let t := t.modify i fun e => { e with
      hentryNext := none
      hentryFlags := { e.hentryFlags with inFreeList := false } }
    some (i, { t with htUsedOentries := incr32 t.htUsedOentries })

/-- `vr_htable_put_free_oentry` -/
def putFreeOentry (g : Geometry) (t : Table π) (i : ℕ) : Table π :=
  if i < g.htHentries then t
  else if (t.hentry i).hentryFlags.inFreeList then t
  else
    let t := t.modify i fun e => { e with
      hentryFlags := { e.hentryFlags with inFreeList := true }
      hentryNext := t.htFreeOentryHead }
    { t with htFreeOentryHead := some i, htUsedOentries := decr32 t.htUsedOentries }

/-- `vr_htable_oentry_invalidate` -/
def oentryInvalidate (g : Geometry) (t : Table π) (i : ℕ) : Table π :=
  if i < g.htHentries then t
  else
    putFreeOentry g (t.modify i fun e => { e with
      hentryFlags := { HentryFlags.zero with inFreeList := e.hentryFlags.inFreeList }
      hentryBucketIndex := vrInvalidHentryIndex
      hentryNextIndex := vrInvalidHentryIndex
      hentryNext := none }) i

/-! ### Finding -/

/-- The overflow part of `vr_htable_find_free_hentry`: an entry from the free list is linked in
front of the chain of the bucket whose last main entry is `head`. -/
def linkOentry (t : Table π) (head : ℕ) : Option (ℕ × Table π) :=
  match getFreeOentry t with
  | none => none
  | some (o, t) =>
    let next := (t.hentry head).hentryNext
    let t := t.modify o fun e => { e with
      hentryBucketIndex := head
      hentryFlags := .onlyValid
      hentryNext := next
      hentryNextIndex := nextIndexOf next }
    let t := t.modify head fun e => { e with hentryNext := some o, hentryNextIndex := o }
    some (o, { t with htUsedEntries := incr32 t.htUsedEntries })

/-- `vr_htable_find_free_hentry`, for a key with the given hash. -/
def findFreeHentry (g : Geometry) (t : Table π) (hash : ℕ) : Option (ℕ × Table π) :=
  let base := bucketBase g hash
  match (List.range vrHentriesPerBucket).find? fun i =>
      !(t.hentry (base + i)).hentryFlags.valid with
  | some i =>
    let t := t.modify (base + i) fun e => { e with
      hentryFlags := .onlyValid
      hentryBucketIndex := vrInvalidHentryIndex }
    some (base + i, { t with htUsedEntries := incr32 t.htUsedEntries })
  | none =>
    if g.htOentries = 0 then none else linkOentry t (base + (vrHentriesPerBucket - 1))

/-- The entry is valid and its key, as `ht_get_key` reads it, is the one looked for. -/
def holdsKey [DecidableEq κ] (getKey : π → Option κ) (key : κ) (e : Hentry π) : Bool :=
  e.hentryFlags.valid && decide (getKey e.payload = some key)

/-- The walk of `vr_htable_find_hentry` along a chain.  The outer `none` is a walk that does not
end within `fuel` entries. -/
def findInChain [DecidableEq κ] (getKey : π → Option κ) (t : Table π) (key : κ) :
    ℕ → Option ℕ → Option (Option ℕ)
  | _, none => some none
  | 0, some _ => none
  | fuel + 1, some i =>
    if holdsKey getKey key (t.hentry i) then some (some i)
    else findInChain getKey t key fuel (t.hentry i).hentryNext

/-- `vr_htable_find_hentry` -/
def findHentry [DecidableEq κ] (g : Geometry) (getKey : π → Option κ) (hash : κ → ℕ) (t : Table π)
    (key : κ) : Option (Option ℕ) :=
  let base := bucketBase g (hash key)
  match (List.range vrHentriesPerBucket).find? fun i =>
      holdsKey getKey key (t.hentry (base + i)) with
  | some i => some (some (base + i))
  | none =>
    findInChain getKey t key g.htOentries
      (t.hentry (base + (vrHentriesPerBucket - 1))).hentryNext

/-- `vr_htable_get_hentry_by_index` -/
def getHentryByIndex (g : Geometry) (t : Table π) (i : ℕ) : Option (Hentry π) :=
  if i < g.total ∧ (t.hentry i).hentryFlags.valid then some (t.hentry i) else none

/-! ### Releasing -/

/-- The effect of `vr_htable_release_hentry` on the deletion data and the pending work of the
bucket `k`: `schedOk` tells whether `vr_schedule_work` succeeds. -/
def scheduleDelete (s : Sys π) (k : ℕ) (schedOk : Bool) : Sys π :=
  let d := s.tbl.htDtable k
  let count := (d.hdCount + 1) % 2 ^ 16
  let scheduled := d.hdScheduled || schedOk
  { s with
    tbl := { s.tbl with htDtable := Function.update s.tbl.htDtable k ⟨count, scheduled⟩ }
    works := if !d.hdScheduled && schedOk then s.works ++ [k] else s.works }

/-- `vr_htable_release_hentry` -/
def releaseHentry (g : Geometry) (notReady schedOk : Bool) (s : Sys π) (i : ℕ) : Sys π :=
  if !(s.tbl.hentry i).hentryFlags.valid then s
  else
    let t := { s.tbl with htUsedEntries := decr32 s.tbl.htUsedEntries }
    let t := t.modify i fun e => { e with hentryFlags := { e.hentryFlags with valid := false } }
    if i < g.htHentries then { s with tbl := t }
    else if notReady then { s with tbl := t }
    else
      let t := t.modify i fun e =>
        { e with hentryFlags := { e.hentryFlags with deleteMarked := true } }
      scheduleDelete { s with tbl := t }
        ((t.hentry i).hentryBucketIndex / vrHentriesPerBucket) schedOk

/-! ### The pending work -/

/-- A marked entry `i` is unlinked from behind `prev` and becomes a processed one. -/
def unlinkEntry (t : Table π) (prev i : ℕ) : Table π :=
  let next := (t.hentry i).hentryNext
  let t := t.modify prev fun e =>
    { e with hentryNext := next, hentryNextIndex := nextIndexOf next }
  t.modify i fun e => { e with
    hentryFlags := { e.hentryFlags with deleteMarked := false, deleteProcessed := true } }

/-- A processed entry is invalidated at once, or later by a deferred callback; when the data for
the callback cannot be allocated, nothing more happens to it. -/
def disposeEntry (g : Geometry) (notReady allocOk : Bool) (s : Sys π) (i : ℕ) : Sys π :=
  if notReady then { s with tbl := oentryInvalidate g s.tbl i }
  else if allocOk then { s with defers := s.defers ++ [i] }
  else s

/-- The loop of `vr_htable_hentry_scheduled_delete`, from the entry before (`prev`) and the entry
at hand on, with `count` entries still to be deleted.  `head` is the last main entry of the bucket,
and `allocOk i` tells whether the deferred data for entry `i` can be allocated. -/
def deleteLoop (g : Geometry) (notReady : Bool) (allocOk : ℕ → Bool) (head : ℕ) :
    ℕ → Sys π → ℕ → Option ℕ → ℕ → Option (Sys π)
  | _, s, _, none, _ => some s
  | _, s, _, some _, 0 => some s
  | 0, _, _, some _, _ + 1 => none
  | fuel + 1, s, prev, some i, count + 1 =>
    let next := (s.tbl.hentry i).hentryNext
    if (s.tbl.hentry i).hentryFlags.deleteMarked then
      if prev = head ∧ (s.tbl.hentry prev).hentryNext ≠ some i then
        -- an entry was inserted at the head meanwhile: start again
        deleteLoop g notReady allocOk head fuel s head (s.tbl.hentry head).hentryNext (count + 1)
      else
        deleteLoop g notReady allocOk head fuel
          (disposeEntry g notReady (allocOk i) { s with tbl := unlinkEntry s.tbl prev i } i)
          prev next count
    else if (s.tbl.hentry i).hentryFlags.deleteProcessed then
      deleteLoop g notReady allocOk head fuel (disposeEntry g notReady (allocOk i) s i) prev next
        (count + 1)
    else deleteLoop g notReady allocOk head fuel s i next (count + 1)

/-- `vr_htable_hentry_scheduled_delete` for the bucket `k`. -/
def scheduledDelete (g : Geometry) (notReady : Bool) (allocOk : ℕ → Bool) (s : Sys π) (k : ℕ) :
    Option (Sys π) :=
  let head := headOf k
  let count := (s.tbl.htDtable k).hdCount
  let s := { s with tbl := { s.tbl with htDtable := Function.update s.tbl.htDtable k ⟨0, false⟩ } }
  deleteLoop g notReady allocOk head g.htOentries s head (s.tbl.hentry head).hentryNext count

/-- `vr_htable_hentry_defer_delete` for the entry `i`. -/
def deferDelete (g : Geometry) (s : Sys π) (i : ℕ) : Sys π :=
  { s with tbl := oentryInvalidate g s.tbl i }

/-! ### Resetting -/

/-- Clears the valid flag of an entry, and counts that. -/
def clearValid (t : Table π) (i : ℕ) : Table π :=
  if (t.hentry i).hentryFlags.valid then
    let t := t.modify i fun e => { e with hentryFlags := { e.hentryFlags with valid := false } }
    { t with htUsedEntries := decr32 t.htUsedEntries }
  else t

/-- The inner loop of `vr_htable_reset`, along a chain that was taken off its bucket. -/
def resetChain (g : Geometry) : ℕ → Table π → Option ℕ → Option (Table π)
  | _, t, none => some t
  | 0, _, some _ => none
  | fuel + 1, t, some i =>
    let next := (t.hentry i).hentryNext
    resetChain g fuel (oentryInvalidate g (clearValid t i) i) next

/-- One entry of `vr_htable_reset`: the callback `cb`, then the entry, then its chain. -/
def resetEntry (g : Geometry) (cb : ℕ → Sys π → Sys π) (s : Sys π) (i : ℕ) : Option (Sys π) :=
  let s := cb i s
  let s := { s with tbl := clearValid s.tbl i }
  if i < g.htHentries then
    match (s.tbl.hentry i).hentryNext with
    | none => some s
    | some o =>
      let t := s.tbl.modify i fun e =>
        { e with hentryNext := none, hentryNextIndex := vrInvalidHentryIndex }
      (resetChain g g.htOentries t (some o)).map fun t => { s with tbl := t }
  else some s

/-- `vr_htable_reset` -/
def reset (g : Geometry) (cb : ℕ → Sys π → Sys π) (s : Sys π) : Option (Sys π) :=
  (List.range g.total).foldlM (resetEntry g cb) s

/-! ### Creating -/

/-- `vr_htable_create`, in zeroed memory: the overflow entries are on the free list in order. -/
def create (g : Geometry) (zero : π) : Sys π where
  tbl := {
    hentry := fun i => {
      hentryNext :=
        if g.htHentries ≤ i ∧ i + 1 < g.total then some (i + 1) else none
      hentryBucketIndex := 0
      hentryNextIndex := vrInvalidHentryIndex
      hentryFlags := { HentryFlags.zero with
        inFreeList := decide (g.htHentries ≤ i ∧ i < g.total) }
      payload := zero }
    htFreeOentryHead := if 0 < g.htOentries then some g.htHentries else none
    htUsedOentries := 0
    htUsedEntries := 0
    htDtable := fun _ => ⟨0, false⟩ }
  works := []
  defers := []

end Vrouter.Htable
