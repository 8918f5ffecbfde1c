import Vrouter.Lib.Loop
import Mathlib.Logic.Function.Basic

/-! # The index table

A translation of `vr_index_table.c`.  An index table files pointers under the indices of a fixed
number of bits.  The bits of an index are cut into strides, from the high end on; each stride but
the last selects a later stride, which is allocated when an element is first filed beneath it, and
the last one selects the element.

No stride is shared, so a pointer to a stride owns it and a table is a tree.  `allocated` counts the
strides that were allocated and not yet freed.  What `vr_printf` reports, the default callback that
prints, and the disposal of a whole table (`vr_itable_delete`) are left out.  The allocations of
`vr_itable_create` succeed; those of `vr_itable_set` succeed or fail as the list of their outcomes
says, and one beyond its end succeeds. -/

namespace Vrouter.Itable

open Vrouter.Lib

variable {δ σ : Type}

/-! ### Tables -/

/-- A word of a stride, and a pointer to a stride. -/
inductive Ptr (δ : Type)
  | null
  | stride (slots : ℕ → Ptr δ)
  | data (d : δ)

/-- The pointer that a caller passes, which may be `NULL`. -/
def Ptr.ofOption : Option δ → Ptr δ
  | none => .null
  | some d => .data d

/-- The pointer that a caller gets. -/
def Ptr.toOption : Ptr δ → Option δ
  | .data d => some d
  | _ => none

def Ptr.isNull : Ptr δ → Bool
  | .null => true
  | _ => false

/-- `stride_len[i]` and `stride_shift[i]`. -/
structure Stride where
  len : ℕ
  shift : ℕ
  deriving DecidableEq, Repr

/-- The slot of an index in a stride. -/
def Stride.slot (s : Stride) (index : ℕ) : ℕ := (index >>> s.shift) &&& (s.len - 1)

/-- `struct vr_itbl`; the number of strides is the length of the list. -/
structure VrItbl (δ : Type) where
  indexLen : ℕ
  strides : List Stride
  data : Ptr δ
  allocated : ℕ

/-- A stride as `vr_zalloc` returns it. -/
def zeroStride : ℕ → Ptr δ := fun _ => .null

def vrStrideEmpty (slots : ℕ → Ptr δ) (cnt : ℕ) : Bool :=
  (List.range cnt).all fun i => (slots i).isNull

/-! ### Creation -/

/-- The kernel module and the programs that run in user space bound a stride differently. -/
inductive Build
  | kernel
  | user
  deriving DecidableEq, Repr

/-- `get_page_shift`, for pages of 4096 bytes; `ffs` counts from one. -/
def getPageShift : Build → ℕ
  | .kernel => 12
  | .user => 13

/-- The loop of `vr_itable_create` over the widths of the strides. -/
def createStrides (build : Build) (indexLen : ℕ) : List ℕ → ℕ → Option (List Stride)
  | [], tot => if tot ≠ indexLen then none else some []
  | width :: widths, tot =>
    if width > getPageShift build then none
    else if tot + width > indexLen then none
    else (createStrides build indexLen widths (tot + width)).map
      (⟨1 <<< width, indexLen - (tot + width)⟩ :: ·)

def vrItableCreate (build : Build) (indexLen : ℕ) (widths : List ℕ) : Option (VrItbl δ) :=
  if indexLen > 32 then none
  else if widths.length < 2 then none
  else (createStrides build indexLen widths 0).map fun strides => ⟨indexLen, strides, .null, 0⟩

/-! ### Elements -/

/-- The loop of `vr_itable_get`. -/
def getFrom (index : ℕ) : List Stride → Ptr δ → Ptr δ
  | s :: strides, .stride slots => getFrom index strides (slots (s.slot index))
  | _, ptr => ptr

def vrItableGet (t : VrItbl δ) (index : ℕ) : Option δ :=
  (getFrom index t.strides t.data).toOption

/-- The outcome of the next allocation. -/
def zallocOk (allocs : List Bool) : Bool := allocs.headD true

/-- What `vr_itable_set` leaves of a stride: its slots, the pointer returned (`none` for
`VR_ITABLE_ERR_PTR`) and the number of strides allocated beneath it. -/
structure SetResult (δ : Type) where
  slots : ℕ → Ptr δ
  ret : Option (Ptr δ)
  allocs : ℕ

/-- The loop of `vr_itable_set`.  A stride that was allocated stays when a later one is not. -/
def setFrom (index : ℕ) (d : Ptr δ) : List Stride → List Bool → (ℕ → Ptr δ) → SetResult δ
  | [], _, slots => ⟨slots, none, 0⟩
  | [s], _, slots =>
    ⟨Function.update slots (s.slot index) d, some (slots (s.slot index)), 0⟩
  | s :: strides, allocs, slots =>
    match slots (s.slot index) with
    | .stride sub =>
      let r := setFrom index d strides allocs sub
      ⟨Function.update slots (s.slot index) (.stride r.slots), r.ret, r.allocs⟩
    | _ =>
      if zallocOk allocs then
        let r := setFrom index d strides allocs.tail zeroStride
        ⟨Function.update slots (s.slot index) (.stride r.slots), r.ret, r.allocs + 1⟩
      else ⟨slots, none, 0⟩

/-- `vr_itable_set`: the old pointer, or `none` for `VR_ITABLE_ERR_PTR`. -/
def vrItableSet (t : VrItbl δ) (index : ℕ) (data : Option δ) (allocs : List Bool) :
    Option (Option δ) × VrItbl δ :=
  match t.data with
  | .stride slots =>
    let r := setFrom index (.ofOption data) t.strides allocs slots
    (r.ret.map Ptr.toOption,
      { t with data := .stride r.slots, allocated := t.allocated + r.allocs })
  | _ =>
    if zallocOk allocs then
      let r := setFrom index (.ofOption data) t.strides allocs.tail zeroStride
      (r.ret.map Ptr.toOption,
        { t with data := .stride r.slots, allocated := t.allocated + r.allocs + 1 })
    else (none, t)

/-- What `__vr_itable_del` leaves of a stride: the pointer to it, which is null when the stride was
freed, the element that was deleted and the number of strides freed. -/
structure DelResult (δ : Type) where
  ptr : Ptr δ
  old : Ptr δ
  frees : ℕ

/-- The stride after one of its slots was cleared: it is freed when it is empty. -/
def clearSlot (slots : ℕ → Ptr δ) (s : Stride) (index : ℕ) (old : Ptr δ) (frees : ℕ) : DelResult δ :=
  if vrStrideEmpty (Function.update slots (s.slot index) .null) s.len then ⟨.null, old, frees + 1⟩
  else ⟨.stride (Function.update slots (s.slot index) .null), old, frees⟩

/-- `__vr_itable_del` -/
def delFrom (index : ℕ) : List Stride → Ptr δ → DelResult δ
  | [s], .stride slots =>
    if (slots (s.slot index)).isNull then ⟨.stride slots, .null, 0⟩
    else clearSlot slots s index (slots (s.slot index)) 0
  | s :: strides, .stride slots =>
    if (slots (s.slot index)).isNull then ⟨.stride slots, .null, 0⟩
    else
      let r := delFrom index strides (slots (s.slot index))
      if r.ptr.isNull then clearSlot slots s index r.old r.frees
      else ⟨.stride (Function.update slots (s.slot index) r.ptr), r.old, r.frees⟩
  | _, ptr => ⟨ptr, .null, 0⟩

/-- `vr_itable_del`: the element that was deleted. -/
def vrItableDel (t : VrItbl δ) (index : ℕ) : Option δ × VrItbl δ :=
  let r := delFrom index t.strides t.data
  (r.old.toOption, { t with data := r.ptr, allocated := t.allocated - r.frees })

/-! ### Traversal -/

/-- `__vr_itable_dump`: the callback gets an index, its element and the state that it keeps. -/
def dumpFrom (func : ℕ → δ → σ → ℤ × σ) (marker : ℕ) : List Stride → Ptr δ → ℕ → σ → ℤ × σ
  | [s], .stride slots, index, u =>
    loopUntil (fun j res u =>
      match slots j with
      | .data d =>
        if index ||| (j <<< s.shift) ≥ marker then func (index ||| (j <<< s.shift)) d u
        else (res, u)
      | _ => (res, u)) (List.range s.len) 1 u
  | s :: strides, .stride slots, index, u =>
    loopUntil (fun i res u =>
      if (slots i).isNull then (res, u)
      else dumpFrom func marker strides (slots i) (index ||| (i <<< s.shift)) u)
      (List.range s.len) 1 u
  | _, _, _, u => (1, u)

/-- `vr_itable_trav`: the number returned and the state of the callback. -/
def vrItableTrav (t : VrItbl δ) (func : ℕ → δ → σ → ℤ × σ) (marker : ℕ) (u : σ) : ℤ × σ :=
  dumpFrom func marker t.strides t.data 0 u

end Vrouter.Itable
