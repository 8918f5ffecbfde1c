import Vrouter.Itable.Model
import Vrouter.Lib.Sum
import Mathlib.Data.Nat.Bitwise
import Mathlib.Algebra.Order.Ring.Nat
import Mathlib.Algebra.BigOperators.Ring.Finset
import Mathlib.Tactic.Ring

/-! # The index table is a finite map

The strides of a table are those of a list of widths (`createStrides_eq`), and the slots that an
index selects in them are its digits.  `view ws p` is what `vr_itable_get` finds beneath the pointer
`p` when strides of the widths `ws` are left; every operation changes the view at one index, and a
traversal visits the elements of the view in order.  Each fact is an induction on the widths, with
one lemma (`view_update`) for a slot that is rewritten. -/

namespace Vrouter.Itable

open Vrouter.Lib Function

variable {δ σ : Type} {build : Build} {indexLen w i j index marker n : ℕ} {ws : List ℕ}
  {slots : ℕ → Ptr δ} {p p' d : Ptr δ}

/-! ### Digits -/

/-- The strides of the widths `ws`, the last of which ends at bit 0. -/
def stridesOf : List ℕ → List Stride
  | [] => []
  | w :: ws => ⟨2 ^ w, ws.sum⟩ :: stridesOf ws

/-- The digit of an index above its lowest `r` bits. -/
def digit (w r index : ℕ) : ℕ := index / 2 ^ r % 2 ^ w

theorem slot_eq (w r index : ℕ) : (⟨2 ^ w, r⟩ : Stride).slot index = digit w r index := by
  unfold Stride.slot digit
  rw [Nat.shiftRight_eq_div_pow, Nat.and_two_pow_sub_one_eq_mod]

theorem digit_lt (w r index : ℕ) : digit w r index < 2 ^ w :=
  Nat.mod_lt _ (Nat.two_pow_pos w)

theorem createStrides_eq : ∀ {ws : List ℕ} {tot : ℕ} {strides : List Stride},
    createStrides build indexLen ws tot = some strides →
    tot + ws.sum = indexLen ∧ strides = stridesOf ws
  | [], tot, strides, h => by
    unfold createStrides at h
    split_ifs at h with htot
    cases h
    exact ⟨by simpa using htot, rfl⟩
  | w :: ws, tot, strides, h => by
    unfold createStrides at h
    split_ifs at h
    obtain ⟨rest, hrest, rfl⟩ := Option.map_eq_some_iff.1 h
    obtain ⟨hsum, rfl⟩ := createStrides_eq hrest
    refine ⟨by rw [List.sum_cons, ← Nat.add_assoc]; exact hsum, ?_⟩
    rw [stridesOf, Nat.one_shiftLeft, show indexLen - (tot + w) = ws.sum by omega]

/-- Two indices agree in their lowest `w + r` bits when they agree in the digit and beneath it. -/
theorem mod_eq_iff (w r i j : ℕ) :
    i % 2 ^ (w + r) = j % 2 ^ (w + r) ↔ digit w r i = digit w r j ∧ i % 2 ^ r = j % 2 ^ r := by
  unfold digit
  have hpos := Nat.two_pow_pos r
  rw [Nat.add_comm w r, pow_add, Nat.mod_mul, Nat.mod_mul]
  constructor
  · intro h
    have hlow : i % 2 ^ r = j % 2 ^ r := by
      have := congrArg (· % 2 ^ r) h
      simpa [Nat.add_mul_mod_self_left] using this
    refine ⟨?_, hlow⟩
    rw [hlow] at h
    exact Nat.eq_of_mul_eq_mul_left hpos (Nat.add_left_cancel h)
  · rintro ⟨hhigh, hlow⟩
    rw [hhigh, hlow]

theorem digit_add (w r k : ℕ) (hi : i < 2 ^ w) (hk : k < 2 ^ r) : digit w r (i * 2 ^ r + k) = i := by
  unfold digit
  rw [Nat.mul_comm, Nat.mul_add_div (Nat.two_pow_pos r), Nat.div_eq_of_lt hk, Nat.add_zero,
    Nat.mod_eq_of_lt hi]

/-! ### The view of a pointer -/

/-- What `vr_itable_get` finds beneath a pointer, at each index. -/
def view (ws : List ℕ) (p : Ptr δ) (index : ℕ) : Ptr δ := getFrom index (stridesOf ws) p

/-- Strides lie beneath a pointer as deep as there are widths, and elements beneath them. -/
def Shaped : List ℕ → Ptr δ → Prop
  | _, .null => True
  | [], .data _ => True
  | _ :: ws, .stride slots => ∀ j, Shaped ws (slots j)
  | _, _ => False

@[simp] theorem view_null : view ws (.null : Ptr δ) index = .null := by
  unfold view
  cases ws <;> rfl

@[simp] theorem view_nil : view [] p index = p := by
  cases p <;> rfl

@[simp] theorem view_stride :
    view (w :: ws) (.stride slots) index = view ws (slots (digit w ws.sum index)) index := by
  rw [← slot_eq]
  rfl

theorem Shaped.null : Shaped ws (.null : Ptr δ) := by cases ws <;> trivial

theorem Shaped.update (h : Shaped (w :: ws) (.stride slots)) (hp : Shaped ws p) (i : ℕ) :
    Shaped (w :: ws) (.stride (update slots i p)) :=
  (Function.forall_update_iff slots fun _ => Shaped ws).2 ⟨hp, fun j _ => h j⟩

/-- Where strides are left, a pointer is null or one to a stride. -/
theorem Shaped.stride_cases (h : Shaped (w :: ws) p) : p = .null ∨ ∃ slots, p = .stride slots := by
  cases p with
  | null => exact .inl rfl
  | stride slots => exact .inr ⟨slots, rfl⟩
  | data d => exact h.elim

theorem view_congr : ∀ {ws : List ℕ} {p : Ptr δ}, i % 2 ^ ws.sum = j % 2 ^ ws.sum →
    view ws p i = view ws p j
  | [], _, _ => by rw [view_nil, view_nil]
  | w :: ws, .null, _ => by rw [view_null, view_null]
  | w :: ws, .data _, _ => rfl
  | w :: ws, .stride slots, h => by
    rw [List.sum_cons, mod_eq_iff] at h
    rw [view_stride, view_stride, h.1]
    exact view_congr h.2

/-- The elements beneath, with the one of an index replaced. -/
def filed (m : ℕ → Ptr δ) (bits index : ℕ) (d : Ptr δ) (j : ℕ) : Ptr δ :=
  if j % 2 ^ bits = index % 2 ^ bits then d else m j

theorem filed_zero (m : ℕ → Ptr δ) : filed m 0 index d = fun _ => d := by
  funext j
  unfold filed
  rw [if_pos (by rw [pow_zero, Nat.mod_one, Nat.mod_one])]

theorem filed_self {bits : ℕ} (m : ℕ → Ptr δ) (hm : ∀ j, j % 2 ^ bits = index % 2 ^ bits → m j = d) :
    filed m bits index d = m := by
  funext j
  unfold filed
  split_ifs with h
  · exact (hm j h).symm
  · rfl

/-- **A slot is rewritten.**  If the new pointer shows the old elements with that of an index
replaced, so does the stride. -/
theorem view_update (h : view ws p = filed (view ws (slots (digit w ws.sum index))) ws.sum index d) :
    view (w :: ws) (.stride (update slots (digit w ws.sum index) p)) =
      filed (view (w :: ws) (.stride slots)) (w :: ws).sum index d := by
  funext j
  unfold filed
  simp only [view_stride, List.sum_cons, mod_eq_iff]
  by_cases hj : digit w ws.sum j = digit w ws.sum index
  · rw [hj, update_self, h]
    simp only [filed, true_and]
  · rw [update_of_ne hj, if_neg fun h => hj h.1]

theorem view_update_same (h : view ws p = view ws (slots (digit w ws.sum index))) :
    view (w :: ws) (.stride (update slots (digit w ws.sum index) p)) =
      view (w :: ws) (.stride slots) := by
  funext j
  rw [view_stride, view_stride]
  by_cases hj : digit w ws.sum j = digit w ws.sum index
  · rw [hj, update_self, h]
  · rw [update_of_ne hj]

/-! ### Counting strides -/

/-- The number of strides at or beneath a pointer. -/
def count : List ℕ → Ptr δ → ℕ
  | w :: ws, .stride slots => 1 + ∑ j ∈ Finset.range (2 ^ w), count ws (slots j)
  | _, _ => 0

@[simp] theorem count_null : count ws (.null : Ptr δ) = 0 := by cases ws <;> rfl

@[simp] theorem count_nil : count [] p = 0 := by cases p <;> rfl

theorem count_zeroStride : count (w :: ws) (.stride (zeroStride : ℕ → Ptr δ)) = 1 := by
  simp [count, zeroStride]

theorem count_update (w : ℕ) (ws : List ℕ) (slots : ℕ → Ptr δ) (p : Ptr δ) (hi : i < 2 ^ w) :
    count (w :: ws) (.stride (update slots i p)) + count ws (slots i) =
      count (w :: ws) (.stride slots) + count ws p := by
  have hsum := sum_change (fun j => count ws (slots j))
    (fun j => count ws (update slots i p j)) (Finset.mem_range.2 hi)
    fun j hj => by rw [update_of_ne hj]
  rw [update_self] at hsum
  simp only [count]
  omega

/-! ### Filing an element -/

theorem view_zeroStride : view (w :: ws) (.stride (zeroStride : ℕ → Ptr δ)) = view (w :: ws) .null := by
  funext j
  rw [view_stride, view_null]
  exact view_null

theorem Shaped.zeroStride : Shaped (w :: ws) (.stride (zeroStride : ℕ → Ptr δ)) := fun _ => .null

/-- What `vr_itable_set` does beneath a stride: it fails and changes no element, or it returns the
old element and files the new one. -/
structure Sets (ws : List ℕ) (index : ℕ) (d : Ptr δ) (slots : ℕ → Ptr δ) (r : SetResult δ) : Prop where
  shaped : Shaped ws (.stride r.slots)
  counted : count ws (.stride r.slots) = count ws (.stride slots) + r.allocs
  effect : (r.ret = none ∧ view ws (.stride r.slots) = view ws (.stride slots)) ∨
    (r.ret = some (view ws (.stride slots) index) ∧
      view ws (.stride r.slots) = filed (view ws (.stride slots)) ws.sum index d)

/-- The result of a later stride, which may have been allocated, is put into the slot. -/
theorem Sets.cons {r : SetResult δ} {sub : ℕ → Ptr δ} (hs : Shaped (w :: ws) (.stride slots))
    (hsub : view ws (.stride sub) = view ws (slots (digit w ws.sum index)))
    (hcount : count ws (.stride sub) + r.allocs = count ws (slots (digit w ws.sum index)) + n)
    (h : Sets ws index d sub r) :
    Sets (w :: ws) index d slots
      ⟨update slots (digit w ws.sum index) (.stride r.slots), r.ret, n⟩ where
  shaped := hs.update h.shaped _
  counted := by
    have hupdate := count_update w ws slots (.stride r.slots) (digit_lt w ws.sum index)
    have hnew := h.counted
    dsimp only
    omega
  effect := by
    obtain ⟨hret, hv⟩ | ⟨hret, hv⟩ := h.effect
    · exact .inl ⟨hret, view_update_same (hv.trans hsub)⟩
    · refine .inr ⟨?_, view_update (by rw [hv, hsub])⟩
      rw [hret, hsub, view_stride]

theorem setFrom_sets (hd : Shaped [] d) : ∀ {ws : List ℕ} (allocs : List Bool) {slots : ℕ → Ptr δ},
    Shaped ws (.stride slots) → Sets ws index d slots (setFrom index d (stridesOf ws) allocs slots)
  | [], _, _, h => h.elim
  | [w], allocs, slots, h => by
    have hself : view [] d = filed (view [] (slots (digit w 0 index))) 0 index d := by
      rw [filed_zero]
      exact funext fun _ => view_nil
    simp only [stridesOf, setFrom, slot_eq, List.sum_nil]
    refine ⟨h.update hd _, ?_, .inr ⟨?_, view_update hself⟩⟩
    · have hupdate := count_update w [] slots d (digit_lt w 0 index)
      rw [count_nil, count_nil] at hupdate
      exact hupdate
    · rw [view_stride, view_nil]
      rfl
  | w :: w' :: ws, allocs, slots, h => by
    simp only [stridesOf, setFrom, slot_eq]
    have hid : Shaped (w' :: ws) (slots (digit w (w' :: ws).sum index)) := h _
    obtain hnull | ⟨sub, hsub⟩ := hid.stride_cases
    · rw [hnull]
      simp only
      split_ifs
      · refine Sets.cons h (by rw [view_zeroStride, hnull]) ?_ (setFrom_sets hd _ .zeroStride)
        rw [count_zeroStride, hnull, count_null]
        omega
      · exact ⟨h, rfl, .inl ⟨rfl, rfl⟩⟩
    · rw [hsub] at hid ⊢
      exact Sets.cons h (by rw [hsub]) (by rw [hsub]) (setFrom_sets hd _ hid)

/-! ### Deleting an element -/

theorem isNull_eq_true : p.isNull = true ↔ p = .null := by
  cases p <;> simp [Ptr.isNull]

theorem slots_null_of_empty (h : vrStrideEmpty slots n = true) (hi : i < n) :
    slots i = .null :=
  isNull_eq_true.1 (List.all_eq_true.1 h i (List.mem_range.2 hi))

theorem count_of_empty (h : vrStrideEmpty slots (2 ^ w) = true) :
    count (w :: ws) (.stride slots) = 1 := by
  have hzero : ∑ j ∈ Finset.range (2 ^ w), count ws (slots j) = 0 :=
    Finset.sum_eq_zero fun j hj => by
      rw [slots_null_of_empty h (Finset.mem_range.1 hj), count_null]
  simp only [count, hzero]

/-- What `__vr_itable_del` does beneath a pointer. -/
structure Deletes (ws : List ℕ) (index : ℕ) (p : Ptr δ) (r : DelResult δ) : Prop where
  shaped : Shaped ws r.ptr
  counted : count ws r.ptr + r.frees = count ws p
  old : r.old = view ws p index
  effect : view ws r.ptr = filed (view ws p) ws.sum index .null

theorem Deletes.absent (hs : Shaped ws p) (h : view ws p index = .null) :
    Deletes ws index p ⟨p, .null, 0⟩ where
  shaped := hs
  counted := rfl
  old := h.symm
  effect := (filed_self _ fun _ hj => (view_congr hj).trans h).symm

/-- The slot is cleared, and the stride is freed when that was the last one in use. -/
theorem Deletes.clearSlot {r : DelResult δ} (hs : Shaped (w :: ws) (.stride slots))
    (h : Deletes ws index (slots (digit w ws.sum index)) r) (hr : r.ptr = .null) :
    Deletes (w :: ws) index (.stride slots) (clearSlot slots ⟨2 ^ w, ws.sum⟩ index r.old r.frees) := by
  have hview : view (w :: ws) (.stride (update slots (digit w ws.sum index) .null)) =
      filed (view (w :: ws) (.stride slots)) (w :: ws).sum index .null :=
    view_update (hr ▸ h.effect)
  have hcount := count_update w ws slots .null (digit_lt w ws.sum index)
  have hfrees := h.counted
  rw [hr] at hfrees
  rw [count_null] at hcount hfrees
  unfold Itable.clearSlot
  rw [slot_eq]
  split_ifs with hempty
  · refine ⟨.null, ?_, by rw [view_stride]; exact h.old, ?_⟩
    · rw [count_of_empty hempty] at hcount
      rw [count_null]
      dsimp only
      omega
    · rw [← hview]
      funext j
      rw [view_null, view_stride, slots_null_of_empty hempty (digit_lt _ _ _), view_null]
  · refine ⟨hs.update .null _, ?_, by rw [view_stride]; exact h.old, hview⟩
    dsimp only
    omega

theorem delFrom_deletes : ∀ {ws : List ℕ} {p : Ptr δ}, ws ≠ [] → Shaped ws p →
    Deletes ws index p (delFrom index (stridesOf ws) p)
  | [], _, h, _ => absurd rfl h
  | [w], .null, _, h => .absent h view_null
  | w :: w' :: ws, .null, _, h => .absent h view_null
  | [w], .stride slots, _, h => by
    simp only [stridesOf, delFrom, slot_eq, List.sum_nil]
    split_ifs with hnull
    · refine .absent h ?_
      rw [view_stride, view_nil]
      exact isNull_eq_true.1 hnull
    · refine Deletes.clearSlot (r := ⟨.null, slots (digit w 0 index), 0⟩) h
        ⟨.null, by rw [count_null, count_nil, Nat.add_zero], ?_, ?_⟩ rfl
      · rw [view_nil]
        rfl
      · rw [List.sum_nil, filed_zero]
        exact funext fun _ => view_nil
  | w :: w' :: ws, .stride slots, _, h => by
    have ih := delFrom_deletes (List.cons_ne_nil w' ws) (h (digit w (w' :: ws).sum index))
    simp only [stridesOf, delFrom, slot_eq]
    simp only [stridesOf] at ih
    generalize delFrom index (⟨2 ^ w', ws.sum⟩ :: stridesOf ws)
      (slots (digit w (w' :: ws).sum index)) = r at ih ⊢
    split_ifs with hnull hfreed
    · refine .absent h ?_
      rw [view_stride, isNull_eq_true.1 hnull, view_null]
    · exact ih.clearSlot h (isNull_eq_true.1 hfreed)
    · refine ⟨h.update ih.shaped _, ?_, by rw [view_stride]; exact ih.old, view_update ih.effect⟩
      have hupdate := count_update w (w' :: ws) slots r.ptr (digit_lt w (w' :: ws).sum index)
      have hfrees := ih.counted
      dsimp only
      omega
  | _ :: _, .data _, _, h => h.elim

/-! ### Traversing the elements -/

/-- The element at the `k`-th of the indices from `base` on, if it is not below the marker. -/
def elementAt (m : ℕ → Option δ) (marker base k : ℕ) : Option (ℕ × δ) :=
  if marker ≤ base + k then (m k).map (base + k, ·) else none

/-- The elements at the `n` indices from `base` on that are not below the marker. -/
def occupied (m : ℕ → Option δ) (marker base n : ℕ) : List (ℕ × δ) :=
  (List.range n).filterMap (elementAt m marker base)

theorem or_shiftLeft (a w r i : ℕ) (hi : i < 2 ^ w) :
    a * 2 ^ (w + r) ||| (i <<< r) = (a * 2 ^ w + i) * 2 ^ r := by
  have hlt : i <<< r < 2 ^ (w + r) := by
    rw [Nat.shiftLeft_eq, pow_add]
    exact Nat.mul_lt_mul_of_pos_right hi (Nat.two_pow_pos r)
  rw [← Nat.shiftLeft_eq, ← Nat.shiftLeft_add_eq_or_of_lt hlt, Nat.shiftLeft_eq, Nat.shiftLeft_eq]
  ring

theorem occupied_stride (a : ℕ) :
    occupied (fun k => (view (w :: ws) (.stride slots) k).toOption) marker (a * 2 ^ (w + ws.sum))
        (2 ^ (w + ws.sum)) =
      (List.range (2 ^ w)).flatMap fun i =>
        occupied (fun k => (view ws (slots i) k).toOption) marker ((a * 2 ^ w + i) * 2 ^ ws.sum)
          (2 ^ ws.sum) := by
  unfold occupied
  rw [pow_add 2 w ws.sum, range_mul_eq_flatMap, List.filterMap_flatMap]
  refine List.flatMap_congr fun i hi => ?_
  rw [List.filterMap_map]
  refine List.filterMap_congr fun k hk => ?_
  have hdigit := digit_add w ws.sum k (List.mem_range.1 hi) (List.mem_range.1 hk)
  have hview : view ws (slots i) (i * 2 ^ ws.sum + k) = view ws (slots i) k :=
    view_congr (by rw [Nat.mul_add_mod_self_right])
  have hindex : a * (2 ^ w * 2 ^ ws.sum) + (i * 2 ^ ws.sum + k) =
      (a * 2 ^ w + i) * 2 ^ ws.sum + k := by ring
  simp only [Function.comp_apply, elementAt, view_stride, hdigit, hview, hindex]

theorem occupied_null {base : ℕ} :
    occupied (fun k => (view ws (.null : Ptr δ) k).toOption) marker base n = [] := by
  unfold occupied
  refine List.filterMap_eq_nil_iff.2 fun k _ => ?_
  simp [elementAt, Ptr.toOption]

theorem visitUntil_element {func : ℕ → δ → σ → ℤ × σ} {res : ℤ} {u : σ} (hres : 0 < res) (q : Ptr δ)
    (hq : Shaped [] q) :
    Follows
      (match q with
        | .data d => if n ≥ marker then func n d u else (res, u)
        | _ => (res, u))
      (visitUntil (fun x u => func x.1 x.2 u)
        (occupied (fun _ => q.toOption) marker n 1) u) := by
  cases q with
  | null => exact ⟨by simp [occupied, elementAt, Ptr.toOption, visitUntil],
      by simpa [occupied, elementAt, Ptr.toOption, visitUntil] using hres⟩
  | stride _ => exact hq.elim
  | data d =>
    by_cases hn : marker ≤ n
    · by_cases hstop : (func n d u).1 ≤ 0 <;>
        simp [occupied, elementAt, Ptr.toOption, visitUntil, Follows, hn, hstop]
      omega
    · simp [occupied, elementAt, Ptr.toOption, visitUntil, Follows, hn, hres]

/-- **Traversal.**  The elements beneath a pointer are visited in the order of their indices. -/
theorem dumpFrom_follows {func : ℕ → δ → σ → ℤ × σ} : ∀ {ws : List ℕ} {p : Ptr δ} (a : ℕ) (u : σ),
    ws ≠ [] → Shaped ws p →
    Follows (dumpFrom func marker (stridesOf ws) p (a * 2 ^ ws.sum) u)
      (visitUntil (fun x u => func x.1 x.2 u)
        (occupied (fun k => (view ws p k).toOption) marker (a * 2 ^ ws.sum) (2 ^ ws.sum)) u)
  | [], _, _, _, h, _ => absurd rfl h
  | w :: ws, .data _, _, _, _, h => h.elim
  | w :: ws, .null, a, u, _, _ => by
    rw [occupied_null]
    cases ws <;> exact ⟨rfl, Int.one_pos⟩
  | [w], .stride slots, a, u, _, h => by
    simp only [stridesOf, dumpFrom, List.sum_cons]
    rw [occupied_stride]
    refine loop_follows _ Int.one_pos fun j hj res u hres => ?_
    rw [or_shiftLeft _ _ _ _ (List.mem_range.1 hj)]
    simp only [List.sum_nil, pow_zero, mul_one, view_nil]
    exact visitUntil_element hres (slots j) (h j)
  | w :: w' :: ws, .stride slots, a, u, _, h => by
    simp only [stridesOf, dumpFrom]
    rw [List.sum_cons (a := w), occupied_stride]
    refine loop_follows _ Int.one_pos fun i hi res u hres => ?_
    rw [or_shiftLeft _ _ _ _ (List.mem_range.1 hi)]
    split_ifs with hnull
    · rw [isNull_eq_true.1 hnull, occupied_null]
      exact ⟨rfl, hres⟩
    · exact dumpFrom_follows _ u (List.cons_ne_nil w' ws) (h i)

end Vrouter.Itable
