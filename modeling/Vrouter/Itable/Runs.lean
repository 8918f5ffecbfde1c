import Vrouter.Itable.Refine

/-! # Runs of the index table

A table that was created goes through any sequence of `vr_itable_set` and `vr_itable_del`, where
every allocation may fail.  Beside the table runs the map of the elements that were filed and not
deleted.  The table always shows that map, and the strides it allocated are those that hang off it
(`Files`).  A stride is freed with its last element, so that no stride is left without elements
(`Full`), unless `vr_itable_set` fails half way down or files a null pointer. -/

namespace Vrouter.Itable

open Vrouter.Lib Function

variable {δ σ : Type} {build : Build} {indexLen w i index marker : ℕ} {ws widths : List ℕ}
  {slots : ℕ → Ptr δ} {p d : Ptr δ} {t : VrItbl δ} {m : ℕ → Option δ}

/-! ### Strides that are in use -/

/-- Every stride at or beneath a pointer has a slot in use. -/
def Full : List ℕ → Ptr δ → Prop
  | w :: ws, .stride slots => (∃ j < 2 ^ w, slots j ≠ .null) ∧ ∀ j, Full ws (slots j)
  | _, _ => True

theorem Full.null : Full ws (.null : Ptr δ) := by cases ws <;> trivial

theorem Full.nil : Full [] p := by cases p <;> trivial

theorem Full.update (h : ∀ j, Full ws (slots j)) (hp : Full ws p) (hne : p ≠ .null)
    (hi : i < 2 ^ w) : Full (w :: ws) (.stride (update slots i p)) := by
  refine ⟨⟨i, hi, by rwa [update_self]⟩, ?_⟩
  exact (Function.forall_update_iff slots fun _ => Full ws).2 ⟨hp, fun j _ => h j⟩

/-- The outcomes of the allocations of one call: if the first succeeds, they all do. -/
def Whole (allocs : List Bool) : Prop := zallocOk allocs = true → ∀ b ∈ allocs, b = true

variable {allocs : List Bool} {n : ℕ} {e : Option δ}

theorem zallocOk_tail (h : Whole allocs) (hok : zallocOk allocs = true) :
    Whole allocs.tail ∧ zallocOk allocs.tail = true := by
  have hall := fun b hb => h hok b (List.mem_of_mem_tail hb)
  refine ⟨fun _ => hall, ?_⟩
  unfold zallocOk
  cases htail : allocs.tail with
  | nil => rfl
  | cons b rest => exact hall b (htail ▸ List.mem_cons_self)

/-- If the first allocation fails nothing is changed; otherwise the stride has a slot in use. -/
theorem setFrom_full (hd : d ≠ .null) : ∀ {ws : List ℕ} {allocs : List Bool} {slots : ℕ → Ptr δ},
    Shaped ws (.stride slots) → Whole allocs → (∀ j, Full ws.tail (slots j)) →
    ((setFrom index d (stridesOf ws) allocs slots).slots = slots ∧ zallocOk allocs = false) ∨
      Full ws (.stride (setFrom index d (stridesOf ws) allocs slots).slots)
  | [], _, _, h, _, _ => h.elim
  | [w], allocs, slots, _, _, hfull => by
    simp only [stridesOf, setFrom, slot_eq, List.sum_nil]
    exact .inr (Full.update hfull .nil hd (digit_lt w 0 index))
  | w :: w' :: ws, allocs, slots, h, hallocs, hfull => by
    have hid : Shaped (w' :: ws) (slots (digit w (w' :: ws).sum index)) := h _
    have hlt := digit_lt w (w' :: ws).sum index
    simp only [stridesOf, setFrom, slot_eq]
    obtain hnull | ⟨sub, hsub⟩ := hid.stride_cases
    · rw [hnull]
      simp only
      split_ifs with hok
      · obtain ⟨htail, hoks⟩ := zallocOk_tail hallocs hok
        obtain ⟨-, hfail⟩ | hnew := setFrom_full hd (Shaped.zeroStride (δ := δ)) htail fun _ => .null
        · rw [hfail] at hoks
          cases hoks
        · exact .inr (Full.update hfull hnew (by simp) hlt)
      · exact .inl ⟨rfl, by simpa using hok⟩
    · have hsubfull := hfull (digit w (w' :: ws).sum index)
      rw [hsub] at hid hsubfull ⊢
      obtain ⟨hsame, hfail⟩ | hnew := setFrom_full hd hid hallocs hsubfull.2
      · simp only [stridesOf] at hsame
        refine .inl ⟨?_, hfail⟩
        dsimp only
        rw [hsame, ← hsub, update_eq_self]
      · exact .inr (Full.update hfull hnew (by simp) hlt)

theorem exists_of_not_empty (h : vrStrideEmpty slots n = false) : ∃ j < n, slots j ≠ .null := by
  obtain ⟨j, hj, hslot⟩ := List.all_eq_false.1 h
  exact ⟨j, List.mem_range.1 hj, fun hnull => hslot (isNull_eq_true.2 hnull)⟩

theorem clearSlot_full {old : Ptr δ} (h : ∀ j, Full ws (slots j)) :
    Full (w :: ws) (clearSlot slots ⟨2 ^ w, ws.sum⟩ index old n).ptr := by
  unfold clearSlot
  split_ifs with hempty
  · exact .null
  · refine ⟨exists_of_not_empty (by simpa using hempty), ?_⟩
    exact (Function.forall_update_iff slots fun _ => Full ws).2 ⟨.null, fun j _ => h j⟩

theorem delFrom_full : ∀ {ws : List ℕ} {p : Ptr δ}, Full ws p →
    Full ws (delFrom index (stridesOf ws) p).ptr
  | [], _, _ => .nil
  | [_], .data _, _ => trivial
  | _ :: _ :: _, .data _, _ => trivial
  | [_], .null, _ => .null
  | _ :: _ :: _, .null, _ => .null
  | [w], .stride slots, h => by
    simp only [stridesOf, delFrom]
    split_ifs
    · exact h
    · exact clearSlot_full h.2
  | w :: w' :: ws, .stride slots, h => by
    have ih := delFrom_full (h.2 (digit w (w' :: ws).sum index))
    simp only [stridesOf, delFrom, slot_eq]
    simp only [stridesOf] at ih
    split_ifs with hnull hfreed
    · exact h
    · exact clearSlot_full h.2
    · exact Full.update h.2 ih (fun hnil => hfreed (isNull_eq_true.2 hnil)) (digit_lt _ _ _)

theorem exists_element : ∀ {ws : List ℕ} {p : Ptr δ}, Shaped ws p → Full ws p → p ≠ .null →
    ∃ i < 2 ^ ws.sum, (view ws p i).toOption ≠ none
  | [], .null, _, _, hne => absurd rfl hne
  | [], .stride _, h, _, _ => h.elim
  | [], .data d, _, _, _ => ⟨0, Nat.one_pos, nofun⟩
  | _ :: _, .data _, h, _, _ => h.elim
  | _ :: _, .null, _, _, hne => absurd rfl hne
  | w :: ws, .stride slots, h, hfull, _ => by
    obtain ⟨⟨j, hj, hslot⟩, hbelow⟩ := hfull
    obtain ⟨k, hk, hview⟩ := exists_element (h j) (hbelow j) hslot
    refine ⟨j * 2 ^ ws.sum + k, ?_, ?_⟩
    · rw [List.sum_cons, pow_add]
      calc j * 2 ^ ws.sum + k < (j + 1) * 2 ^ ws.sum := by rw [Nat.succ_mul]; omega
        _ ≤ 2 ^ w * 2 ^ ws.sum := Nat.mul_le_mul_right _ hj
    · rw [view_stride, digit_add w ws.sum k hj hk,
        view_congr (show (j * 2 ^ ws.sum + k) % 2 ^ ws.sum = k % 2 ^ ws.sum by
          rw [Nat.mul_add_mod_self_right])]
      exact hview

/-! ### Tables and maps -/

/-- The table with strides of the widths `ws` shows the map `m`. -/
structure Files (ws : List ℕ) (t : VrItbl δ) (m : ℕ → Option δ) : Prop where
  ne_nil : ws ≠ []
  strides : t.strides = stridesOf ws
  sum : ws.sum = t.indexLen
  shaped : Shaped ws t.data
  counted : count ws t.data = t.allocated
  shown : ∀ i, (view ws t.data i).toOption = m (i % 2 ^ t.indexLen)

theorem vrItableCreate_files (h : vrItableCreate build indexLen widths = some t) :
    Files widths t (fun _ => none) ∧ t.indexLen = indexLen ∧ t.data = .null := by
  unfold vrItableCreate at h
  split_ifs at h with hlen hcnt
  obtain ⟨strides, hstrides, rfl⟩ := Option.map_eq_some_iff.1 h
  obtain ⟨hsum, rfl⟩ := createStrides_eq hstrides
  refine ⟨⟨?_, rfl, by simpa using hsum, .null, count_null, fun i => by rw [view_null]; rfl⟩, rfl, rfl⟩
  rintro rfl
  exact hcnt (by decide)

theorem Files.get (h : Files ws t m) (i : ℕ) : vrItableGet t i = m (i % 2 ^ t.indexLen) := by
  rw [← h.shown i]
  unfold vrItableGet view
  rw [h.strides]

theorem Files.of_view {d : Ptr δ} {a : ℕ} {m' : ℕ → Option δ} (h : Files ws t m)
    (hshaped : Shaped ws d) (hcount : count ws d = a)
    (hview : ∀ i, (view ws d i).toOption = m' (i % 2 ^ t.indexLen)) :
    Files ws { t with data := d, allocated := a } m' :=
  ⟨h.ne_nil, h.strides, h.sum, hshaped, hcount, hview⟩

/-- Filing an element in the strides files it in the map. -/
theorem Files.filed_shown (h : Files ws t m) (e : Option δ) (i : ℕ) :
    (filed (view ws t.data) ws.sum index (.ofOption e) i).toOption =
      update m (index % 2 ^ t.indexLen) e (i % 2 ^ t.indexLen) := by
  unfold filed
  rw [h.sum]
  by_cases hi : i % 2 ^ t.indexLen = index % 2 ^ t.indexLen
  · rw [if_pos hi, hi, update_self]
    cases e <;> rfl
  · rw [if_neg hi, update_of_ne hi]
    exact h.shown i

theorem shaped_ofOption (e : Option δ) : Shaped [] (.ofOption e : Ptr δ) := by
  cases e <;> trivial

theorem vrItableSet_indexLen (t : VrItbl δ) (i : ℕ) (e : Option δ) (allocs : List Bool) :
    (vrItableSet t i e allocs).2.indexLen = t.indexLen := by
  unfold vrItableSet
  split
  · rfl
  · split_ifs <;> rfl

/-- The table after `vr_itable_set` went down from `slots`, which show what the table shows. -/
theorem Files.of_sets {r : SetResult δ} (h : Files ws t m)
    (hview : view ws (.stride slots) = view ws t.data)
    (hcount : count ws (.stride slots) + r.allocs = t.allocated + n)
    (hs : Sets ws index (.ofOption e) slots r) :
    (r.ret.map Ptr.toOption = none ∧
        Files ws { t with data := .stride r.slots, allocated := t.allocated + n } m) ∨
      (r.ret.map Ptr.toOption = some (m (index % 2 ^ t.indexLen)) ∧
        Files ws { t with data := .stride r.slots, allocated := t.allocated + n }
          (update m (index % 2 ^ t.indexLen) e)) := by
  have hcounted := hs.counted.trans hcount
  obtain ⟨hret, hv⟩ | ⟨hret, hv⟩ := hs.effect
  · exact .inl ⟨by rw [hret]; rfl, h.of_view hs.shaped hcounted fun i => by
      rw [hv, hview, h.shown]⟩
  · refine .inr ⟨?_, h.of_view hs.shaped hcounted fun i => by
      rw [hv, hview, h.filed_shown]⟩
    rw [hret, Option.map_some, hview, h.shown]

theorem Files.sets (h : Files ws t m) (i : ℕ) (e : Option δ) (allocs : List Bool)
    (hs : Shaped ws (.stride slots)) :
    Sets ws i (.ofOption e) slots (setFrom i (.ofOption e) t.strides allocs slots) := by
  rw [h.strides]
  exact setFrom_sets (shaped_ofOption e) allocs hs

/-- **Setting**: the call fails and the map stays, or it returns the old element and files the new
one. -/
theorem Files.set (h : Files ws t m) (i : ℕ) (e : Option δ) (allocs : List Bool) :
    ((vrItableSet t i e allocs).1 = none ∧ Files ws (vrItableSet t i e allocs).2 m) ∨
      ((vrItableSet t i e allocs).1 = some (m (i % 2 ^ t.indexLen)) ∧
        Files ws (vrItableSet t i e allocs).2
          (update m (i % 2 ^ t.indexLen) e)) := by
  obtain ⟨w, rest, rfl⟩ := List.exists_cons_of_ne_nil h.ne_nil
  have hshaped := h.shaped
  have hcount := h.counted
  unfold vrItableSet
  obtain hnull | ⟨slots, hslots⟩ := hshaped.stride_cases
  · rw [hnull, count_null] at hcount
    simp only [hnull, Nat.add_assoc]
    split_ifs
    · refine h.of_sets (by rw [view_zeroStride, hnull]) ?_ (h.sets i e allocs.tail .zeroStride)
      rw [count_zeroStride]
      omega
    · exact .inl ⟨rfl, h⟩
  · rw [hslots] at hcount hshaped
    simp only [hslots]
    exact h.of_sets (by rw [hslots]) (by rw [hcount]) (h.sets i e allocs hshaped)

section

variable (h : Files ws t m)
include h

/-- **Deleting**: the element that was filed is returned. -/
theorem Files.del (i : ℕ) :
    (vrItableDel t i).1 = m (i % 2 ^ t.indexLen) ∧
      Files ws (vrItableDel t i).2 (update m (i % 2 ^ t.indexLen) none) := by
  have hd : Deletes ws i t.data _ := delFrom_deletes h.ne_nil h.shaped
  have hcount := hd.counted
  rw [← h.strides] at hd hcount
  rw [h.counted] at hcount
  refine ⟨?_, h.of_view hd.shaped ?_ fun j => ?_⟩
  · rw [← h.shown, ← hd.old]
    rfl
  · omega
  · rw [hd.effect]
    exact h.filed_shown none j

/-- **Traversing**: the callback visits the elements that are not below the marker. -/
theorem Files.trav (func : ℕ → δ → σ → ℤ × σ) (marker : ℕ) (u : σ) :
    Follows (vrItableTrav t func marker u)
      (visitUntil (fun x u => func x.1 x.2 u) (occupied m marker 0 (2 ^ t.indexLen)) u) := by
  have hdump : Follows (dumpFrom func marker _ t.data _ u) _ :=
    dumpFrom_follows 0 u h.ne_nil h.shaped
  have hsame : occupied (fun k => (view ws t.data k).toOption) marker 0 (2 ^ ws.sum) =
      occupied m marker 0 (2 ^ t.indexLen) := by
    unfold occupied
    rw [h.sum]
    refine List.filterMap_congr fun k hk => ?_
    simp only [elementAt, h.shown, Nat.mod_eq_of_lt (List.mem_range.1 hk)]
  rw [Nat.zero_mul, hsame, ← h.strides] at hdump
  exact hdump

/-! ### Runs -/

/-- A call that changes a table. -/
inductive Op (δ : Type)
  | set (index : ℕ) (data : Option δ) (allocs : List Bool)
  | del (index : ℕ)

/-- The table after a call. -/
def stepTable (t : VrItbl δ) : Op δ → VrItbl δ
  | .set i e allocs => (vrItableSet t i e allocs).2
  | .del i => (vrItableDel t i).2

/-- The map after a call: an element that was filed successfully is the last one of its index. -/
def stepMap (t : VrItbl δ) (m : ℕ → Option δ) : Op δ → ℕ → Option δ
  | .set i e allocs =>
    if (vrItableSet t i e allocs).1.isNone then m
    else Function.update m (i % 2 ^ t.indexLen) e
  | .del i => Function.update m (i % 2 ^ t.indexLen) none

/-- The table and the map after a list of calls. -/
def runFrom : List (Op δ) → VrItbl δ × (ℕ → Option δ) → VrItbl δ × (ℕ → Option δ)
  | [], s => s
  | op :: ops, s => runFrom ops (stepTable s.1 op, stepMap s.1 s.2 op)

/-- The run from a table in which nothing was filed yet. -/
def run (t : VrItbl δ) (ops : List (Op δ)) : VrItbl δ × (ℕ → Option δ) :=
  runFrom ops (t, fun _ => none)

/-- A call that leaves no empty stride: no null pointer is filed, and no allocation fails after one
that succeeded. -/
def Op.Clean : Op δ → Prop
  | .set _ e allocs => e ≠ none ∧ Whole allocs
  | .del _ => True

theorem stepTable_files (op : Op δ) : Files ws (stepTable t op) (stepMap t m op) := by
  cases op with
  | set i e allocs =>
    obtain ⟨hret, hfiles⟩ | ⟨hret, hfiles⟩ := h.set i e allocs
    · simpa [stepTable, stepMap, hret] using hfiles
    · simpa [stepTable, stepMap, hret] using hfiles
  | del i => exact (h.del i).2

end

theorem stepTable_indexLen (t : VrItbl δ) (op : Op δ) : (stepTable t op).indexLen = t.indexLen := by
  cases op with
  | set i e allocs => exact vrItableSet_indexLen t i e allocs
  | del i => rfl

theorem stepTable_full (h : Files ws t m) (hfull : Full ws t.data) {op : Op δ} (hop : op.Clean) :
    Full ws (stepTable t op).data := by
  cases op with
  | set i e allocs =>
    obtain ⟨he, hallocs⟩ := hop
    obtain ⟨w, rest, rfl⟩ := List.exists_cons_of_ne_nil h.ne_nil
    have hne : (Ptr.ofOption e : Ptr δ) ≠ .null := by
      cases e with
      | none => exact absurd rfl he
      | some d => nofun
    have hshaped := h.shaped
    simp only [stepTable, vrItableSet, h.strides]
    obtain hnull | ⟨slots, hslots⟩ := hshaped.stride_cases
    · rw [hnull]
      simp only
      split_ifs with hok
      · obtain ⟨htail, hoks⟩ := zallocOk_tail hallocs hok
        obtain ⟨-, hfail⟩ | hnew := setFrom_full hne Shaped.zeroStride htail fun _ => .null
        · rw [hfail] at hoks
          cases hoks
        · exact hnew
      · rw [hnull]
        exact .null
    · rw [hslots] at hshaped hfull
      rw [hslots]
      obtain ⟨hsame, -⟩ | hnew := setFrom_full hne hshaped hallocs hfull.2
      · dsimp only
        rw [hsame]
        exact hfull
      · exact hnew
  | del i =>
    simp only [stepTable, vrItableDel, h.strides]
    exact delFrom_full hfull

theorem runFrom_files : ∀ (ops : List (Op δ)) {t : VrItbl δ} {m : ℕ → Option δ}, Files ws t m →
    Files ws (runFrom ops (t, m)).1 (runFrom ops (t, m)).2 ∧ (runFrom ops (t, m)).1.indexLen = t.indexLen
  | [], _, _, h => ⟨h, rfl⟩
  | op :: ops, t, m, h => by
    obtain ⟨hfiles, hlen⟩ := runFrom_files ops (stepTable_files h op)
    exact ⟨hfiles, hlen.trans (stepTable_indexLen t op)⟩

theorem runFrom_full : ∀ (ops : List (Op δ)) {t : VrItbl δ} {m : ℕ → Option δ}, Files ws t m →
    Full ws t.data → (∀ op ∈ ops, op.Clean) → Full ws (runFrom ops (t, m)).1.data
  | [], _, _, _, hfull, _ => hfull
  | op :: ops, _, _, h, hfull, hclean =>
    runFrom_full ops (stepTable_files h op) (stepTable_full h hfull (hclean op List.mem_cons_self))
      fun o ho => hclean o (List.mem_cons_of_mem _ ho)

/-- **The index table is a finite map.**  After any calls, with any allocations failing, a lookup
returns the element last filed at an index and not deleted; filing returns the element before, or it
fails and shows the same elements; deleting returns the element; a traversal visits the elements not
below the marker in ascending order until the callback returns a number that is not positive.  If no
call filed a null pointer or failed after an allocation of its own, then no stride is left once all
elements are deleted. -/
theorem itable_refines_map (hcreate : vrItableCreate build indexLen widths = some t)
    (ops : List (Op δ)) :
    (∀ i < 2 ^ indexLen, vrItableGet (run t ops).1 i = (run t ops).2 i) ∧
    (∀ i < 2 ^ indexLen, ∀ e allocs,
      (vrItableSet (run t ops).1 i e allocs).1 = some ((run t ops).2 i) ∨
        ((vrItableSet (run t ops).1 i e allocs).1 = none ∧
          ∀ j < 2 ^ indexLen, vrItableGet (vrItableSet (run t ops).1 i e allocs).2 j =
            vrItableGet (run t ops).1 j)) ∧
    (∀ i < 2 ^ indexLen, (vrItableDel (run t ops).1 i).1 = (run t ops).2 i) ∧
    (∀ (func : ℕ → δ → σ → ℤ × σ) (marker : ℕ) (u : σ),
      Follows (vrItableTrav (run t ops).1 func marker u)
        (visitUntil (fun x u => func x.1 x.2 u)
          (occupied (run t ops).2 marker 0 (2 ^ indexLen)) u)) ∧
    ((∀ op ∈ ops, op.Clean) → (∀ i < 2 ^ indexLen, (run t ops).2 i = none) →
      (run t ops).1.allocated = 0) := by
  obtain ⟨hfiles₀, rfl, hnull⟩ := vrItableCreate_files hcreate
  obtain ⟨hfiles, hlen⟩ := runFrom_files ops hfiles₀
  have hfull := runFrom_full ops hfiles₀ (hnull ▸ Full.null)
  unfold run
  generalize runFrom ops (t, fun _ => none) = s at hfiles hlen hfull ⊢
  have hmod : ∀ {i}, i < 2 ^ t.indexLen → i % 2 ^ s.1.indexLen = i := by
    intro i hi
    rw [hlen, Nat.mod_eq_of_lt hi]
  refine ⟨fun i hi => ?_, fun i hi e allocs => ?_, fun i hi => ?_, fun func marker u => ?_,
    fun hclean hnone => ?_⟩
  · rw [hfiles.get, hmod hi]
  · obtain ⟨hret, hsame⟩ | ⟨hret, -⟩ := hfiles.set i e allocs
    · refine .inr ⟨hret, fun j hj => ?_⟩
      rw [hsame.get, hfiles.get, vrItableSet_indexLen]
    · exact .inl (by rw [hret, hmod hi])
  · rw [(hfiles.del i).1, hmod hi]
  · rw [← hlen]
    exact hfiles.trav func marker u
  · -- a stride that is left would have an element beneath it
    have hdata : s.1.data = .null := by
      by_contra hne
      obtain ⟨i, hi, hview⟩ := exists_element hfiles.shaped (hfull hclean) hne
      rw [hfiles.sum, hlen] at hi
      exact hview (by rw [hfiles.shown, hmod hi, hnone i hi])
    rw [← hfiles.counted, hdata, count_null]

/-- A table of indices of four bits, in two strides. -/
def smallTable : VrItbl ℕ := ⟨4, [⟨4, 2⟩, ⟨4, 0⟩], .null, 0⟩

/-- Two elements are filed, a third one is not for want of memory, and the first is deleted. -/
def smallOps : List (Op ℕ) :=
  [.set 5 (some 70) [], .set 6 (some 71) [], .set 9 (some 72) [false], .del 5]

theorem itable_refines_map_small :
    vrItableGet (run smallTable smallOps).1 6 = some 71 ∧
      vrItableGet (run smallTable smallOps).1 9 = none ∧
      (run smallTable (smallOps ++ [.del 6])).1.allocated = 0 := by
  have hcreate : vrItableCreate .kernel 4 [2, 2] = some smallTable := rfl
  have hget := (itable_refines_map (σ := Unit) hcreate smallOps).1
  refine ⟨(hget 6 (by decide)).trans (by decide), (hget 9 (by decide)).trans (by decide), ?_⟩
  refine (itable_refines_map (σ := Unit) hcreate (smallOps ++ [.del 6])).2.2.2.2 ?_ (by decide)
  intro op hop
  simp only [smallOps, List.mem_append, List.mem_cons, List.not_mem_nil, or_false] at hop
  obtain (rfl | rfl | rfl | rfl) | rfl := hop <;> simp [Op.Clean, Whole, zallocOk]

/-- The second allocation of `vr_itable_set` fails: nothing is filed, and the stride that the first
one gave stays for good. -/
theorem itable_leaks :
    (∀ i < 2 ^ 4, (run smallTable [.set 5 (some 70) [true, false], .del 5]).2 i = none) ∧
      (run smallTable [.set 5 (some 70) [true, false], .del 5]).1.allocated = 1 := by
  decide

end Vrouter.Itable
