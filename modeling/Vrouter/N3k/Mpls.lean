import Mathlib.Data.Int.Notation
import Mathlib.Data.List.Nodup
import Mathlib.Logic.Function.Basic

/-! # Labels and nexthops

A translation of `vr_dpdk_n3k_mpls.c`, whose two arrays describe one relation: `label_to_nh` holds for
each label its nexthop, and `nh_to_labels` links the entries of a nexthop and counts them.  They agree
after every sequence of additions and deletions (`labels_twoWay`). -/

namespace Vrouter.N3k.Mpls

def n3kOffloadMplsLabelCount : ℕ := 1048576
/-- `UINT32_MAX` -/
def emptyLabel : ℕ := 4294967295

inductive Errno
  | einval | enoent | enotsup
deriving DecidableEq

/-- `struct vr_n3k_offload_mpls` -/
structure OffloadMpls where
  label : ℕ
  nexthopId : ℕ
deriving DecidableEq

/-- `struct vr_n3k_nh_to_labels`, with an entry given by its index in `label_to_nh`. -/
structure NhToLabels where
  list : List ℕ
  count : ℕ

structure Labels where
  nexthopsCount : ℕ
  labelToNh : ℕ → OffloadMpls
  nhToLabels : ℕ → NhToLabels

/-- What the functions read of a nexthop. -/
structure Nexthop where
  nhId : ℕ
  nhRid : ℕ

/-- `vr_dpdk_n3k_offload_mpls_init` -/
def mplsInit (nhCount : ℕ) : Labels :=
  ⟨nhCount, fun _ => ⟨emptyLabel, emptyLabel⟩, fun _ => ⟨[], 0⟩⟩

/-- `vr_dpdk_n3k_offload_mpls_insert` -/
def mplsInsert (t : Labels) (mpls : OffloadMpls) : Labels :=
  let labels := t.nhToLabels mpls.nexthopId
  { t with
    labelToNh := Function.update t.labelToNh mpls.label mpls
    nhToLabels := Function.update t.nhToLabels mpls.nexthopId
      ⟨mpls.label :: labels.list, labels.count + 1⟩ }

/-- `vr_dpdk_n3k_offload_mpls_remove_mapping` -/
def mplsRemoveMapping (t : Labels) (label : ℕ) : Labels :=
  let entry := t.labelToNh label
  if entry.label = emptyLabel then t
  else
    let labels := t.nhToLabels entry.nexthopId
    { t with
      labelToNh := Function.update t.labelToNh label { entry with label := emptyLabel }
      nhToLabels := Function.update t.nhToLabels entry.nexthopId
        ⟨labels.list.erase label, labels.count - 1⟩ }

/-- `vr_dpdk_n3k_offload_mpls_get_by_label` -/
def mplsGetByLabel (t : Labels) (label : ℕ) : Except Errno OffloadMpls :=
  if label ≥ n3kOffloadMplsLabelCount then .error .einval
  else if (t.labelToNh label).label = emptyLabel then .error .enoent
  else .ok (t.labelToNh label)

/-- `vr_dpdk_n3k_offload_mpls_get_by_nh` -/
def mplsGetByNh (t : Labels) (nhId : ℕ) : Except Errno OffloadMpls :=
  if nhId ≥ t.nexthopsCount then .error .einval
  else if (t.nhToLabels nhId).count = 0 then .error .enoent
  else if (t.nhToLabels nhId).count ≠ 1 then .error .enotsup
  else .ok (t.labelToNh ((t.nhToLabels nhId).list.headD 0))

/-- `vr_dpdk_n3k_offload_mpls_add` -/
def mplsAdd (t : Labels) (nh : Option Nexthop) (label : ℤ) : Except Errno Labels :=
  match nh with
  | none => .error .einval
  | some nh =>
    if nh.nhId ≥ t.nexthopsCount then .error .einval
    else if nh.nhRid ≠ 0 then .error .einval
    else if label < 0 ∨ label ≥ n3kOffloadMplsLabelCount then .error .einval
    else .ok (mplsInsert (mplsRemoveMapping t label.toNat) ⟨label.toNat, nh.nhId⟩)

/-- `vr_dpdk_n3k_offload_mpls_del` -/
def mplsDel (t : Labels) (label : ℤ) : Except Errno Labels :=
  if label < 0 ∨ label ≥ n3kOffloadMplsLabelCount then .error .einval
  else .ok (mplsRemoveMapping t label.toNat)

inductive Event
  | add (nh : Option Nexthop) (label : ℤ)
  | del (label : ℤ)

/-- A request that is refused changes nothing. -/
def step (t : Labels) : Event → Labels
  | .add nh label => (mplsAdd t nh label).toOption.getD t
  | .del label => (mplsDel t label).toOption.getD t

/-- What the comment over the two arrays asks for, and that the lists have no label twice. -/
structure Inv (t : Labels) : Prop where
  entry : ∀ l < n3kOffloadMplsLabelCount,
    (t.labelToNh l).label = l ∨ (t.labelToNh l).label = emptyLabel
  mem : ∀ nh l, l ∈ (t.nhToLabels nh).list ↔
    l < n3kOffloadMplsLabelCount ∧ t.labelToNh l = ⟨l, nh⟩
  nodup : ∀ nh, (t.nhToLabels nh).list.Nodup
  count : ∀ nh, (t.nhToLabels nh).count = (t.nhToLabels nh).list.length
  bound : ∀ nh, (t.nhToLabels nh).list ≠ [] → nh < t.nexthopsCount

variable {t : Labels} {label nh : ℕ}

theorem ne_emptyLabel (h : label < n3kOffloadMplsLabelCount) : label ≠ emptyLabel := by
  simp only [n3kOffloadMplsLabelCount, emptyLabel] at *
  omega

/-- A new entry for one label, and a new list for the one nexthop that may hold it. -/
theorem Inv.relink (h : Inv t) (hl : label < n3kOffloadMplsLabelCount) (hnh : nh < t.nexthopsCount)
    {e : OffloadMpls} {new : NhToLabels} (he : e.label = emptyLabel ∨ e = ⟨label, nh⟩)
    (hother : ∀ nh', nh' ≠ nh → label ∉ (t.nhToLabels nh').list)
    (hmem : ∀ l, l ∈ new.list ↔
      if l = label then e = ⟨label, nh⟩ else l ∈ (t.nhToLabels nh).list)
    (hnodup : new.list.Nodup) (hcount : new.count = new.list.length) :
    Inv { t with labelToNh := Function.update t.labelToNh label e
                 nhToLabels := Function.update t.nhToLabels nh new } where
  entry l hl' := by
    by_cases hll : l = label
    · subst hll
      obtain he | rfl := he <;> simp [*]
    · simpa [hll] using h.entry l hl'
  mem nh' l := by
    by_cases hnn : nh' = nh <;> by_cases hll : l = label
    · simp [hnn, hll, hmem, hl]
    · simp [hnn, hll, hmem, h.mem]
    · subst hll
      have hne : e ≠ ⟨l, nh'⟩ := by
        rintro rfl
        exact he.elim (ne_emptyLabel hl) fun heq => hnn (congrArg OffloadMpls.nexthopId heq)
      simp [hnn, hother nh' hnn, hne]
    · simp [hnn, hll, h.mem]
  nodup nh' := by by_cases hnn : nh' = nh <;> simp [hnn, h.nodup, hnodup]
  count nh' := by by_cases hnn : nh' = nh <;> simp [hnn, h.count, hcount]
  bound nh' := by
    by_cases hnn : nh' = nh
    · exact fun _ => hnn ▸ hnh
    · simpa [hnn] using h.bound nh'

theorem Inv.alone (h : Inv t) (hmem : label ∈ (t.nhToLabels nh).list) {nh' : ℕ} (hne : nh' ≠ nh) :
    label ∉ (t.nhToLabels nh').list := fun hmem' =>
  hne (congrArg OffloadMpls.nexthopId (((h.mem nh' label).mp hmem').2.symm.trans
    ((h.mem nh label).mp hmem).2))

theorem Inv.removeMapping (h : Inv t) (hl : label < n3kOffloadMplsLabelCount) :
    Inv (mplsRemoveMapping t label) := by
  unfold mplsRemoveMapping
  dsimp only
  split_ifs with he
  · exact h
  · have hent : t.labelToNh label = ⟨label, (t.labelToNh label).nexthopId⟩ :=
      congrArg (OffloadMpls.mk · _) ((h.entry label hl).resolve_right he)
    generalize (t.labelToNh label).nexthopId = nh at hent ⊢
    have hmem : label ∈ (t.nhToLabels nh).list := (h.mem nh label).mpr ⟨hl, hent⟩
    refine h.relink hl (h.bound nh (List.ne_nil_of_mem hmem)) (.inl rfl) (fun _ => h.alone hmem)
      (fun l => ?_) ((h.nodup nh).erase _) ?_
    · rw [(h.nodup nh).mem_erase_iff]
      split_ifs with hll <;> simp [hll, (ne_emptyLabel hl).symm]
    · rw [h.count, List.length_erase_of_mem hmem]

theorem mplsRemoveMapping_empty (t : Labels) (label : ℕ) :
    ((mplsRemoveMapping t label).labelToNh label).label = emptyLabel ∧
    (mplsRemoveMapping t label).nexthopsCount = t.nexthopsCount := by
  unfold mplsRemoveMapping
  dsimp only
  split_ifs with he
  · exact ⟨he, rfl⟩
  · simp

theorem Inv.insert (h : Inv t) (hl : label < n3kOffloadMplsLabelCount)
    (he : (t.labelToNh label).label = emptyLabel) (hnh : nh < t.nexthopsCount) :
    Inv (mplsInsert t ⟨label, nh⟩) := by
  have hnew (nh' : ℕ) : label ∉ (t.nhToLabels nh').list := fun hmem => by
    rw [((h.mem nh' label).mp hmem).2] at he
    exact ne_emptyLabel hl he
  refine h.relink hl hnh (.inr rfl) (fun nh' _ => hnew nh') (fun l => ?_)
    (List.nodup_cons.mpr ⟨hnew nh, h.nodup nh⟩) (congrArg (· + 1) (h.count nh))
  split_ifs with hll <;> simp [hll]

theorem Inv.step (h : Inv t) (ev : Event) : Inv (step t ev) := by
  cases ev with
  | add nh label =>
    simp only [Mpls.step, mplsAdd]
    split
    · exact h
    · split_ifs with hnh _ hl
      · exact h
      · exact h
      · exact h
      · have hl' : label.toNat < n3kOffloadMplsLabelCount := by omega
        obtain ⟨he, hcount⟩ := mplsRemoveMapping_empty t label.toNat
        exact (h.removeMapping hl').insert hl' he (hcount ▸ Nat.lt_of_not_le hnh)
  | del label =>
    simp only [Mpls.step, mplsDel]
    split_ifs with hl
    · exact h
    · exact h.removeMapping (by omega)

theorem Inv.init (nhCount : ℕ) : Inv (mplsInit nhCount) where
  entry _ _ := .inr rfl
  mem nh l := by
    refine ⟨nofun, fun ⟨hl, he⟩ => absurd (congrArg OffloadMpls.label he).symm (ne_emptyLabel hl)⟩
  nodup _ := List.nodup_nil
  count _ := rfl
  bound _ hne := absurd rfl hne

/-- **The two arrays describe one relation.** -/
theorem labels_twoWay (nhCount : ℕ) (evs : List Event) :
    let t := evs.foldl step (mplsInit nhCount)
    (∀ label out, mplsGetByLabel t label = .ok out ↔
      out.label = label ∧ label ∈ (t.nhToLabels out.nexthopId).list) ∧
    (∀ nh, (t.nhToLabels nh).list.Nodup ∧
      (t.nhToLabels nh).count = (t.nhToLabels nh).list.length) ∧
    ∀ nh out, mplsGetByNh t nh = .ok out ↔
      out.nexthopId = nh ∧ (t.nhToLabels nh).list = [out.label] := by
  intro t
  have h : Inv t := List.foldlRecOn evs step (Inv.init nhCount) fun _ h ev _ => h.step ev
  refine ⟨fun label out => ?_, fun nh => ⟨h.nodup nh, h.count nh⟩, fun nh out => ?_⟩
  · unfold mplsGetByLabel
    rw [h.mem]
    split_ifs with hl he
    · exact ⟨nofun, fun ⟨_, hlt, _⟩ => absurd hlt (Nat.not_lt_of_le hl)⟩
    · refine ⟨nofun, fun ⟨_, hl, hent⟩ => ?_⟩
      rw [hent] at he
      exact absurd he (ne_emptyLabel hl)
    · have hlt := Nat.lt_of_not_le hl
      have hent := (h.entry label hlt).resolve_right he
      constructor
      · rintro ⟨rfl⟩
        exact ⟨hent, hlt, congrArg (OffloadMpls.mk · _) hent⟩
      · rintro ⟨rfl, -, heq⟩
        rw [heq]
  · unfold mplsGetByNh
    rw [h.count]
    split_ifs with hnh h0 h1
    · refine ⟨nofun, fun ⟨_, hlist⟩ => absurd (h.bound nh ?_) (Nat.not_lt_of_le hnh)⟩
      simp [hlist]
    · exact ⟨nofun, fun ⟨_, hlist⟩ => by simp [hlist] at h0⟩
    · exact ⟨nofun, fun ⟨_, hlist⟩ => by simp [hlist] at h1⟩
    · obtain ⟨l, hlist⟩ := List.length_eq_one_iff.mp (not_not.mp h1)
      have hent := ((h.mem nh l).mp (by simp [hlist])).2
      simp only [hlist, List.headD_cons, hent, Except.ok.injEq, List.cons.injEq, and_true]
      constructor
      · rintro rfl
        exact ⟨rfl, rfl⟩
      · rintro ⟨rfl, rfl⟩
        rfl

end Vrouter.N3k.Mpls
