import Vrouter.Lib.Reach
import Vrouter.Htable.Ops

/-! # The hash table refines a finite map

For its callers the table is an array of slots: a slot is free, or taken for a key that its entry
does not show, or it holds the key.  `clientStep` runs the table and the slots side by side.  A caller
takes an entry for a key and marks it used by writing a payload, which it may write again later, to
show the key or to hide it, and gives the entry up by releasing it.  What a free entry has in its
payload does not matter.  The deletion work and the deferred callbacks that releases leave behind run
at any later time, and change no slot.

In every state reached, `vr_htable_find_hentry` finds the keys that slots hold and no others. -/

namespace Vrouter.Htable

open Vrouter.Lib Function

/-! ### The client -/

/-- A slot, as the callers see it. -/
inductive Slot (κ : Type)
  | free
  | taken (key : κ)
  | held (key : κ)
  deriving DecidableEq, Repr

structure Client (π κ : Type) where
  sys : Sys π
  slots : ℕ → Slot κ

/-- What can happen next: a call of the table, or a pending item that runs.  The calls carry the
outcomes of what they depend on outside the table. -/
inductive ClientOp (π κ : Type)
  | insert (key : κ) (v : π)
  | mark (i : ℕ) (v : π)
  | release (i : ℕ) (v : π) (notReady schedOk : Bool)
  | work (k : ℕ) (notReady : Bool) (allocOk : ℕ → Bool)
  | deferred (i : ℕ)

/-- The key a slot was taken for. -/
def Slot.key {κ : Type} : Slot κ → Option κ
  | .free => none
  | .taken key => some key
  | .held key => some key

variable {π κ : Type} [DecidableEq κ]

/-- The slot of an entry that was taken for a key and has the payload, if it may have it: the entry
shows that key or none. -/
def slotOf (getKey : π → Option κ) (key : κ) (v : π) : Option (Slot κ) :=
  match getKey v with
  | none => some (.taken key)
  | some key' => if key' = key then some (.held key) else none

/-- One step.  A caller takes an entry and marks it, or writes the payload of an entry it has taken
again, or releases an entry, with whatever payload. -/
def clientStep (g : Geometry) (getKey : π → Option κ) (hash : κ → ℕ) (c : Client π κ) :
    ClientOp π κ → Option (Client π κ)
  | .insert key v =>
    match findFreeHentry g c.sys.tbl (hash key) with
    | none => some c
    | some (i, t) => (slotOf getKey key v).map fun sl =>
        ⟨({ c.sys with tbl := t }).setPayload i v, Function.update c.slots i sl⟩
  | .mark i v =>
    match (c.slots i).key with
    | none => none
    | some key => (slotOf getKey key v).map fun sl =>
        ⟨c.sys.setPayload i v, Function.update c.slots i sl⟩
  | .release i v notReady schedOk =>
    if i < g.total then
      some ⟨releaseHentry g notReady schedOk (c.sys.setPayload i v) i,
        Function.update c.slots i .free⟩
    else none
  | .work k notReady allocOk =>
    if k ∈ c.sys.works then
      (scheduledDelete g notReady allocOk { c.sys with works := c.sys.works.erase k } k).map
        fun s => ⟨s, c.slots⟩
    else none
  | .deferred i =>
    if i ∈ c.sys.defers then
      some ⟨deferDelete g { c.sys with defers := c.sys.defers.erase i } i, c.slots⟩
    else none

/-- A new table, in zeroed memory. -/
def Client.create (g : Geometry) (zero : π) : Client π κ :=
  ⟨Htable.create g zero, fun _ => .free⟩

/-! ### The simulation -/

variable {g : Geometry} {getKey : π → Option κ} {hash : κ → ℕ} {c c' : Client π κ}
  {t t' : Table π} {place place' : ℕ → Place} {i : ℕ} {key : κ}

/-- An entry fits a slot: it is valid unless the slot is free, lies in the bucket of the key, and
shows the key if the slot holds it. -/
def SlotOk (g : Geometry) (getKey : π → Option κ) (hash : κ → ℕ) (t : Table π)
    (place : ℕ → Place) (i : ℕ) : Slot κ → Prop
  | .free => (t.fl i).valid = false
  | .taken key => (t.fl i).valid = true ∧ i < g.total ∧ Home g place i (bucketOf g (hash key)) ∧
      getKey (t.hentry i).payload = none
  | .held key => (t.fl i).valid = true ∧ i < g.total ∧ Home g place i (bucketOf g (hash key)) ∧
      getKey (t.hentry i).payload = some key

omit [DecidableEq κ] in
/-- A slot fits on as long as the entry looks the same and a valid entry stays in its place. -/
theorem SlotOk.transfer {sl : Slot κ} (h : SlotOk g getKey hash t place i sl)
    (hv : (t'.fl i).valid = (t.fl i).valid)
    (hp : (t'.hentry i).payload = (t.hentry i).payload)
    (hpl : (t.fl i).valid = true → place' i = place i) : SlotOk g getKey hash t' place' i sl := by
  cases sl with
  | free => exact hv.trans h
  | taken key | held key =>
    obtain ⟨h1, h2, h3, h4⟩ := h
    refine ⟨hv.trans h1, h2, ?_, by rw [hp]; exact h4⟩
    unfold Home at *
    rwa [hpl h1]

omit [DecidableEq κ] in
theorem SlotOk.of_key {sl : Slot κ} (h : SlotOk g getKey hash t place i sl) (hk : sl.key = some key) :
    (t.fl i).valid = true ∧ i < g.total ∧ Home g place i (bucketOf g (hash key)) := by
  cases sl with
  | free => cases hk
  | taken key' | held key' =>
    cases hk
    exact ⟨h.1, h.2.1, h.2.2.1⟩

theorem SlotOk.of_slotOf {sl : Slot κ} {v : π} (h : slotOf getKey key v = some sl)
    (hv : (t.fl i).valid = true) (hi : i < g.total) (hhome : Home g place i (bucketOf g (hash key)))
    (hp : (t.hentry i).payload = v) : SlotOk g getKey hash t place i sl := by
  unfold slotOf at h
  split at h
  · next hnone =>
      cases h
      exact ⟨hv, hi, hhome, by rw [hp]; exact hnone⟩
  · next key' hsome =>
      split_ifs at h with heq
      cases h
      exact ⟨hv, hi, hhome, by rw [hp, hsome, heq]⟩

/-- The table and the slots agree. -/
def Agree (g : Geometry) (getKey : π → Option κ) (hash : κ → ℕ) (c : Client π κ) : Prop :=
  ∃ place, Inv g c.sys place ∧ NoLimbo g place ∧
    ∀ i, SlotOk g getKey hash c.sys.tbl place i (c.slots i)

omit [DecidableEq κ] in
theorem Agree.create (zero : π) : Agree g getKey hash (Client.create g zero) :=
  ⟨fun _ => .free, create_inv g zero, by simp [NoLimbo], fun _ => rfl⟩

omit [DecidableEq κ] in
theorem Agree.moved {lossless : Prop} {s s' : Sys π} {slots : ℕ → Slot κ}
    (hm : Moved g lossless s place s' place') (hl : NoLimbo g place)
    (hs : ∀ i, SlotOk g getKey hash s.tbl place i (slots i)) :
    Agree g getKey hash ⟨s', slots⟩ :=
  ⟨place', hm.inv, fun i hi h => hl i hi (hm.limbo i h),
    fun i => (hs i).transfer (hm.same i).1 (hm.same i).2 (hm.valid i)⟩

theorem clientStep_agree {op : ClientOp π κ} (h : Agree g getKey hash c)
    (hs : clientStep g getKey hash c op = some c') : Agree g getKey hash c' := by
  obtain ⟨place, hinv, hl, hslots⟩ := h
  cases op with
  | insert key v =>
    simp only [clientStep] at hs
    cases hf : findFreeHentry g c.sys.tbl (hash key) with
    | none =>
      rw [hf] at hs
      cases hs
      exact ⟨place, hinv, hl, hslots⟩
    | some r =>
      obtain ⟨i, t⟩ := r
      rw [hf] at hs
      obtain ⟨sl, hsl, rfl⟩ := Option.map_eq_some_iff.mp hs
      obtain ⟨place', hinv', hlt, hhome, htk, hoth, hpl⟩ := hinv.findFree hf
      refine ⟨place', hinv'.setPayload i v, fun j hov hj => ?_, fun j => ?_⟩
      · rcases hpl j with hpl | ⟨k, hpl⟩
        · exact hl j hov (hpl ▸ hj)
        · rw [hpl] at hj; cases hj
      · by_cases hji : j = i
        · subst hji
          simp only [update_self]
          refine .of_slotOf hsl ?_ hlt hhome (by rw [setPayload_same])
          rw [setPayload_fl]
          exact htk.valid
        · simp only [update_of_ne hji]
          refine (hslots j).transfer ?_ ?_ fun _ => hoth j hji
          · rw [setPayload_fl]
            exact htk.others j hji
          · rw [setPayload_ne hji]
            exact htk.payload j
  | mark i v =>
    simp only [clientStep] at hs
    cases hk : (c.slots i).key with
    | none => rw [hk] at hs; cases hs
    | some key =>
      rw [hk] at hs
      obtain ⟨sl, hsl, rfl⟩ := Option.map_eq_some_iff.mp hs
      refine ⟨place, hinv.setPayload i v, hl, fun j => ?_⟩
      by_cases hji : j = i
      · subst hji
        obtain ⟨hvalid, hlt, hhome⟩ := (hslots j).of_key hk
        simp only [update_self]
        exact .of_slotOf hsl (by rw [setPayload_fl]; exact hvalid) hlt hhome (by rw [setPayload_same])
      · simp only [update_of_ne hji]
        exact (hslots j).transfer (by rw [setPayload_fl]) (by rw [setPayload_ne hji])
          fun _ => rfl
  | release i v nr ok =>
    simp only [clientStep] at hs
    split_ifs at hs with hlt
    cases hs
    obtain ⟨hrel, hout, -⟩ := (hinv.setPayload i v).release hl hlt nr ok
    refine ⟨place, hrel, hl, fun j => ?_⟩
    by_cases hji : j = i
    · subst hji
      simp only [update_self]
      exact hout.invalid
    · simp only [update_of_ne hji]
      refine (hslots j).transfer ?_ ?_ fun _ => rfl
      · rw [hout.others j hji, setPayload_fl]
      · rw [hout.payload j, setPayload_ne hji]
  | work k nr allocOk =>
    simp only [clientStep] at hs
    split_ifs at hs with hk
    obtain ⟨s', place', hrun, hm⟩ :=
      (hinv.eraseWork k).scheduledDelete nr allocOk (hinv.works k hk)
    rw [hrun] at hs
    cases hs
    exact Agree.moved hm hl hslots
  | deferred i =>
    simp only [clientStep] at hs
    split_ifs at hs with hi
    cases hs
    exact Agree.moved (hinv.deferDelete hi True) hl hslots

/-! ### The refinement -/

/-- The chain of a bucket, as both links of its entries tell it. -/
def ChainOf (t : Table π) (k : ℕ) (l : List ℕ) : Prop :=
  Linked t.nx (t.nx (headOf k)) l ∧
    ∀ j ∈ headOf k :: l, (t.hentry j).hentryNextIndex = nextIndexOf (t.nx j)

theorem Agree.held_iff (h : Agree g getKey hash c) (i : ℕ) (key : κ) :
    c.slots i = .held key ↔ Live g getKey c.sys.tbl i key := by
  obtain ⟨place, _, _, hslots⟩ := h
  have hs := hslots i
  unfold Live holdsKey
  rw [Bool.and_eq_true, decide_eq_true_eq]
  cases hsl : c.slots i with
  | free =>
    rw [hsl] at hs
    have hinvalid : (c.sys.tbl.hentry i).hentryFlags.valid = false := hs
    simp [hinvalid]
  | taken key' => rw [hsl] at hs; simp [hs.2.2.2]
  | held key' =>
    rw [hsl] at hs
    obtain ⟨h1, h2, _, h4⟩ := hs
    rw [Table.fl] at h1
    simp [h1, h2, h4]

theorem Agree.find (h : Agree g getKey hash c) (key : κ) :
    ∃ r, findHentry g getKey hash c.sys.tbl key = some r ∧
      (∀ i, r = some i → c.slots i = .held key) ∧ (r = none → ∀ i, c.slots i ≠ .held key) := by
  have hheld := h.held_iff
  obtain ⟨place, hinv, _, hslots⟩ := h
  obtain ⟨r, hr, hsome, hnone⟩ := hinv.find getKey hash key
    fun i hi => by
      have hs := hslots i
      rw [(hheld i key).mpr hi] at hs
      exact hs.2.2.1
  exact ⟨r, hr, fun i hi => (hheld i key).mpr (hsome i hi),
    fun hn i hi => hnone hn i ((hheld i key).mp hi)⟩

omit [DecidableEq κ] in
theorem Agree.chain (h : Agree g getKey hash c) (hi : g.Overflow i)
    (hk : (c.slots i).key = some key) :
    ∃ l, ChainOf c.sys.tbl (bucketOf g (hash key)) l ∧ i ∈ l := by
  obtain ⟨place, hinv, _, hslots⟩ := h
  have hs := hslots i
  have hhome := (hs.of_key hk).2.2
  have hb := bucketOf_lt g (hash key)
  obtain ⟨l, hl, hm⟩ := hinv.lists.chain _ hb
  refine ⟨l, ⟨hl, fun j hj => hinv.mirror j ?_⟩, (hm i).mpr ?_⟩
  · rcases List.mem_cons.mp hj with rfl | hj
    · exact Or.inl ⟨_, hb, rfl⟩
    · exact Or.inr ⟨((hm j).mp hj).1, _, ((hm j).mp hj).2⟩
  · rcases hhome with ⟨hlt, _⟩ | hc
    · exact absurd hi.1 (Nat.not_le.mpr hlt)
    · exact hc

theorem Agree.work_isSome (h : Agree g getKey hash c) {k : ℕ} (hk : k ∈ c.sys.works) (nr : Bool)
    (allocOk : ℕ → Bool) : (clientStep g getKey hash c (.work k nr allocOk)).isSome := by
  obtain ⟨place, hinv, _, _⟩ := h
  obtain ⟨s', _, hrun, _⟩ := (hinv.eraseWork k).scheduledDelete nr allocOk (hinv.works k hk)
  simp only [clientStep, if_pos hk, hrun, Option.map_some, Option.isSome_some]

/-- **The hash table refines a map.**  In every state that a run of calls and pending items
reaches, the live entries with a key are the slots that hold it; a search for the key ends and
returns one of them if there is one, and else nothing; a taken overflow entry is in the chain of
its key's bucket; and every pending deletion work can run to its end. -/
theorem findHentry_refines (g : Geometry) (getKey : π → Option κ) (hash : κ → ℕ) (zero : π)
    (h : Reach (clientStep g getKey hash) (fun _ _ => True) (Client.create g zero) c) (key : κ) :
    (∀ i, c.slots i = .held key ↔ Live g getKey c.sys.tbl i key) ∧
    ((∃ i, c.slots i = .held key) → ∃ i, findHentry g getKey hash c.sys.tbl key = some (some i) ∧
      c.slots i = .held key) ∧
    ((∀ i, c.slots i ≠ .held key) → findHentry g getKey hash c.sys.tbl key = some none) ∧
    (∀ i, g.Overflow i → (c.slots i).key = some key →
      ∃ l, ChainOf c.sys.tbl (bucketOf g (hash key)) l ∧ i ∈ l) ∧
    (∀ k ∈ c.sys.works, ∀ nr allocOk,
      (clientStep g getKey hash c (.work k nr allocOk)).isSome) := by
  have hagree : Agree g getKey hash c :=
    h.invariant (Agree.create zero) fun _ _ _ hi _ hs => clientStep_agree hi hs
  obtain ⟨r, hr, hsome, hnone⟩ := hagree.find key
  refine ⟨fun i => hagree.held_iff i key, ?_, ?_, fun i hi hk => hagree.chain hi hk,
    fun k hk nr allocOk => hagree.work_isSome hk nr allocOk⟩
  · rintro ⟨i, hi⟩
    cases r with
    | none => exact absurd hi (hnone rfl i)
    | some j => exact ⟨j, hr, hsome j rfl⟩
  · intro hno
    cases r with
    | none => exact hr
    | some j => exact absurd (hsome j rfl) (hno j)

/-- A table of one bucket and two overflow entries. -/
def smallGeometry : Geometry := ⟨1, 2, Nat.one_pos, by decide⟩

/-- Six keys fill the table; the last but one is released, its entry unlinked from behind the
last one and returned. -/
def smallRun : List (ClientOp (Option ℕ) ℕ) :=
  (List.range 6).map (fun i => .insert (10 + i) (some (10 + i))) ++
    [.release 4 (some 14) false true, .work 0 false fun _ => true, .deferred 4]

theorem findHentry_refines_smallRun :
    ∃ c : Client (Option ℕ) ℕ,
      runWhen (clientStep smallGeometry id id) (fun _ _ => True) smallRun
        (Client.create smallGeometry none) = some c ∧ c.slots 5 = .held 15 ∧
      ∃ i, findHentry smallGeometry id id c.sys.tbl 15 = some (some i) ∧ c.slots i = .held 15 := by
  have hheld : (runWhen (clientStep smallGeometry id id) (fun _ _ => True) smallRun
      (Client.create smallGeometry none)).map (fun c => c.slots 5) = some (.held 15) := by
    decide +kernel
  obtain ⟨c, hc, h5⟩ := Option.map_eq_some_iff.mp hheld
  have h := findHentry_refines smallGeometry id id none (Reach.of_runWhen .init hc) 15
  exact ⟨c, hc, h5, h.2.1 ⟨5, h5⟩⟩

end Vrouter.Htable
