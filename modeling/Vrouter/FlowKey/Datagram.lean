import Vrouter.FlowKey.Fragments

/-! # The bytes of a datagram

An entry of the fragment table counts the bytes of the fragments whose key is formed, and the last
fragment tells how many there are.  If the key of each fragment is formed once, the entry is deleted
by the fragment that completes the datagram, in whatever order they come (`entry_until_complete`).
The count is a side effect of forming the key, though, and a packet that comes to several composite
nexthops has its key formed at each: such a fragment counts more than once, and the entry goes while
others are still to come (`countedTwice_deleted`). -/

namespace Vrouter.FlowKey

open Vrouter.Lib Vrouter.Packet

/-- Fragments that cut a datagram of `n` bytes from the byte `i` on: none is empty, each begins where
the one before it ends, and only the last has none behind it. -/
def CutFrom (v : Version) (n : ℕ) : ℤ → List (List Byte) → Prop
  | i, [] => i = n
  | i, f :: fs => offset v f = i ∧ 0 < payload v f ∧ (fragmentTail v f = true ↔ fs = []) ∧
      CutFrom v n (i + payload v f) fs

/-- A datagram of `n` bytes: the first fragment, and the others. -/
structure Datagram (v : Version) (n : ℕ) (head : List Byte) (rest : List (List Byte)) : Prop where
  size : n < 2 ^ 16
  first : fragmentHead v head = true ∧ 0 < payload v head
  others : rest ≠ [] ∧ ∀ f ∈ rest, LaterFragment v head f
  cut : CutFrom v n (payload v head) rest

/-- The keys of fragments are formed, one after the other; before each, anything may happen to other
entries. -/
inductive Arrivals (v : Version) (vrf custom : ℕ) (key : FragmentKey) :
    FragmentTable → List (List Byte) → FragmentTable → Prop
  | nil {tbl : FragmentTable} : Arrivals v vrf custom key tbl [] tbl
  | cons {tbl tbl₁ tbl' : FragmentTable} {f : List Byte} {fs : List (List Byte)} (pkt : PktMd)
      (p : FkeyParams) : tbl₁ key = tbl key →
      Arrivals v vrf custom key (formFlow v tbl₁ vrf pkt f p custom).2 fs tbl' →
      Arrivals v vrf custom key tbl (f :: fs) tbl'

variable {v : Version} {n vrf custom k sport dport : ℕ} {head f : List Byte}
  {fs rest arr : List (List Byte)} {tbl tbl₀ tbl' : FragmentTable} {key : FragmentKey}
  {frag : VrFragment}

theorem CutFrom.ends : ∀ {i : ℤ} {fs : List (List Byte)}, CutFrom v n i fs →
    i + (fs.map (payload v)).sum = n ∧ (fs ≠ [] → ∃ f ∈ fs, fragmentTail v f = true) ∧
      ∀ f ∈ fs, 0 < payload v f ∧ (fragmentTail v f = true → offset v f + payload v f = n)
  | _, [], h => ⟨(add_zero _).trans h, (absurd rfl ·), nofun⟩
  | i, f :: fs, ⟨hoff, hpos, htail, hcut⟩ => by
    obtain ⟨hsum, hlast, heach⟩ := hcut.ends
    refine ⟨?_, fun _ => ?_, List.forall_mem_cons.mpr ⟨⟨hpos, fun ht => ?_⟩, heach⟩⟩
    · rw [List.map_cons, List.sum_cons, ← add_assoc]
      exact hsum
    · by_cases hnil : fs = []
      · exact ⟨f, List.mem_cons_self, htail.mpr hnil⟩
      · obtain ⟨f', hf', ht⟩ := hlast hnil
        exact ⟨f', List.mem_cons_of_mem f hf', ht⟩
    · obtain rfl := htail.mp ht
      rw [hoff]
      exact hcut

theorem length_le_payloads : ∀ {fs : List (List Byte)}, (∀ f ∈ fs, 0 < payload v f) →
    (fs.length : ℤ) ≤ (fs.map (payload v)).sum
  | [], _ => le_rfl
  | f :: fs, h => by
    obtain ⟨hf, hfs⟩ := List.forall_mem_cons.mp h
    have hle := length_le_payloads hfs
    rw [List.length_cons, List.map_cons, List.sum_cons]
    omega

/-- What an entry of a datagram counts while the fragments `todo` are to come. -/
structure Counts (v : Version) (n : ℕ) (todo : List (List Byte)) (frag : VrFragment) : Prop where
  pos : 0 < frag.fReceived
  sum : (frag.fReceived : ℤ) + (todo.map (payload v)).sum = n
  expected : frag.fExpected = n ∨ frag.fExpected = 0 ∧ ∃ f ∈ todo, fragmentTail v f = true
  each : ∀ f ∈ todo, 0 < payload v f ∧ (fragmentTail v f = true → offset v f + payload v f = n)

/-- A fragment that is counted: the entry goes if it is the last to come. -/
theorem Counts.seen (h : Counts v n (f :: fs) frag) (hn : n < 2 ^ 16)
    (hseen : fragmentSeen tbl key frag (payload v f)
      (if fragmentTail v f then some (offset v f + payload v f) else none) = tbl') :
    if fs = [] then tbl' key = none else ∃ frag', tbl' key = some frag' ∧ Counts v n fs frag' := by
  obtain ⟨⟨hpos, htail⟩, heach⟩ := List.forall_mem_cons.mp h.each
  have hrec := h.pos
  have hsum := h.sum
  have hlen := length_le_payloads fun f hf => (heach f hf).1
  rw [List.map_cons, List.sum_cons] at hsum
  have hmod : (((frag.fReceived : ℤ) + payload v f) % 2 ^ 16).toNat =
      frag.fReceived + (payload v f).toNat := by omega
  -- the number of bytes is known, or the last fragment is still to come
  obtain ⟨e, hknown, heq⟩ : ∃ e, (e = n ∨ e = 0 ∧ ∃ f ∈ fs, fragmentTail v f = true) ∧
      tbl' key = if frag.fReceived + (payload v f).toNat = e then none
        else some { frag with
          fReceived := frag.fReceived + (payload v f).toNat
          fExpected := e } := by
    rw [← hseen]
    unfold fragmentSeen
    rw [Function.update_self, hmod]
    cases ht : fragmentTail v f with
    | true =>
      refine ⟨n, .inl rfl, ?_⟩
      rw [if_pos rfl, htail ht]
      have hsize : ((n : ℤ) % 2 ^ 16).toNat = n := by omega
      simp only [hsize]
    | false =>
      refine ⟨frag.fExpected, h.expected.imp_right fun ⟨he, f', hf', ht'⟩ => ⟨he, f', ?_, ht'⟩, rfl⟩
      exact (List.mem_cons.mp hf').resolve_left fun hff => by simp [← hff, ht'] at ht
  rw [heq]
  split_ifs with hnil hall hall
  · rfl
  · subst hnil
    obtain rfl | ⟨-, f', hf', -⟩ := hknown
    · rw [List.map_nil, List.sum_nil] at hsum
      omega
    · cases hf'
  · have := List.length_pos_iff.mpr hnil
    omega
  · exact ⟨_, rfl, by dsimp only; omega, by dsimp only; omega, hknown, heach⟩

theorem Arrivals.entry (hn : n < 2 ^ 16) (hhead : fragmentHead v head = true) :
    ∀ {arr : List (List Byte)} {k : ℕ} {tbl : FragmentTable} {frag : VrFragment},
    Arrivals v vrf custom (fragmentKey v vrf head custom) tbl (arr.take k) tbl' →
    tbl (fragmentKey v vrf head custom) = some frag → Counts v n arr frag → arr ≠ [] →
    (∀ f ∈ arr, LaterFragment v head f) →
    ((tbl' (fragmentKey v vrf head custom)).isSome = true ↔ k < arr.length)
  | [], _, _, _, _, _, _, hne, _ => absurd rfl hne
  | f :: fs, 0, _, _, .nil, hfrag, _, _, _ => by simp [hfrag]
  | f :: fs, k + 1, _, frag, .cons pkt p hsame hrun, hfrag, hcounts, _, hlater => by
    obtain ⟨hf, hlater⟩ := List.forall_mem_cons.mp hlater
    rw [formFlow_later hf hhead (hsame.trans hfrag)] at hrun
    generalize hseen : fragmentSeen _ _ _ _ _ = tbl₂ at hrun
    have hentry := hcounts.seen hn hseen
    split_ifs at hentry with hnil
    · subst hnil
      rw [List.take_nil] at hrun
      cases hrun
      simp [hentry]
    · obtain ⟨frag', hfrag', hcounts'⟩ := hentry
      rw [Arrivals.entry hn hhead hrun hfrag' hcounts' hnil hlater, List.length_cons]
      omega

/-- **An entry stays until its datagram is complete**, and no longer, if the key of each later fragment
is formed once: when `k` of them have come, in any order, it is there if and only if some are
missing. -/
theorem entry_until_complete (h : Datagram v n head rest) (harr : arr.Perm rest)
    (hnew : tbl (fragmentKey v vrf head custom) = none)
    (hadd : vrFragmentAdd tbl (fragmentKey v vrf head custom) sport dport (payload v head) true =
      some tbl₀)
    (hrun : Arrivals v vrf custom (fragmentKey v vrf head custom) tbl₀ (arr.take k) tbl') :
    (tbl' (fragmentKey v vrf head custom)).isSome = true ↔ k < arr.length := by
  obtain ⟨hsum, hlast, heach⟩ := h.cut.ends
  obtain ⟨f, hf, ht⟩ := hlast h.others.1
  have hsize := h.size
  have hpos := h.first.2
  have hlen := length_le_payloads fun f hf => (heach f hf).1
  rw [← (harr.map (payload v)).sum_eq] at hsum hlen
  unfold vrFragmentAdd at hadd
  rw [hnew] at hadd
  cases hadd
  refine hrun.entry h.size h.first.1 (Function.update_self ..) ⟨?_, ?_, .inr ⟨rfl, f, ?_, ht⟩, ?_⟩
    (fun hnil => h.others.1 ?_) fun f' hf' => h.others.2 f' (harr.mem_iff.mp hf')
  · dsimp only
    omega
  · dsimp only
    omega
  · exact harr.mem_iff.mpr hf
  · exact fun f' hf' => heach f' (harr.mem_iff.mp hf')
  · exact (hnil ▸ harr).nil_eq.symm

/-- A middle fragment of the query, from the byte `8 * i` on. -/
def middleFragment (i : Byte) : List Byte :=
  [0x45, 0, 0, 28, 0, 1, 0x20, i, 64, 17, 0, 0, 10, 0, 0, 1, 10, 0, 0, 2]

/-- The fragments of the query but for the first. -/
def queryRest : List (List Byte) := [1, 2, 3, 4].map middleFragment ++ [lastFragment 17]

/-- The query has six fragments of eight bytes. -/
theorem query_datagram : Datagram .v4 48 (firstFragment 17 [4, 0, 0, 53]) queryRest where
  size := by decide
  first := by decide
  others := by decide
  cut := by
    simp only [queryRest, CutFrom, List.map, List.cons_append, List.nil_append]
    decide

theorem exists_arrivals (pkt : PktMd) (p : FkeyParams) : ∀ (arr : List (List Byte))
    (tbl : FragmentTable), ∃ tbl', Arrivals v vrf custom key tbl arr tbl'
  | [], _ => ⟨_, .nil⟩
  | _ :: fs, _ => (exists_arrivals pkt p fs _).imp fun _ h => .cons pkt p rfl h

/-- The others come in reverse order, and the entry stays when one of them is missing. -/
theorem entry_until_complete_query :
    ∃ tbl₀ tbl', vrFragmentAdd (fun _ => none) queryKey 1024 53 8 true = some tbl₀ ∧
      Arrivals .v4 0 0 queryKey tbl₀ (queryRest.reverse.take 4) tbl' ∧
      (tbl' queryKey).isSome = true := by
  have hadd : vrFragmentAdd (fun _ => none) queryKey 1024 53 8 true = some _ := rfl
  obtain ⟨tbl', hrun⟩ := exists_arrivals querier vrFlowKeyAll (queryRest.reverse.take 4) _
  exact ⟨_, tbl', hadd, hrun,
    (entry_until_complete query_datagram (List.reverse_perm _) rfl hadd hrun).mpr (by decide)⟩

/-- The key of a fragment is formed for a composite nexthop. -/
def atComposite (tbl : FragmentTable) (f : List Byte) : FragmentTable :=
  (getFlowKey .v4 tbl 0 querier f vrFlowKeyAll 0 ⟨.inet, 0, 0, [], [], 0, 0⟩ true).2

/-- **A fragment that is counted twice**: its key is formed at two composite nexthops, and the entry is
deleted although the last middle fragment has not come. -/
theorem countedTwice_deleted :
    ([1, 1, 2, 3].map middleFragment ++ [lastFragment 17]).foldl atComposite afterFirst queryKey =
      none := by
  decide +kernel

end Vrouter.FlowKey
