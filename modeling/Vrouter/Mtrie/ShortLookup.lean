import Vrouter.Mtrie.Routes

/-! # Lookups shorter than an address

`mtrie_get` and the insertion of fat-flow rules look up a prefix `P/len` and want the longest
installed prefix of length at most `len` that covers `P`.  `__mtrie_lookup` searches for it by
scanning the buckets from the bytes of `P` on, cyclically, and takes the first leaf whose prefix
length is short enough, whether or not `P` covers that leaf.  A bucket in which it finds nothing
returns the pointer that the caller left in `rtr_nh`, and that ends the search as soon as the
pointer is not null.

The scan can be followed on the table of installed prefixes alone.  In a trie built by additions
an entry is a bucket iff its block is `Subdivided`, that is iff a longer prefix is installed
beneath it, so `FirstHit` says which match the scan meets first, and `shortLookup_iff` that the
lookup is right exactly when this is the match of `P`. -/

namespace Vrouter.Mtrie

open Vrouter.Lib

variable {δ : Type} {env : Env} {ty : LeafType} {W : ℕ} {view : VoidPtr → EntryInfo → δ}
variable {T T' : List Bool → Option δ} {z : δ} {rt q : RouteReq}

/-- A prefix longer than the block is installed beneath it. -/
def Subdivided (T : List Bool → Option δ) (b : List Bool) : Prop :=
  ∃ x, b <+: x ∧ b.length < x.length ∧ T x ≠ none

/-! ### Buckets of a trie built by additions -/

/-- Buckets stand only where the table needs them. -/
def Tight (T : List Bool → Option δ) : Entry → List Bool → Prop
  | .leaf _ _ _, _ => True
  | .bucket _ bkt, b => Subdivided T b ∧ ∀ j, Tight T (bkt j) (b ++ byteBits j)

/-- The same for the entries of a bucket, whether or not it is needed itself. -/
def TightBkt (T : List Bool → Option δ) (env : Env) (dataIsNh : Bool) (ent : Entry)
    (b : List Bool) : Prop :=
  ∀ j, Tight T (bktOf env dataIsNh ent j) (b ++ byteBits j)

theorem Subdivided.mono {b : List Bool} (h : Subdivided T b) (hT : ∀ x, T x ≠ none → T' x ≠ none) :
    Subdivided T' b := by
  obtain ⟨x, h1, h2, h3⟩ := h
  exact ⟨x, h1, h2, hT x h3⟩

theorem Tight.mono (hT : ∀ x, T x ≠ none → T' x ≠ none) :
    ∀ {ent : Entry} {b : List Bool}, Tight T ent b → Tight T' ent b
  | .leaf _ _ _, _, _ => trivial
  | .bucket _ _, _, ⟨hs, hch⟩ => ⟨hs.mono hT, fun j => (hch j).mono hT⟩

theorem Tight.bktOf (env : Env) (dataIsNh : Bool) {ent : Entry} {b : List Bool} (h : Tight T ent b) :
    TightBkt T env dataIsNh ent b := by
  intro j
  cases ent with
  | leaf t d i => trivial
  | bucket i bkt => exact h.2 j

theorem Tight.addToTree : ∀ {ent : Entry} {b : List Bool} {level : ℕ}, Tight T ent b →
    Tight T (addToTree env rt ent level) b
  | .leaf t d i, b, level, _ => by
    unfold Mtrie.addToTree
    split_ifs <;> trivial
  | .bucket i bkt, b, level, h => by
    unfold Mtrie.addToTree
    split_ifs
    · exact h
    · exact h
    · exact ⟨h.1, fun j => (h.2 j).addToTree⟩

theorem install_ne_none {p x : List Bool} (d : δ) (h : T x ≠ none) : install T p d x ≠ none := by
  by_cases hx : x = p
  · rw [hx, install_same]; simp
  · rwa [install_ne d hx]

variable {dataIsNh : Bool} {info : EntryInfo}

/-- Adding a route keeps the trie tight: every bucket made on the way has the route beneath it. -/
theorem mtrieAddFrom_tight (hrt : rt.Masked) (d : δ) :
    ∀ (n level : ℕ) {ent : Entry}, level + n = ipBktGetMaxLevel rt.rtrFamily → n ≠ 0 →
      TightBkt T env dataIsNh ent ((bits rt.rtrPrefix).take (8 * level)) →
      ∃ bkt, mtrieAddFrom env rt dataIsNh n level ent = .bucket ent.info bkt ∧
        ∀ j, Tight (install T (reqPrefix rt) d) (bkt j)
          ((bits rt.rtrPrefix).take (8 * level) ++ byteBits j)
  | 0, _, _, _, h0, _ => absurd rfl h0
  | n + 1, level, ent, hn, _, h => by
    have hmono : ∀ x, T x ≠ none → install T (reqPrefix rt) d x ≠ none :=
      fun x hx => install_ne_none d hx
    simp only [mtrieAddFrom, biPfxLen_eq]
    split_ifs with hgt
    · refine ⟨_, rfl, fun j => ?_⟩
      by_cases hj : j = rtToIndex rt level
      · subst hj
        rw [Function.update_self]
        have hstep := bits_take_succ rt.rtrPrefix (n := level)
          (by rw [hrt.prefix_length]; omega)
        have hchild := h (rtToIndex rt level)
        rw [rtToIndex, ← hstep, ← rtToIndex] at hchild ⊢
        have hn0 : n ≠ 0 := by
          have := hrt.plen_le
          omega
        obtain ⟨bkt, hres, hbkt⟩ := mtrieAddFrom_tight hrt d n (level + 1) (by omega) hn0
          (hchild.bktOf env dataIsNh)
        rw [hres]
        refine ⟨⟨reqPrefix rt, List.take_prefix_take_left (by omega), ?_, by simp⟩, hbkt⟩
        rw [hrt.reqPrefix_length, List.length_take, bits_length, hrt.prefix_length]
        omega
      · rw [Function.update_of_ne hj]
        exact (h j).mono hmono
    · refine ⟨_, rfl, fun j => ?_⟩
      rw [addToEntries_apply _ _ _ _ _ (coveredEntries_le _ _)]
      split_ifs
      · exact ((h j).mono hmono).addToTree
      · exact (h j).mono hmono

/-! ### The scan, on the table -/

/-- The block that the scan of the block `b` at `level` visits as the `i`-th. -/
def scanned (q : RouteReq) (b : List Bool) (level i : ℕ) : List Bool :=
  b ++ byteBits (rtToIndex q level + Fin.ofNat 256 i)

/-- The match of the `i`-th block is short enough for the scan to take it. -/
def Acceptable (T : List Bool → Option δ) (z : δ) (q : RouteReq) (limit i : ℕ) (c : List Bool) :
    Prop :=
  (lpm T z c c.length).1 < q.rtrPrefixLen ∨
    ((lpm T z c c.length).1 = q.rtrPrefixLen ∧ i < limit)

/-- The scan of the block `b` meets the match `m` first.  All blocks before are undivided and
have matches that are too long; the block itself is undivided and acceptable, or divided, and the
scan of it meets `m` first.  The limits have to be defined on the way. -/
inductive FirstHit (T : List Bool → Option δ) (z : δ) (q : RouteReq) :
    List Bool → ℕ → ℕ × δ → Prop
  | leaf {b : List Bool} {level limit i : ℕ} (hl : lookupLimit level q.rtrPrefixLen = some limit)
      (hi : i < 256)
      (hpass : ∀ k < i, ¬ Subdivided T (scanned q b level k) ∧
        ¬ Acceptable T z q limit k (scanned q b level k))
      (hs : ¬ Subdivided T (scanned q b level i))
      (ha : Acceptable T z q limit i (scanned q b level i)) :
      FirstHit T z q b level (lpm T z (scanned q b level i) (scanned q b level i).length)
  | divided {b : List Bool} {level limit i : ℕ} {m : ℕ × δ}
      (hl : lookupLimit level q.rtrPrefixLen = some limit) (hi : i < 256)
      (hpass : ∀ k < i, ¬ Subdivided T (scanned q b level k) ∧
        ¬ Acceptable T z q limit k (scanned q b level k))
      (hs : Subdivided T (scanned q b level i))
      (hm : FirstHit T z q (scanned q b level i) (level + 1) m) : FirstHit T z q b level m

/-! ### The scan, in the trie -/

section scan

variable {visit : Byte → ℕ → ℕ → Option (Option RouteReq)} {index : Byte} {rt : RouteReq}

theorem scanBkt_skip : ∀ {i n : ℕ} (s : ℕ), i ≤ n →
    (∀ k < i, visit (index + Fin.ofNat 256 (s + k)) (s + k) (n - k - 1) = none) →
    scanBkt visit index rt n s = scanBkt visit index rt (n - i) (s + i)
  | 0, n, s, _, _ => rfl
  | i + 1, 0, s, hi, _ => absurd hi (by omega)
  | i + 1, n + 1, s, hi, h => by
    have h0 := h 0 (by omega)
    rw [Nat.add_zero, Nat.sub_zero, Nat.add_sub_cancel] at h0
    have hrest := scanBkt_skip (i := i) (n := n) (s + 1) (by omega) (by
      intro k hk
      have := h (k + 1) (by omega)
      rwa [show s + (k + 1) = s + 1 + k by omega,
        show n + 1 - (k + 1) - 1 = n - k - 1 by omega] at this)
    rw [scanBkt, h0]
    dsimp only
    rw [hrest, show n + 1 - (i + 1) = n - i by omega, show s + (i + 1) = s + 1 + i by omega]

theorem scanBkt_at {i : ℕ} {res : Option RouteReq} (hi : i < 256)
    (h : ∀ k < i, visit (index + Fin.ofNat 256 k) k (255 - k) = none)
    (hres : visit (index + Fin.ofNat 256 i) i (255 - i) = some res) :
    scanBkt visit index rt 256 0 = res := by
  rw [scanBkt_skip (i := i) 0 (by omega), Nat.zero_add, show 256 - i = 255 - i + 1 by omega,
    scanBkt, hres]
  intro k hk
  rw [Nat.zero_add, show 256 - k - 1 = 255 - k by omega]
  exact h k hk

theorem scanBkt_end (h : ∀ k < 256, visit (index + Fin.ofNat 256 k) k (255 - k) = none) :
    scanBkt visit index rt 256 0 = some rt := by
  rw [scanBkt_skip (i := 256) 0 (le_refl _)]
  · rfl
  · intro k hk
    rw [Nat.zero_add, show 256 - k - 1 = 255 - k by omega]
    exact h k hk

end scan

/-- What `__mtrie_lookup` does with the entry it visits as the `i`-th of a bucket. -/
def lookupVisit (bkt : Byte → Entry) (level limit : ℕ) (index : Byte) (rt : RouteReq) (j : Byte)
    (i n : ℕ) : Option (Option RouteReq) :=
  match bkt j with
  | .leaf _ d info =>
    if i ≥ limit ∧ info.entryPrefixLen ≥ rt.rtrPrefixLen then none
    else if info.entryPrefixLen > rt.rtrPrefixLen then none
    else some (some (takeLeaf d info rt))
  | .bucket _ _ =>
    match lookupWith (lookupLoop (bkt j)) (level + 1) rt with
    | none => some none
    | some (rt', ret) =>
      if ret ≠ .null then some (some rt')
      else some (lookupLoop (bkt j) level limit index n (i + 1) rt')

theorem lookupLoop_bucket {bkt : Byte → Entry} {level limit n i : ℕ} {index : Byte} :
    lookupLoop (.bucket info bkt) level limit index n i rt =
      scanBkt (lookupVisit bkt level limit index rt) index rt n i := by
  rw [lookupLoop]
  rfl

/-- The query with the pointer that the caller left in it. -/
def RouteReq.withNh (q : RouteReq) (nh : VoidPtr) : RouteReq := { q with rtrNh := nh }

theorem mtrieLookupCore_bucket {bkt : Byte → Entry} {level limit : ℕ}
    (hlev : level < ipBktGetMaxLevel q.rtrFamily)
    (hl : lookupLimit level q.rtrPrefixLen = some limit) (nh : VoidPtr) :
    mtrieLookupCore (.bucket info bkt) level (q.withNh nh) =
      (scanBkt (lookupVisit bkt level limit (rtToIndex q level) (q.withNh nh)) (rtToIndex q level)
        (q.withNh nh) 256 0).map fun rt' => (rt', rt'.rtrNh) := by
  have hfam : ¬ level ≥ ipBktGetMaxLevel (q.withNh nh).rtrFamily := by
    simp only [RouteReq.withNh]; omega
  have hlim : lookupLimit level (q.withNh nh).rtrPrefixLen = some limit := hl
  rw [mtrieLookupCore, lookupWith, if_neg hfam, hlim]
  simp only [biSize_eq, lookupLoop_bucket]
  rfl

section visit

variable {bkt : Byte → Entry} {b : List Bool} {level limit i : ℕ} {j : Byte}

/-- An undivided block is a leaf that holds the match of the block. -/
theorem leaf_of_not_subdivided (hr : Represents env ty W view T z (bkt j) (b ++ byteBits j))
    (ht : Tight T (bkt j) (b ++ byteBits j)) (hs : ¬ Subdivided T (b ++ byteBits j)) :
    ∃ d info, bkt j = .leaf ty d info ∧ d ≠ .null ∧
      lpm T z (b ++ byteBits j) (b ++ byteBits j).length = (info.entryPrefixLen, view d info) := by
  cases hent : bkt j with
  | leaf t d info =>
    rw [hent] at hr
    obtain ⟨rfl, hd, hm, _⟩ := hr
    exact ⟨d, info, rfl, hd.2, hm⟩
  | bucket info f =>
    rw [hent] at ht
    exact absurd ht.1 hs

theorem bucket_of_subdivided (hr : Represents env ty W view T z (bkt j) (b ++ byteBits j))
    (hs : Subdivided T (b ++ byteBits j)) : ∃ info f, bkt j = .bucket info f := by
  cases hent : bkt j with
  | bucket info f => exact ⟨info, f, rfl⟩
  | leaf t d info =>
    rw [hent] at hr
    obtain ⟨x, h1, h2, h3⟩ := hs
    exact absurd (hr.2.2.2 x h1 h2) h3

theorem lookupVisit_leaf {t : LeafType} {d : VoidPtr} {index : Byte} {n : ℕ} (hent : bkt j = .leaf t d info)
    (hm : lpm T z (b ++ byteBits j) (b ++ byteBits j).length = (info.entryPrefixLen, view d info))
    (nh : VoidPtr) :
    (Acceptable T z q limit i (b ++ byteBits j) →
      lookupVisit bkt level limit index (q.withNh nh) j i n = some (some (takeLeaf d info q))) ∧
    (¬ Acceptable T z q limit i (b ++ byteBits j) →
      lookupVisit bkt level limit index (q.withNh nh) j i n = none) := by
  have hplen : (q.withNh nh).rtrPrefixLen = q.rtrPrefixLen := rfl
  simp only [Acceptable, hm, lookupVisit, hent, hplen]
  constructor
  · intro ha
    rw [if_neg (by omega), if_neg (by omega)]
    rfl
  · intro ha
    split_ifs <;> first | rfl | omega

/-- The blocks before the `i`-th are undivided and not acceptable: the scan comes to the `i`-th. -/
theorem lookup_reaches (hb : b.length = 8 * level) (hW : W = 8 * ipBktGetMaxLevel q.rtrFamily)
    (hr : Represents env ty W view T z (.bucket info bkt) b)
    (ht : ∀ j, Tight T (bkt j) (b ++ byteBits j))
    (hl : lookupLimit level q.rtrPrefixLen = some limit)
    (hpass : ∀ k < i, ¬ Subdivided T (scanned q b level k) ∧
      ¬ Acceptable T z q limit k (scanned q b level k)) (nh : VoidPtr) :
    (∀ res, i < 256 → lookupVisit bkt level limit (rtToIndex q level) (q.withNh nh)
        (rtToIndex q level + Fin.ofNat 256 i) i (255 - i) = some res →
      mtrieLookupCore (.bucket info bkt) level (q.withNh nh) =
        res.map fun rt' => (rt', rt'.rtrNh)) ∧
    (i = 256 → mtrieLookupCore (.bucket info bkt) level (q.withNh nh) = some (q.withNh nh, nh)) := by
  obtain ⟨hbW, _, hch⟩ := hr
  have hskip : ∀ k < i, lookupVisit bkt level limit (rtToIndex q level) (q.withNh nh)
      (rtToIndex q level + Fin.ofNat 256 k) k (255 - k) = none := by
    intro k hk
    obtain ⟨d, info', hent, _, hm⟩ := leaf_of_not_subdivided (hch _) (ht _) (hpass k hk).1
    exact (lookupVisit_leaf hent hm nh).2 (hpass k hk).2
  rw [mtrieLookupCore_bucket (by omega) hl]
  constructor
  · intro res hi hres
    rw [scanBkt_at hi hskip hres]
  · rintro rfl
    rw [scanBkt_end hskip]
    rfl

end visit

/-- Where the table has a first hit, the lookup returns it, whatever pointer comes in. -/
theorem FirstHit.lookup {b : List Bool} {level : ℕ} {m : ℕ × δ} (h : FirstHit T z q b level m)
    (hW : W = 8 * ipBktGetMaxLevel q.rtrFamily) :
    ∀ {info : EntryInfo} {bkt : Byte → Entry}, b.length = 8 * level →
      Represents env ty W view T z (.bucket info bkt) b →
      (∀ j, Tight T (bkt j) (b ++ byteBits j)) →
      ∃ d i, m = (i.entryPrefixLen, view d i) ∧ d ≠ .null ∧
        ∀ nh, mtrieLookupCore (.bucket info bkt) level (q.withNh nh) = some (takeLeaf d i q, d) := by
  induction h with
  | @leaf b level limit i hl hi hpass hs ha =>
    intro info bkt hb hr ht
    obtain ⟨d, i', hent, hd, hm⟩ := leaf_of_not_subdivided (hr.2.2 _) (ht _) hs
    refine ⟨d, i', hm, hd, fun nh => ?_⟩
    rw [(lookup_reaches hb hW hr ht hl hpass nh).1 _ hi ((lookupVisit_leaf hent hm nh).1 ha)]
    rfl
  | @divided b level limit i m hl hi hpass hs _ ih =>
    intro info bkt hb hr ht
    obtain ⟨info', f, hent⟩ := bucket_of_subdivided (hr.2.2 _) hs
    have hr' := hr.2.2 (rtToIndex q level + Fin.ofNat 256 i)
    have ht' := ht (rtToIndex q level + Fin.ofNat 256 i)
    rw [hent] at hr' ht'
    obtain ⟨d, i', hm, hd, hres⟩ := ih (by simp [scanned, hb]; omega) hr' ht'.2
    refine ⟨d, i', hm, hd, fun nh => ?_⟩
    have hvisit : lookupVisit bkt level limit (rtToIndex q level) (q.withNh nh)
        (rtToIndex q level + Fin.ofNat 256 i) i (255 - i) = some (some (takeLeaf d i' q)) := by
      have hchild : lookupWith (lookupLoop (.bucket info' f)) (level + 1) (q.withNh nh) = _ := hres nh
      simp only [lookupVisit, hent, hchild]
      exact if_pos hd
    rw [(lookup_reaches hb hW hr ht hl hpass nh).1 _ hi hvisit]
    rfl

/-- Where it has none, a pointer that comes in goes out again, unless the lookup is undefined. -/
theorem lookup_of_no_hit (hW : W = 8 * ipBktGetMaxLevel q.rtrFamily) {nh : VoidPtr}
    (hnh : nh ≠ .null) :
    ∀ (ent : Entry) {b : List Bool} {level : ℕ} {info : EntryInfo} {bkt : Byte → Entry},
      ent = .bucket info bkt → b.length = 8 * level →
      Represents env ty W view T z ent b → (∀ j, Tight T (bkt j) (b ++ byteBits j)) →
      (∃ m, FirstHit T z q b level m) ∨ mtrieLookupCore ent level (q.withNh nh) = none ∨
        mtrieLookupCore ent level (q.withNh nh) = some (q.withNh nh, nh) := by
  intro ent
  induction ent with
  | leaf t d i => intro b level info bkt he; cases he
  | bucket info bkt ih =>
    rintro b level _ _ ⟨rfl, rfl⟩ hb hr ht
    cases hl : lookupLimit level q.rtrPrefixLen with
    | none =>
      right; left
      have hlim : lookupLimit level (q.withNh nh).rtrPrefixLen = none := hl
      have hlev : ¬ level ≥ ipBktGetMaxLevel (q.withNh nh).rtrFamily := by
        have := hr.1
        simp only [RouteReq.withNh]; omega
      rw [mtrieLookupCore, lookupWith, if_neg hlev, hlim]
    | some limit =>
      -- the first block that is divided or acceptable decides
      by_cases hall : ∀ k < 256, ¬ Subdivided T (scanned q b level k) ∧
          ¬ Acceptable T z q limit k (scanned q b level k)
      · right; right
        exact (lookup_reaches hb hW hr ht hl hall nh).2 rfl
      · classical
        push Not at hall
        set i := Nat.find hall with hidef
        obtain ⟨hi, hstop⟩ := Nat.find_spec hall
        have hpass : ∀ k < i, ¬ Subdivided T (scanned q b level k) ∧
            ¬ Acceptable T z q limit k (scanned q b level k) := by
          intro k hk
          have := Nat.find_min hall hk
          push Not at this
          exact this (by omega)
        by_cases hs : Subdivided T (scanned q b level i)
        · obtain ⟨info', f, hent⟩ := bucket_of_subdivided (hr.2.2 _) hs
          have hr' := hr.2.2 (rtToIndex q level + Fin.ofNat 256 i)
          have ht' := ht (rtToIndex q level + Fin.ofNat 256 i)
          rw [hent] at ht'
          have hreach := fun res => (lookup_reaches hb hW hr ht hl hpass nh).1 res hi
          have hlen : (scanned q b level i).length = 8 * (level + 1) := by
            simp [scanned, hb]; omega
          rcases ih _ hent hlen hr' ht'.2 with ⟨m, hm⟩ | hnone | hsome
          · exact Or.inl ⟨m, .divided hl hi hpass hs hm⟩
          · right; left
            rw [hent] at hnone
            replace hnone : lookupWith (lookupLoop (.bucket info' f)) (level + 1) (q.withNh nh) =
              none := hnone
            refine hreach none ?_
            simp only [lookupVisit, hent, hnone]
          · right; right
            rw [hent] at hsome
            replace hsome : lookupWith (lookupLoop (.bucket info' f)) (level + 1) (q.withNh nh) =
              some (q.withNh nh, nh) := hsome
            refine hreach (some (q.withNh nh)) ?_
            simp only [lookupVisit, hent, hsome]
            exact if_pos hnh
        · exact Or.inl ⟨_, .leaf hl hi hpass hs (hstop hs)⟩

/-! ### Tries built by additions -/

/-- The trie after a list of additions. -/
def buildTrie (env : Env) (dataIsNh : Bool) (root : Entry) (reqs : List RouteReq) : Entry :=
  reqs.foldl (fun root rt => mtrieAddCore env rt dataIsNh root) root

/-- The table after a list of additions. -/
def buildTable (reqs : List RouteReq) : List Bool → Option RouteData :=
  installAll (reqs.map fun rt => (reqPrefix rt, reqData routeView rt)) fun _ => none

theorem mtrieAddCore_tight {root : Entry} (hrt : rt.Masked) (d : δ)
    (h : TightBkt T env dataIsNh root []) :
    ∃ info bkt, mtrieAddCore env rt dataIsNh root = .bucket info bkt ∧
      TightBkt (install T (reqPrefix rt) d) env dataIsNh (.bucket info bkt) [] := by
  have hpos := maxLevel_pos rt.rtrFamily
  have h0 : TightBkt T env dataIsNh root ((bits rt.rtrPrefix).take (8 * 0)) := by simpa using h
  obtain ⟨bkt, hres, ht⟩ := mtrieAddFrom_tight hrt d (ipBktGetMaxLevel rt.rtrFamily) 0 (by omega)
    (by omega) h0
  exact ⟨root.info, bkt, hres, by simpa [TightBkt, bktOf] using ht⟩

theorem buildTrie_represents {fam : Family} :
    ∀ (reqs : List RouteReq) {root : Entry} {T : List Bool → Option RouteData} {z : RouteData},
      (∀ rt ∈ reqs, rt.rtrFamily = fam ∧ rt.Ready env (leafType dataIsNh)) →
      Represents env (leafType dataIsNh) (8 * ipBktGetMaxLevel fam) routeView T z root [] →
      TightBkt T env dataIsNh root [] →
      Represents env (leafType dataIsNh) (8 * ipBktGetMaxLevel fam) routeView
          (installAll (reqs.map fun rt => (reqPrefix rt, reqData routeView rt)) T) z
          (buildTrie env dataIsNh root reqs) [] ∧
        TightBkt (installAll (reqs.map fun rt => (reqPrefix rt, reqData routeView rt)) T) env
          dataIsNh (buildTrie env dataIsNh root reqs) [] ∧
        (reqs ≠ [] → ∃ info bkt, buildTrie env dataIsNh root reqs = .bucket info bkt)
  | [], _, _, _, _, hr, ht => ⟨hr, ht, fun h => absurd rfl h⟩
  | rt :: reqs, root, T, z, hreqs, hr, ht => by
    obtain ⟨rfl, hready⟩ := hreqs rt (by simp)
    obtain ⟨info, bkt, hres, ht'⟩ := mtrieAddCore_tight hready.toMasked (reqData routeView rt) ht
    have hr' := mtrieAddCore_represents hready hr
    rw [hres] at hr'
    obtain ⟨h1, h2, h3⟩ := buildTrie_represents reqs
      (fun r hmem => hreqs r (List.mem_cons_of_mem _ hmem)) hr' ht'
    have hfold : buildTrie env dataIsNh root (rt :: reqs) =
        buildTrie env dataIsNh (.bucket info bkt) reqs := by
      simp only [buildTrie, List.foldl_cons, hres]
    rw [hfold]
    refine ⟨h1, h2, fun _ => ?_⟩
    cases reqs with
    | nil => exact ⟨info, bkt, rfl⟩
    | cons r rest => exact h3 (by simp)

theorem answer_injective (q : RouteReq) : Function.Injective (answer q) := by
  rintro ⟨n, nh, l, f, i⟩ ⟨n', nh', l', f', i'⟩ h
  simp only [answer, Prod.mk.injEq, RouteReq.mk.injEq] at h
  obtain ⟨⟨_, _, _, rfl, rfl, rfl, _, _, _, rfl, _⟩, rfl⟩ := h
  rfl

/-- **Lookups of a prefix `P/len`.**  In a trie built by additions, `__mtrie_lookup` returns the
longest installed prefix of length at most `len` that covers `P`, whatever pointer comes in, and
the length `len` only where `P/len` is installed, exactly when the first match that the scan meets
in the table is that one, and, for `len = 0`, the empty prefix is installed. -/
theorem shortLookup_iff (env : Env) (dataIsNh : Bool) (fam : Family) (d₀ : VoidPtr)
    (i₀ : EntryInfo) (hi₀ : i₀.entryPrefixLen = 0) (hd₀ : Fixed env (leafType dataIsNh) d₀)
    (reqs : List RouteReq) (hne : reqs ≠ [])
    (hreqs : ∀ rt ∈ reqs, rt.rtrFamily = fam ∧ rt.Ready env (leafType dataIsNh))
    (q : RouteReq) (hq : q.rtrFamily = fam) :
    let root := buildTrie env dataIsNh (.leaf (leafType dataIsNh) d₀ i₀) reqs
    let best := lpm (buildTable reqs) (routeView d₀ i₀) (bits q.rtrPrefix) q.rtrPrefixLen
    ((best.1 = q.rtrPrefixLen → buildTable reqs (reqPrefix q) ≠ none) ∧
      ∀ nh, mtrieLookupCore root 0 (q.withNh nh) = some (answer q best)) ↔
    (q.rtrPrefixLen = 0 → buildTable reqs [] ≠ none) ∧
      FirstHit (buildTable reqs) (routeView d₀ i₀) q [] 0 best := by
  intro root best
  subst hq
  have hleaf : Represents env (leafType dataIsNh) (8 * ipBktGetMaxLevel q.rtrFamily) routeView
      (fun _ => none) (routeView d₀ i₀) (.leaf (leafType dataIsNh) d₀ i₀) [] :=
    ⟨rfl, hd₀, by rw [hi₀]; rfl, fun _ _ _ => rfl⟩
  obtain ⟨hr, ht, hb⟩ := buildTrie_represents reqs hreqs hleaf (fun _ => trivial)
  obtain ⟨info, bkt, hroot⟩ := hb hne
  change Represents env (leafType dataIsNh) (8 * ipBktGetMaxLevel q.rtrFamily) routeView
    (buildTable reqs) (routeView d₀ i₀) root [] at hr
  change TightBkt (buildTable reqs) env dataIsNh root [] at ht
  change root = .bucket info bkt at hroot
  rw [hroot] at hr ht ⊢
  constructor
  · rintro ⟨hinst, hlook⟩
    refine ⟨fun h0 => ?_, ?_⟩
    · have hbest : best.1 = q.rtrPrefixLen := by
        have := lpm_len_le (T := buildTable reqs) (z := routeView d₀ i₀) (bits q.rtrPrefix)
          q.rtrPrefixLen
        change best.1 ≤ q.rtrPrefixLen at this
        omega
      have := hinst hbest
      rwa [reqPrefix, h0] at this
    · -- without a hit, two different pointers would both have to come back as the answer
      have hhit : ∃ m, FirstHit (buildTable reqs) (routeView d₀ i₀) q [] 0 m := by
        by_contra hno
        have hback : ∀ nh : VoidPtr, nh ≠ .null → (answer q best).2 = nh := by
          intro nh hnh
          have hlen : ([] : List Bool).length = 8 * 0 := rfl
          rcases lookup_of_no_hit rfl hnh _ rfl hlen hr ht with h | h | h
          · exact absurd h hno
          · rw [hlook nh] at h; cases h
          · rw [hlook nh] at h; exact congrArg Prod.snd (Option.some.inj h)
        have h0 := hback (.vdata 0) (by simp)
        have h1 := hback (.vdata 1) (by simp)
        rw [h0] at h1
        cases h1
      obtain ⟨m, hm⟩ := hhit
      obtain ⟨d, i, hmi, _, hres⟩ := hm.lookup rfl rfl hr ht
      have := (hres .null).symm.trans (hlook .null)
      rw [takeLeaf_eq_answer, ← hmi] at this
      rw [answer_injective q (Option.some.inj this)] at hm
      exact hm
  · rintro ⟨h0, hhit⟩
    refine ⟨fun hlen => ?_, fun nh => ?_⟩
    · rcases lpm_mem (T := buildTable reqs) (z := routeView d₀ i₀) (bits q.rtrPrefix)
        q.rtrPrefixLen with hm | ⟨hz, hnone, _⟩
      · rw [show (lpm (buildTable reqs) (routeView d₀ i₀) (bits q.rtrPrefix) q.rtrPrefixLen).1 =
          q.rtrPrefixLen from hlen] at hm
        rw [reqPrefix, hm]
        simp
      · exact absurd hnone (h0 (hlen.symm.trans hz))
    · obtain ⟨d, i, hmi, _, hres⟩ := hhit.lookup rfl rfl hr ht
      rw [hres nh, takeLeaf_eq_answer, ← hmi]

/-- A request as `mtrie_add` passes it on, with the nexthop `nh` in it. -/
def ip4Route (pfx : List Byte) (plen nh : ℕ) : RouteReq :=
  (ip4Req pfx plen nh).withNh (.nexthop ⟨nh, .encap⟩)

/-- The routes 10.0.0.0/8, 11.0.0.0/8 and 12.0.0.0/6, the last with another nexthop. -/
def siblingReqs : List RouteReq :=
  [ip4Route [10, 0, 0, 0] 8 1, ip4Route [11, 0, 0, 0] 8 1, ip4Route [12, 0, 0, 0] 6 2]

theorem siblingReqs_ready : ∀ rt ∈ siblingReqs, rt.rtrFamily = .inet ∧
    rt.Ready smallEnv (leafType true) := by
  have hready : ∀ {pfx : List Byte} {plen nh : ℕ}, (ip4Req pfx plen nh).Masked →
      smallEnv.getNexthop nh = some ⟨nh, .encap⟩ →
      (ip4Route pfx plen nh).Ready smallEnv (leafType true) :=
    fun hm hnh => ⟨⟨hm.prefix_length, hm.plen_le, hm.masked⟩, fixed_nexthop hnh⟩
  intro rt hrt
  simp only [siblingReqs, List.mem_cons, List.not_mem_nil, or_false] at hrt
  rcases hrt with rfl | rfl | rfl
  · exact ⟨rfl, hready (ip4Req_masked _ rfl (by decide) (by decide)) rfl⟩
  · exact ⟨rfl, hready (ip4Req_masked _ rfl (by decide) (by decide)) rfl⟩
  · exact ⟨rfl, hready (ip4Req_masked _ rfl (by decide) (by decide)) rfl⟩

theorem siblingReqs_length {x : List Bool} (h : buildTable siblingReqs x ≠ none) :
    x.length ≤ 8 := by
  by_contra hlt
  have hne : ∀ rt ∈ siblingReqs, x ≠ reqPrefix rt := by
    intro rt hrt he
    have := (siblingReqs_ready rt hrt).2.reqPrefix_length
    rw [← he] at this
    simp only [siblingReqs, List.mem_cons, List.not_mem_nil, or_false] at hrt
    rcases hrt with rfl | rfl | rfl <;> simp [ip4Route, ip4Req, RouteReq.withNh] at this <;> omega
  apply h
  simp only [buildTable, siblingReqs, List.map_cons, List.map_nil, installAll, List.foldl_cons,
    List.foldl_nil]
  rw [install_ne _ (hne _ (by simp [siblingReqs])), install_ne _ (hne _ (by simp [siblingReqs])),
    install_ne _ (hne _ (by simp [siblingReqs]))]

/-- 10.0.0.0/8 itself is found at once. -/
theorem shortLookup_iff_small :
    mtrieLookupCore (buildTrie smallEnv true (.leaf .nexthop (.nexthop ⟨0, .discard⟩)
        ⟨0, 0, 0xFFFFFF, vrBeInvalidIndex⟩) siblingReqs) 0
        ((ip4Req [10, 0, 0, 0] 8 0).withNh .null) =
      some (answer (ip4Req [10, 0, 0, 0] 8 0) (8, ⟨.nexthop ⟨1, .encap⟩, 16, 1, 0⟩)) := by
  refine ((shortLookup_iff smallEnv true .inet (.nexthop ⟨0, .discard⟩) _ rfl
    (fixed_nexthop smallEnv.getNexthop_discard) siblingReqs (by decide) siblingReqs_ready
    (ip4Req [10, 0, 0, 0] 8 0) rfl).mpr ⟨by decide, ?_⟩).2 .null
  have hl : lookupLimit 0 8 = some 1 := rfl
  refine FirstHit.leaf (i := 0) hl (by decide) (fun k hk => absurd hk (by omega)) ?_ ?_
  · rintro ⟨x, _, hx, hT⟩
    have := siblingReqs_length hT
    simp [scanned] at hx
    omega
  · right; decide

/-- 10.0.0.0/7 is answered by 12.0.0.0/6, which does not cover it, although only the discard route
does: both halves of 10.0.0.0/7 have longer routes, so the scan goes on to the next entry. -/
theorem shortLookup_sibling :
    (∀ rt ∈ siblingReqs, rt.rtrFamily = .inet ∧ rt.Ready smallEnv (leafType true)) ∧
    mtrieLookupCore (buildTrie smallEnv true (mtrieAllocVrf smallEnv) siblingReqs) 0
        (ip4Req [10, 0, 0, 0] 7 0) =
      some (answer (ip4Req [10, 0, 0, 0] 7 0)
        (6, ⟨.nexthop ⟨2, .encap⟩, 16, 1, 0⟩)) ∧
    lpm (buildTable siblingReqs) (discardRoute smallEnv) (bits [10, 0, 0, 0]) 7 =
      (0, discardRoute smallEnv) :=
  ⟨siblingReqs_ready, by decide +kernel, by decide⟩

end Vrouter.Mtrie
