import Mathlib.Data.List.Infix
import Mathlib.Data.List.Nodup
import Mathlib.Logic.Function.Basic
import Mathlib.Tactic.Common

/-! # Longest-prefix match over lists

A *prefix table* over an alphabet `α` is a partial map `T : List α → Option δ` from prefixes
to values.  `lpm T z a k` is the longest match of the word `a` among the prefixes of `a` of
length at most `k`: the length of the match together with its value, `(0, z)` when no prefix
of `a` is in the table.  The value at the empty prefix and the default `z` both have length
`0`, as a router's default route and its built-in default have.

The two updates of a table, installing a prefix (`lpm_install`) and removing one
(`lpm_remove`), change the match of exactly those words whose best match is at most, or is,
the prefix that changes. -/

namespace Vrouter.Lib

variable {α δ : Type}

/-- Longest match of `a` among the prefixes of length at most `k`. -/
def lpm (T : List α → Option δ) (z : δ) (a : List α) : ℕ → ℕ × δ
  | 0 => (0, (T []).getD z)
  | k + 1 =>
    match T (a.take (k + 1)) with
    | some d => (k + 1, d)
    | none => lpm T z a k

variable {T : List α → Option δ} {z : δ}

theorem lpm_len_le (a : List α) : ∀ k, (lpm T z a k).1 ≤ k
  | 0 => le_refl 0
  | k + 1 => by
    simp only [lpm]
    split
    · exact le_refl _
    · exact le_trans (lpm_len_le a k) (Nat.le_succ k)

/-- Above the match nothing is installed. -/
theorem none_of_lpm_lt (a : List α) : ∀ k m, (lpm T z a k).1 < m → m ≤ k → T (a.take m) = none
  | 0, m, h, hm => by simp only [lpm] at h; omega
  | k + 1, m, h, hm => by
    simp only [lpm] at h
    split at h
    · simp at h; omega
    · rename_i hn
      rcases Nat.lt_or_ge k m with hk | hk
      · have : m = k + 1 := by omega
        rw [this, hn]
      · exact none_of_lpm_lt a k m h hk

/-- The match is installed, or it is the default. -/
theorem lpm_mem (a : List α) : ∀ k,
    T (a.take (lpm T z a k).1) = some (lpm T z a k).2 ∨
      ((lpm T z a k).1 = 0 ∧ T [] = none ∧ (lpm T z a k).2 = z)
  | 0 => by
    cases h : T [] with
    | none => right; simp [lpm, h]
    | some d => left; simp [lpm, h]
  | k + 1 => by
    simp only [lpm]
    split
    · rename_i d hd; left; exact hd
    · exact lpm_mem a k

/-- The match is determined by its length, its value and the absence of longer prefixes. -/
theorem lpm_eq_of (a : List α) : ∀ k n d, n ≤ k →
    (T (a.take n) = some d ∨ (n = 0 ∧ T [] = none ∧ d = z)) →
    (∀ m, n < m → m ≤ k → T (a.take m) = none) → lpm T z a k = (n, d)
  | 0, n, d, hn, hd, _ => by
    obtain rfl : n = 0 := by omega
    rcases hd with hd | ⟨_, hT, rfl⟩
    · simp only [List.take_zero] at hd; simp [lpm, hd]
    · simp [lpm, hT]
  | k + 1, n, d, hn, hd, hm => by
    rcases Nat.lt_or_ge n (k + 1) with hlt | hge
    · have hnone := hm (k + 1) hlt (le_refl _)
      simp only [lpm, hnone]
      exact lpm_eq_of a k n d (by omega) hd (fun m h1 h2 => hm m h1 (by omega))
    · obtain rfl : n = k + 1 := by omega
      rcases hd with hd | ⟨h0, _⟩
      · simp [lpm, hd]
      · omega

variable {a b p : List α} {k m : ℕ}

/-- Only the first `n` symbols matter to a match of length at most `k ≤ n`. -/
theorem lpm_congr : ∀ {k n : ℕ}, k ≤ n → a.take n = b.take n →
    lpm T z a k = lpm T z b k
  | 0, _, _, _ => rfl
  | k + 1, n, hk, h => by
    have e : a.take (k + 1) = b.take (k + 1) := by
      have := congrArg (List.take (k + 1)) h
      simpa [List.take_take, Nat.min_eq_left hk] using this
    simp only [lpm, e]
    split
    · rfl
    · exact lpm_congr (by omega) h

/-- Lowering the bound to anything not below the match keeps the match. -/
theorem lpm_of_le (h : (lpm T z a k).1 ≤ m) (hm : m ≤ k) : lpm T z a m = lpm T z a k := by
  refine lpm_eq_of a m _ _ h (lpm_mem a k) ?_
  intro j hj hjm
  exact none_of_lpm_lt a k j hj (le_trans hjm hm)

/-- Raising the bound over a stretch where nothing is installed keeps the match. -/
theorem lpm_of_none (hm : k ≤ m) (h : ∀ j, k < j → j ≤ m → T (a.take j) = none) :
    lpm T z a m = lpm T z a k := by
  refine lpm_eq_of a m _ _ (le_trans (lpm_len_le a k) hm) (lpm_mem a k) ?_
  intro j hj hjm
  rcases Nat.lt_or_ge k j with hk | hk
  · exact h j hk hjm
  · exact none_of_lpm_lt a k j hj hk

/-- Two tables that agree on the prefixes of `a` of length at most `k` give the same match. -/
theorem lpm_table_congr {T' : List α → Option δ} : ∀ {k : ℕ},
    (∀ j ≤ k, T' (a.take j) = T (a.take j)) → lpm T' z a k = lpm T z a k
  | 0, h => by
    have := h 0 (le_refl 0)
    simp only [List.take_zero] at this
    simp [lpm, this]
  | k + 1, h => by
    simp only [lpm, h (k + 1) (le_refl _)]
    split
    · rfl
    · exact lpm_table_congr (fun j hj => h j (by omega))

theorem lpm_len_mono (a : List α) (h : k ≤ m) : (lpm T z a k).1 ≤ (lpm T z a m).1 := by
  by_contra hlt
  have hle := lpm_len_le (T := T) (z := z) a k
  have e := lpm_of_le (T := T) (z := z) (a := a) (k := m) (m := k) (by omega) h
  rw [e] at hlt
  omega

/-- An installed prefix is a lower bound for the match of the words it covers. -/
theorem le_lpm_len (hp : T p ≠ none) (hpa : p <+: a) : p.length ≤ (lpm T z a a.length).1 := by
  by_contra hlt
  apply hp
  rw [List.prefix_iff_eq_take.mp hpa]
  exact none_of_lpm_lt (z := z) a a.length _ (by omega) hpa.length_le

/-- A word and an extension of it, when nothing is installed in between. -/
theorem lpm_of_isPrefix (hab : a <+: b)
    (h : ∀ x, a <+: x → x <+: b → a.length < x.length → T x = none) :
    lpm T z b b.length = lpm T z a a.length := by
  have hlen := hab.length_le
  rw [lpm_of_none hlen]
  · apply lpm_congr (le_refl _)
    rw [List.take_length]
    exact (List.prefix_iff_eq_take.mp hab).symm
  · intro j h1 h2
    have e : a = (b.take j).take a.length := by
      rw [List.take_take, Nat.min_eq_left (by omega)]; exact List.prefix_iff_eq_take.mp hab
    exact h _ (e ▸ List.take_prefix _ _) (List.take_prefix _ _) (by simp; omega)

theorem lpm_len_mono_isPrefix (hab : a <+: b) :
    (lpm T z a a.length).1 ≤ (lpm T z b b.length).1 := by
  have e : lpm T z a a.length = lpm T z b a.length := by
    apply lpm_congr (le_refl _)
    rw [List.take_length]
    exact List.prefix_iff_eq_take.mp hab
  rw [e]
  exact lpm_len_mono b hab.length_le

/-! ### Installing and removing a prefix -/

section update
variable [DecidableEq α]

/-- The table `T` with the prefix `p` mapped to `d`. -/
def install (T : List α → Option δ) (p : List α) (d : δ) : List α → Option δ :=
  Function.update T p (some d)

/-- The table `T` without the prefix `p`. -/
def remove (T : List α → Option δ) (p : List α) : List α → Option δ :=
  Function.update T p none

@[simp] theorem install_same (p : List α) (d : δ) : install T p d p = some d := by
  simp [install]

theorem install_ne {x : List α} (d : δ) (h : x ≠ p) : install T p d x = T x := by
  simp [install, h]

@[simp] theorem remove_same (p : List α) : remove T p p = none := by
  simp [remove]

theorem remove_ne {x : List α} (h : x ≠ p) : remove T p x = T x := by
  simp [remove, h]

omit [DecidableEq α] in
theorem take_ne_of_not_isPrefix (h : ¬ p <+: a) (j : ℕ) : a.take j ≠ p := by
  rintro rfl
  exact h (List.take_prefix j a)

omit [DecidableEq α] in
theorem take_ne_of_length {j : ℕ} (hj : j ≤ a.length) (h : j ≠ p.length) : a.take j ≠ p := by
  rintro rfl
  simp [Nat.min_eq_left hj] at h

/-- A word that does not extend `p` does not see `p` change. -/
theorem lpm_install_of_not_isPrefix (d : δ) (h : ¬ p <+: a) (k : ℕ) :
    lpm (install T p d) z a k = lpm T z a k :=
  lpm_table_congr (fun j _ => install_ne d (take_ne_of_not_isPrefix h j))

theorem lpm_install_of_lt (d : δ) (hk : k < p.length) (ha : k ≤ a.length) :
    lpm (install T p d) z a k = lpm T z a k :=
  lpm_table_congr (fun j hj => install_ne d (take_ne_of_length (by omega) (by omega)))

/-- A longer match hides the installed prefix. -/
theorem lpm_install_of_longer (d : δ) (hk : k ≤ a.length) (h : p.length < (lpm T z a k).1) :
    lpm (install T p d) z a k = lpm T z a k := by
  have hle := lpm_len_le (T := T) (z := z) a k
  refine lpm_eq_of a k _ _ hle ?_ ?_
  · left
    rw [install_ne d (take_ne_of_length (by omega) (by omega))]
    rcases lpm_mem (T := T) (z := z) a k with h' | ⟨h0, _⟩
    · exact h'
    · omega
  · intro m h1 h2
    rw [install_ne d (take_ne_of_length (by omega) (by omega))]
    exact none_of_lpm_lt a k m h1 h2

/-- A match not longer than the installed prefix is replaced by it. -/
theorem lpm_install_of_le (d : δ) (hk : k ≤ a.length) (hp : p <+: a) (hpk : p.length ≤ k)
    (h : (lpm T z a k).1 ≤ p.length) : lpm (install T p d) z a k = (p.length, d) := by
  have e : a.take p.length = p := (List.prefix_iff_eq_take.mp hp).symm
  refine lpm_eq_of a k _ _ hpk ?_ ?_
  · left; rw [e, install_same]
  · intro m h1 h2
    rw [install_ne d (take_ne_of_length (by omega) (by omega))]
    exact none_of_lpm_lt (z := z) a k m (by omega) h2

theorem lpm_remove_of_not_isPrefix (h : ¬ p <+: a) (k : ℕ) : lpm (remove T p) z a k = lpm T z a k :=
  lpm_table_congr (fun j _ => remove_ne (take_ne_of_not_isPrefix h j))

theorem lpm_remove_of_lt (hk : k < p.length) (ha : k ≤ a.length) :
    lpm (remove T p) z a k = lpm T z a k :=
  lpm_table_congr (fun j hj => remove_ne (take_ne_of_length (by omega) (by omega)))

/-- A word whose match is not the removed prefix keeps its match. -/
theorem lpm_remove_of_ne (hk : k ≤ a.length) (h : (lpm T z a k).1 ≠ p.length) :
    lpm (remove T p) z a k = lpm T z a k := by
  have hle := lpm_len_le (T := T) (z := z) a k
  have hne : a.take (lpm T z a k).1 ≠ p := take_ne_of_length (by omega) h
  refine lpm_eq_of a k _ _ hle ?_ ?_
  · rcases lpm_mem (T := T) (z := z) a k with h' | ⟨h0, hT, hd⟩
    · left; rw [remove_ne hne]; exact h'
    · right
      refine ⟨h0, ?_, hd⟩
      rw [h0, List.take_zero] at hne
      rw [remove_ne hne, hT]
  · intro m h1 h2
    by_cases hm : a.take m = p
    · rw [hm, remove_same]
    · rw [remove_ne hm]; exact none_of_lpm_lt a k m h1 h2

/-- A word whose match is the removed prefix falls back to the match of that prefix. -/
theorem lpm_remove_of_eq (hk : k ≤ a.length) (hp : p <+: a) (h : (lpm T z a k).1 = p.length) :
    lpm (remove T p) z a k = lpm (remove T p) z p p.length := by
  have hpk : p.length ≤ k := h ▸ lpm_len_le a k
  rw [lpm_of_none hpk]
  · apply lpm_congr (le_refl _)
    rw [List.take_length]
    exact (List.prefix_iff_eq_take.mp hp).symm
  · intro j hj hjk
    rw [remove_ne (take_ne_of_length (by omega) (by omega))]
    exact none_of_lpm_lt (z := z) a k j (by omega) hjk

/-! ### Installing a list of prefixes -/

/-- The table after the prefixes of a list were installed one after the other. -/
def installAll (l : List (List α × δ)) (T : List α → Option δ) : List α → Option δ :=
  l.foldl (fun T e => install T e.1 e.2) T

theorem installAll_append (l m : List (List α × δ)) :
    installAll (l ++ m) T = installAll m (installAll l T) := by
  simp [installAll]

/-- Installations of distinct prefixes commute. -/
theorem installAll_perm {l m : List (List α × δ)} (h : l.Perm m) (hd : (l.map Prod.fst).Nodup) :
    installAll l T = installAll m T := by
  refine h.foldl_eq' ?_ T
  intro e he e' he' T
  by_cases heq : e = e'
  · rw [heq]
  · have hne : e.1 ≠ e'.1 := fun hfst => heq (List.inj_on_of_nodup_map hd he he' hfst)
    exact Function.update_comm hne _ _ _

end update

end Vrouter.Lib
