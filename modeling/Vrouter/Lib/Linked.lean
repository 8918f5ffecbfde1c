import Mathlib.Data.List.Nodup
import Mathlib.Data.Finset.Card
import Mathlib.Data.Finset.Range
import Mathlib.Logic.Function.Basic
import Mathlib.Tactic.Common

/-! # Linked lists in a store, and counting

A store maps addresses to links, `next : α → Option α`.  `Linked next p l` says that the
addresses met from the pointer `p` on are those of the list `l`, and that the walk ends there.
Such a list is unique and has no repetitions (`Linked.nodup`), so a walk along it takes as many
steps as it is long.  Writes outside the list keep it (`Linked.congr`); the writes that matter
push an address in front and unlink one from the middle (`Linked.unlink`).

`countBelow n p` counts the addresses below `n` with a property, and changes by one when the
property changes at one address. -/

namespace Vrouter.Lib

open Function

variable {α : Type}

/-- The walk from `p` along `next` meets the addresses of the list and ends. -/
def Linked (next : α → Option α) : Option α → List α → Prop
  | p, [] => p = none
  | p, a :: l => p = some a ∧ Linked next (next a) l

variable {next next' : α → Option α} {p : Option α} {l m : List α} {a : α} {n : ℕ}

theorem Linked.congr : ∀ {p : Option α} {l : List α}, Linked next p l →
    (∀ a ∈ l, next' a = next a) → Linked next' p l
  | _, [], h, _ => h
  | _, a :: l, ⟨hp, h⟩, hn => by
    refine ⟨hp, ?_⟩
    rw [hn a (by simp)]
    exact h.congr fun b hb => hn b (by simp [hb])

theorem Linked.unique : ∀ {p : Option α} {l m : List α}, Linked next p l → Linked next p m → l = m
  | _, [], [], _, _ => rfl
  | _, [], b :: m, h, ⟨hb, _⟩ => by rw [h] at hb; cases hb
  | _, a :: l, [], ⟨ha, _⟩, h => by rw [h] at ha; cases ha
  | _, a :: l, b :: m, ⟨ha, hl⟩, ⟨hb, hm⟩ => by
    rw [ha] at hb
    cases hb
    rw [hl.unique hm]

/-- From an address of the list on, the rest of the list is linked. -/
theorem Linked.tail_of_append : ∀ {p : Option α} {l m : List α}, Linked next p (l ++ a :: m) →
    Linked next (next a) m
  | _, [], _, ⟨_, h⟩ => h
  | _, _ :: _, _, ⟨_, h⟩ => h.tail_of_append

/-- The last address before a given one links to it; the list hangs off the address `h`. -/
theorem Linked.getLast_next : ∀ {h : α} {l m : List α}, Linked next (next h) (l ++ a :: m) →
    next ((h :: l).getLast (by simp)) = some a
  | _, [], _, ⟨h, _⟩ => h
  | h, b :: l, _, ⟨_, hl⟩ => by
    rw [List.getLast_cons (by simp)]
    exact hl.getLast_next

theorem Linked.head?_eq (h : Linked next p l) : p = l.head? := by
  cases l with
  | nil => exact h
  | cons b m => exact h.1

theorem Linked.nodup : ∀ {p : Option α} {l : List α}, Linked next p l → l.Nodup
  | _, [], _ => List.nodup_nil
  | _, a :: l, ⟨_, h⟩ => by
    refine List.nodup_cons.mpr ⟨fun hmem => ?_, h.nodup⟩
    -- a second visit of `a` would be followed by the same addresses once more
    obtain ⟨l₁, l₂, rfl⟩ := List.append_of_mem hmem
    have := congrArg List.length (h.unique h.tail_of_append)
    simp at this
    omega

theorem Linked.eq_nil (h : Linked next none l) : l = [] := by
  cases l with
  | nil => rfl
  | cons b m => cases h.1

/-- Unlinking: the predecessor of `e` takes over the link of `e`.  The list hangs off the address
`h`, which is the predecessor of its first element. -/
theorem Linked.unlink [DecidableEq α] {e : α} : ∀ {h : α} {pre rest : List α},
    Linked next (next h) (pre ++ e :: rest) → (h :: (pre ++ e :: rest)).Nodup →
    Linked (update next ((h :: pre).getLast (by simp)) (next e))
      (update next ((h :: pre).getLast (by simp)) (next e) h) (pre ++ rest)
  | h, [], rest, hl, hd => by
    simp only [List.getLast_singleton, List.nil_append, update_self]
    refine hl.2.congr fun b hb => update_of_ne ?_ _ _
    rintro rfl
    simp [hb] at hd
  | h, a :: pre, rest, hl, hd => by
    obtain ⟨ha, hl⟩ := hl
    have hd' := (List.nodup_cons.mp hd).2
    have ih := Linked.unlink hl hd'
    have hlast : (h :: a :: pre).getLast (by simp) = (a :: pre).getLast (by simp) :=
      List.getLast_cons (by simp)
    have hne : h ≠ (a :: pre).getLast (by simp) := by
      intro he
      have hmem := List.getLast_mem (l := a :: pre) (by simp)
      rw [← he] at hmem
      apply (List.nodup_cons.mp hd).1
      exact List.mem_append_left _ hmem
    rw [hlast, update_of_ne hne, ha]
    exact ⟨rfl, ih⟩

/-! ### Counting -/

/-- The number of addresses below `n` with the property. -/
def countBelow (n : ℕ) (p : ℕ → Bool) : ℕ := ((Finset.range n).filter fun i => p i = true).card

theorem countBelow_le (n : ℕ) (p : ℕ → Bool) : countBelow n p ≤ n := by
  unfold countBelow
  calc _ ≤ (Finset.range n).card := Finset.card_filter_le _ _
    _ = n := Finset.card_range n

theorem countBelow_congr {p q : ℕ → Bool} (h : ∀ i < n, p i = q i) :
    countBelow n p = countBelow n q := by
  unfold countBelow
  congr 1
  apply Finset.filter_congr
  intro i hi
  rw [h i (Finset.mem_range.mp hi)]

theorem countBelow_of_false {p : ℕ → Bool} (h : ∀ i < n, p i = false) :
    countBelow n p = 0 := by
  unfold countBelow
  rw [Finset.card_eq_zero, Finset.filter_eq_empty_iff]
  intro i hi
  rw [h i (Finset.mem_range.mp hi)]
  simp

/-- One more address has the property. -/
theorem countBelow_add {i : ℕ} {p q : ℕ → Bool} (hi : i < n) (hp : p i = false) (hq : q i = true)
    (h : ∀ j < n, j ≠ i → q j = p j) : countBelow n q = countBelow n p + 1 := by
  unfold countBelow
  have e : (Finset.range n).filter (fun j => q j = true) =
      insert i ((Finset.range n).filter fun j => p j = true) := by
    ext j
    simp only [Finset.mem_filter, Finset.mem_range, Finset.mem_insert]
    by_cases hj : j = i
    · subst hj; simp [hi, hq]
    · constructor
      · rintro ⟨h1, h2⟩
        exact Or.inr ⟨h1, by rw [← h j h1 hj]; exact h2⟩
      · rintro (h1 | ⟨h1, h2⟩)
        · exact absurd h1 hj
        · exact ⟨h1, by rw [h j h1 hj]; exact h2⟩
  rw [e, Finset.card_insert_of_notMem]
  simp [hp]

end Vrouter.Lib
