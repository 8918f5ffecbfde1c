import Mathlib.Algebra.Order.BigOperators.Group.Finset
import Mathlib.Data.List.Count
import Vrouter.Lib.Sum

/-! # Reference counts

Objects own references to other objects and count the references to themselves.  The references to
an object are those of its roots, those that other objects own, and the *loose* ones, which a
running operation has taken from one place and not yet put into another.  `Balanced` says that every
count is the number of references.  The operations of a reference-counted store are moves of single
references, and each has its lemma here. -/

namespace Vrouter.Lib

open Function

variable {ι : Type} [DecidableEq ι]

/-- How many references to `p` the objects of `a` own. -/
def ownedRefs (a : Finset ι) (owns : ι → List ι) (p : ι) : ℕ := ∑ q ∈ a, (owns q).count p

/-- Every count is the number of references: from roots, from other objects, and loose ones. -/
def Balanced (a : Finset ι) (users roots : ι → ℕ) (owns : ι → List ι) (loose : List ι) : Prop :=
  ∀ p, users p = roots p + ownedRefs a owns p + loose.count p

namespace Balanced

variable {a : Finset ι} {users users' roots roots' : ι → ℕ} {owns owns' : ι → List ι}
  {loose loose' : List ι} {p q : ι}

/-- A loose reference is dropped. -/
theorem drop (h : Balanced a users roots owns (p :: loose)) (hp : users' p = users p - 1)
    (hne : ∀ r, r ≠ p → users' r = users r) : Balanced a users' roots owns loose := by
  intro r
  have hr := h r
  by_cases hrp : r = p
  · subst hrp
    rw [List.count_cons_self] at hr
    omega
  · rw [List.count_cons_of_ne (Ne.symm hrp)] at hr
    rw [hne r hrp]
    omega

variable (h : Balanced a users roots owns loose)
include h

/-- An object that is referred to has a positive count. -/
theorem pos (hp : p ∈ loose) : 0 < users p := by
  have hcount := List.count_pos_iff.mpr hp
  have := h p
  omega

theorem root_le (p : ι) : roots p ≤ users p := by
  have := h p
  omega

/-- One reference is taken. -/
theorem take (hp : users' p = users p + 1)
    (hne : ∀ r, r ≠ p → users' r = users r) : Balanced a users' roots owns (p :: loose) := by
  intro r
  have hr := h r
  by_cases hrp : r = p
  · subst hrp
    rw [List.count_cons_self]
    omega
  · rw [List.count_cons_of_ne (Ne.symm hrp), hne r hrp]
    omega

/-- References move between one object and the loose ones. -/
theorem move (hq : q ∈ a) (hne : ∀ r, r ≠ q → owns' r = owns r)
    (hcount : ∀ p, (owns' q).count p + loose'.count p = (owns q).count p + loose.count p) :
    Balanced a users roots owns' loose' := by
  intro r
  have hsum := sum_change (fun q => (owns q).count r) (fun q => (owns' q).count r) hq
    (fun j hj => by rw [hne j hj])
  have := h r
  have := hcount r
  unfold ownedRefs at *
  omega

/-- References move between the roots and the loose ones. -/
theorem moveRoots (hcount : ∀ p, roots' p + loose'.count p = roots p + loose.count p) :
    Balanced a users roots' owns loose' := by
  intro r
  have := h r
  have := hcount r
  omega

theorem congr (hu : ∀ r, users' r = users r)
    (ho : ∀ r ∈ a, owns' r = owns r) : Balanced a users' roots owns' loose := by
  intro r
  have hsum : ownedRefs a owns' r = ownedRefs a owns r :=
    Finset.sum_congr rfl fun j hj => by rw [ho j hj]
  rw [hu r, hsum]
  exact h r

end Balanced

end Vrouter.Lib
