import Mathlib.Tactic.Common

/-! # Computations that may fail

`Ends E p Q` says how a computation may end: with a result that satisfies `Q`, or with an error
that satisfies `E`; `Returns p Q` allows no error.  There is one rule for each way to build a
computation. -/

namespace Vrouter.Lib

variable {ε α β σ : Type} {f : α → Except ε β} {R : β → Prop} {a : α}

/-- The computation ends with a result in `Q` or with an error in `E`. -/
def Ends (E : ε → Prop) (p : Except ε α) (Q : α → Prop) : Prop :=
  match p with
  | .ok a => Q a
  | .error e => E e

/-- The computation ends with a result, and it is in `Q`. -/
abbrev Returns (p : Except ε α) (Q : α → Prop) : Prop := Ends (fun _ => False) p Q

theorem ok_bind (a : α) (f : α → Except ε β) : (Except.ok a >>= f) = f a := rfl

namespace Ends

variable {E : ε → Prop} {Q Q' : α → Prop} {p : Except ε α}

theorem bind (hp : Ends E p Q) (hf : ∀ a, Q a → Ends E (f a) R) :
    Ends E (p >>= f) R := by
  match p with
  | .ok a => exact hf a hp
  | .error e => exact hp

/-- A step whose result is known. -/
theorem bind_ok (hp : p = .ok a) (hf : Ends E (f a) R) :
    Ends E (p >>= f) R := by
  subst hp
  exact hf

theorem mono (hp : Ends E p Q) (h : ∀ a, Q a → Q' a) : Ends E p Q' := by
  match p with
  | .ok a => exact h a hp
  | .error e => exact hp

theorem ite {c : Prop} [Decidable c] {p' : Except ε α} (hp : c → Ends E p Q)
    (hp' : ¬ c → Ends E p' Q) : Ends E (if c then p else p') Q := by
  split_ifs with hc
  · exact hp hc
  · exact hp' hc

/-- A result is one that satisfies what every result does. -/
theorem of_ok (hp : Ends E p Q) (h : p = .ok a) : Q a := by
  subst h
  exact hp

/-- A computation without errors has a result. -/
theorem exists_ok (hp : Returns p Q) : ∃ a, p = .ok a ∧ Q a := by
  match p, hp with
  | .ok a, ha => exact ⟨a, rfl, ha⟩

/-- Two things that are known of the results. -/
theorem and {E' : ε → Prop} (hp : Ends E p Q) (hp' : Ends E' p Q') :
    Ends E p (fun a => Q a ∧ Q' a) := by
  match p with
  | .ok a => exact ⟨hp, hp'⟩
  | .error e => exact hp

/-- A computation without errors ends whatever errors are allowed. -/
theorem weaken (hp : Returns p Q) : Ends E p Q := by
  obtain ⟨a, rfl, ha⟩ := hp.exists_ok
  exact ha

/-- What is known of the results, whatever the errors. -/
theorem results (hp : Ends E p Q) : Ends (fun _ => True) p Q := by
  match p with
  | .ok a => exact hp
  | .error e => trivial

theorem triv (p : Except ε α) : Ends (fun _ => True) p (fun _ => True) := by
  match p with
  | .ok a => trivial
  | .error e => trivial

/-- A loop over a list keeps what each round keeps. -/
theorem foldlM {f : σ → β → Except ε σ} {I : List β → σ → Prop}
    (hf : ∀ b rest s, I (b :: rest) s → Ends E (f s b) (I rest)) :
    ∀ (l : List β) (s : σ), I l s → Ends E (l.foldlM f s) (I [])
  | [], _, h => h
  | b :: rest, s, h => bind (hf b rest s h) fun s' h' => foldlM hf rest s' h'

end Ends

end Vrouter.Lib
