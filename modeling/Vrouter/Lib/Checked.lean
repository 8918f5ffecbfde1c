import Vrouter.Lib.Words

/-! # Computations that read a buffer

A computation on a buffer that may return early, and that stops when it reads outside of the buffer
or when a loop of it goes on for more rounds than it was given.  `InBounds p Q` says that neither
happens to `p` and that its result, if there is one, satisfies `Q`; `Ensures p Q` says the second
alone, and `Succeeds p Q` that there is such a result; `Alike R p p'` says that two computations end
in the same way, with results related by `R`.  Each has a rule for every way to build a computation,
so proofs follow the computations step by step. -/

namespace Vrouter.Lib

/-- How a computation ends without a result: it returns early, it reads outside of the buffer, or
a loop runs out of rounds. -/
inductive Stop (ρ : Type) where
  | ret (r : ρ)
  | oob
  | rounds
  deriving DecidableEq, Repr

/-- A computation that reads a buffer. -/
abbrev Checked (ρ α : Type) := Except (Stop ρ) α

variable {ρ α β γ δ : Type} {f : α → Checked ρ β} {c : Prop} {a : α}

/-- Return early. -/
def leave (r : ρ) : Checked ρ α := .error (.ret r)

def readU8 (va : List Byte) (i : ℕ) : Checked ρ ℕ :=
  if i + 1 ≤ va.length then .ok (u8 va i) else .error .oob

def readLe16 (va : List Byte) (i : ℕ) : Checked ρ ℕ :=
  if i + 2 ≤ va.length then .ok (le16 va i) else .error .oob

def readLe32 (va : List Byte) (i : ℕ) : Checked ρ ℕ :=
  if i + 4 ≤ va.length then .ok (le32 va i) else .error .oob

def writeU8 (va : List Byte) (i x : ℕ) : Checked ρ (List Byte) :=
  if i + 1 ≤ va.length then .ok (va.set i (Fin.ofNat 256 x)) else .error .oob

/-! ### No read outside of the buffer -/

/-- The computation ends and stays inside the buffer, and its result satisfies `Q`. -/
def InBounds (p : Checked ρ α) (Q : α → Prop) : Prop :=
  match p with
  | .ok a => Q a
  | .error (.ret _) => True
  | .error .oob => False
  | .error .rounds => False

namespace InBounds

variable {Q Q' : α → Prop} {p p' : Checked ρ α} {va : List Byte} {i : ℕ}

theorem pure (h : Q a) : InBounds (Pure.pure a : Checked ρ α) Q := h

theorem leave (r : ρ) : InBounds (Lib.leave r : Checked ρ α) Q := trivial

theorem bind {R : β → Prop} (hp : InBounds p Q) (hf : ∀ a, Q a → InBounds (f a) R) :
    InBounds (p >>= f) R := by
  match p with
  | .ok a => exact hf a hp
  | .error (.ret _) => trivial

theorem mono (hp : InBounds p Q) (h : ∀ a, Q a → Q' a) : InBounds p Q' := by
  match p with
  | .ok a => exact h a hp
  | .error (.ret _) => trivial

theorem ite [Decidable c] (hp : c → InBounds p Q) (hp' : ¬ c → InBounds p' Q) :
    InBounds (if c then p else p') Q := by
  split_ifs with hc
  · exact hp hc
  · exact hp' hc

theorem result (hp : InBounds p Q) : InBounds p (fun a => Q a ∧ p = .ok a) := by
  match p with
  | .ok a => exact ⟨hp, rfl⟩
  | .error (.ret _) => trivial

theorem of_bind {R : β → Prop} (h : InBounds (p >>= f) R) :
    InBounds p (fun a => InBounds (f a) R) := by
  match p with
  | .ok a => exact h
  | .error (.ret _) => trivial

theorem of_readLe16 {Q : ℕ → Prop} (h : InBounds (Lib.readLe16 va i : Checked ρ ℕ) Q) :
    i + 2 ≤ va.length ∧ Q (le16 va i) := by
  by_cases hlen : i + 2 ≤ va.length
  · rw [Lib.readLe16, if_pos hlen] at h
    exact ⟨hlen, h⟩
  · rw [Lib.readLe16, if_neg hlen] at h
    exact h.elim

theorem of_readLe32 {Q : ℕ → Prop} (h : InBounds (Lib.readLe32 va i : Checked ρ ℕ) Q) :
    i + 4 ≤ va.length ∧ Q (le32 va i) := by
  by_cases hlen : i + 4 ≤ va.length
  · rw [Lib.readLe32, if_pos hlen] at h
    exact ⟨hlen, h⟩
  · rw [Lib.readLe32, if_neg hlen] at h
    exact h.elim

theorem readU8 (h : i + 1 ≤ va.length) :
    InBounds (Lib.readU8 va i : Checked ρ ℕ) (fun x => x = u8 va i) := by
  rw [Lib.readU8, if_pos h]
  rfl

theorem readLe16 (h : i + 2 ≤ va.length) :
    InBounds (Lib.readLe16 va i : Checked ρ ℕ) (fun x => x = le16 va i) := by
  rw [Lib.readLe16, if_pos h]
  rfl

theorem readLe32 (h : i + 4 ≤ va.length) :
    InBounds (Lib.readLe32 va i : Checked ρ ℕ) (fun x => x = le32 va i) := by
  rw [Lib.readLe32, if_pos h]
  rfl

end InBounds

/-! ### A result -/

/-- The result of the computation, if there is one, satisfies `Q`. -/
def Ensures (p : Checked ρ α) (Q : α → Prop) : Prop := ∀ a, p = .ok a → Q a

namespace Ensures

variable {Q : α → Prop} {p p' : Checked ρ α} {va : List Byte} {i : ℕ}

theorem pure (h : Q a) : Ensures (Pure.pure a : Checked ρ α) Q := by
  intro b hb
  obtain rfl := Except.ok.inj hb
  exact h

theorem bind {R : β → Prop} (hp : Ensures p Q) (hf : ∀ a, Q a → Ensures (f a) R) :
    Ensures (p >>= f) R := by
  match p with
  | .ok a => exact hf a (hp a rfl)
  | .error _ =>
    intro b hb
    cases hb

theorem mono {Q' : α → Prop} (hp : Ensures p Q) (h : ∀ a, Q a → Q' a) : Ensures p Q' :=
  fun a ha => h a (hp a ha)

theorem ite [Decidable c] (hp : c → Ensures p Q) (hp' : ¬ c → Ensures p' Q) :
    Ensures (if c then p else p') Q := by
  split_ifs with hc
  · exact hp hc
  · exact hp' hc

theorem readU8 : Ensures (Lib.readU8 va i : Checked ρ ℕ) (fun x => x = u8 va i) := by
  intro x hx
  unfold Lib.readU8 at hx
  split_ifs at hx
  exact (Except.ok.inj hx).symm

theorem readLe16 : Ensures (Lib.readLe16 va i : Checked ρ ℕ) (fun x => x = le16 va i) := by
  intro x hx
  unfold Lib.readLe16 at hx
  split_ifs at hx
  exact (Except.ok.inj hx).symm

end Ensures

/-- The computation has a result, and it satisfies `Q`. -/
def Succeeds (p : Checked ρ α) (Q : α → Prop) : Prop := ∃ a, p = .ok a ∧ Q a

namespace Succeeds

variable {Q : α → Prop} {p p' : Checked ρ α} {va : List Byte} {i : ℕ}

theorem pure (h : Q a) : Succeeds (Pure.pure a : Checked ρ α) Q := ⟨a, rfl, h⟩

theorem bind {R : β → Prop} (hp : Succeeds p Q) (hf : ∀ a, Q a → Succeeds (f a) R) :
    Succeeds (p >>= f) R := by
  obtain ⟨a, rfl, ha⟩ := hp
  exact hf a ha

theorem ite [Decidable c] (hp : c → Succeeds p Q) (hp' : ¬ c → Succeeds p' Q) :
    Succeeds (if c then p else p') Q := by
  split_ifs with hc
  · exact hp hc
  · exact hp' hc

theorem readU8 (h : i + 1 ≤ va.length) :
    Succeeds (Lib.readU8 va i : Checked ρ ℕ) (fun x => x = u8 va i) := ⟨_, if_pos h, rfl⟩

theorem readLe16 (h : i + 2 ≤ va.length) :
    Succeeds (Lib.readLe16 va i : Checked ρ ℕ) (fun x => x = le16 va i) := ⟨_, if_pos h, rfl⟩

end Succeeds

/-! ### Two computations -/

/-- Two computations end in the same way, and their results are related. -/
def Alike (R : α → β → Prop) (p : Checked ρ α) (p' : Checked ρ β) : Prop :=
  match p, p' with
  | .ok a, .ok b => R a b
  | .error e, .error e' => e = e'
  | _, _ => False

namespace Alike

variable {R : α → β → Prop} {S : γ → δ → Prop} {lo hi : ℕ} {va va' : List Byte}

theorem of_eq {p p' : Checked ρ α} (h : p = p') : Alike Eq p p' := by
  subst h
  cases p <;> rfl

theorem pure {b : β} (h : R a b) :
    Alike R (Pure.pure a : Checked ρ α) (Pure.pure b : Checked ρ β) := h

theorem leave (r : ρ) : Alike R (Lib.leave r : Checked ρ α) (Lib.leave r : Checked ρ β) := rfl

theorem bind {p : Checked ρ α} {p' : Checked ρ β} {f : α → Checked ρ γ} {f' : β → Checked ρ δ}
    (hp : Alike R p p') (hf : ∀ a b, R a b → Alike S (f a) (f' b)) :
    Alike S (p >>= f) (p' >>= f') := by
  match p, p', hp with
  | .ok a, .ok b, hp => exact hf a b hp
  | .error _, .error _, hp => exact hp

theorem result {p : Checked ρ α} {p' : Checked ρ β} (h : Alike R p p') :
    Alike (fun a b => R a b ∧ p = .ok a) p p' := by
  match p, p', h with
  | .ok a, .ok b, h => exact ⟨h, rfl⟩
  | .error _, .error _, h => exact h

theorem mono {p : Checked ρ α} {p' : Checked ρ β} {R' : α → β → Prop} (h : Alike R p p')
    (hR : ∀ a b, R a b → R' a b) : Alike R' p p' := by
  match p, p', h with
  | .ok a, .ok b, h => exact hR a b h
  | .error _, .error _, h => exact h

theorem of_ok {p' : Checked ρ β} (h : Alike R (.ok a : Checked ρ α) p') :
    ∃ b, p' = .ok b ∧ R a b := by
  match p', h with
  | .ok b, h => exact ⟨b, rfl, h⟩

theorem of_bind_pure {p : Checked ρ α} {p' : Checked ρ β} {g : α → γ} {g' : β → δ}
    (h : Alike S (p >>= fun a => Pure.pure (g a)) (p' >>= fun b => Pure.pure (g' b))) :
    Alike (fun a b => S (g a) (g' b)) p p' := by
  match p, p' with
  | .ok a, .ok b => exact h
  | .error _, .error _ => exact h

theorem symm {p : Checked ρ α} {p' : Checked ρ β} (h : Alike R p p') :
    Alike (fun b a => R a b) p' p := by
  match p, p', h with
  | .ok a, .ok b, h => exact h
  | .error _, .error _, h => exact Eq.symm h

theorem ite [Decidable c] {p q : Checked ρ α} {p' q' : Checked ρ β} (hp : c → Alike R p p')
    (hq : ¬ c → Alike R q q') :
    Alike R (if c then p else q) (if c then p' else q') := by
  split_ifs with hc
  · exact hp hc
  · exact hq hc

theorem readU8 (h : SameOutside lo hi va va') {i : ℕ} (hi : i < lo ∨ hi ≤ i) :
    Alike Eq (Lib.readU8 va i : Checked ρ ℕ) (Lib.readU8 va' i) := by
  apply of_eq
  rw [Lib.readU8, Lib.readU8, h.length, h.bytes i hi]

theorem readLe16 (h : SameOutside lo hi va va') {i : ℕ} (hi : i + 1 < lo ∨ hi ≤ i) :
    Alike Eq (Lib.readLe16 va i : Checked ρ ℕ) (Lib.readLe16 va' i) := by
  apply of_eq
  rw [Lib.readLe16, Lib.readLe16, h.length, h.le16 hi]

end Alike

end Vrouter.Lib
