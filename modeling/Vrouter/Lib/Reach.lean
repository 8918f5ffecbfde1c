import Mathlib.Data.Option.Basic
import Mathlib.Tactic.Common

/-! # Runs of a transition system

A system is given by what one event does to a state: `step s e` is the next state, or `none` when
the event cannot happen there.  `Reach step P s₀ s` says that a run leads from `s₀` to `s` in which
every event meets the condition `P` in the state before it.  An invariant is proved once, for one
step (`Reach.invariant`); a concrete run is given by the list of its events (`Reach.of_runWhen`). -/

namespace Vrouter.Lib

variable {σ ε : Type} {step : σ → ε → Option σ} {P Q : σ → ε → Prop} {s₀ s s' : σ}

/-- The states that runs reach whose events all meet the condition. -/
inductive Reach (step : σ → ε → Option σ) (P : σ → ε → Prop) (s₀ : σ) : σ → Prop
  | init : Reach step P s₀ s₀
  | step {s s' : σ} (e : ε) (h : Reach step P s₀ s) (hp : P s e) (hs : step s e = some s') :
      Reach step P s₀ s'

/-- **Invariants of runs**: what holds at first, and is kept by every step that meets the
condition, holds in every state reached. -/
theorem Reach.invariant {I : σ → Prop} (h₀ : I s₀)
    (hstep : ∀ s e s', I s → P s e → step s e = some s' → I s') (h : Reach step P s₀ s) : I s := by
  induction h with
  | init => exact h₀
  | step e _ hp hs ih => exact hstep _ e _ ih hp hs

/-- The events of a list one after the other, as long as they meet the condition. -/
def runWhen (step : σ → ε → Option σ) (P : σ → ε → Prop) [∀ s e, Decidable (P s e)] :
    List ε → σ → Option σ
  | [], s => some s
  | e :: es, s => if P s e then (step s e).bind (runWhen step P es) else none

theorem Reach.of_runWhen [∀ s e, Decidable (P s e)] : ∀ {es : List ε} {s s' : σ},
    Reach step P s₀ s → runWhen step P es s = some s' → Reach step P s₀ s'
  | [], s, s', h, hr => by
    cases hr
    exact h
  | e :: es, s, s', h, hr => by
    simp only [runWhen] at hr
    split_ifs at hr with hp
    obtain ⟨s₁, hs₁, hr⟩ := Option.bind_eq_some_iff.mp hr
    exact (h.step e hp hs₁).of_runWhen hr

/-- A property that is decided in the last state of a concrete run. -/
theorem exists_of_decide {last : Option σ} {I : σ → Prop} [DecidablePred I]
    (h : last.any (fun s => decide (I s)) = true) : ∃ s, last = some s ∧ I s := by
  obtain ⟨s, hs, hi⟩ := (Option.any_eq_true _ _).1 h
  exact ⟨s, hs, of_decide_eq_true hi⟩

end Vrouter.Lib
