import Mathlib.Logic.Relation

/-!
# Transition systems

The states that a system reaches from its initial states, and the rule of the inductive invariant.
-/

namespace Transition

variable {σ : Type*} {init : σ → Prop} {step : σ → σ → Prop} {s s' : σ}

/-- The states of a run. -/
inductive Reach (init : σ → Prop) (step : σ → σ → Prop) : σ → Prop
  | init {s : σ} (h : init s) : Reach init step s
  | step {s s' : σ} (h : Reach init step s) (hs : step s s') : Reach init step s'

/-- What holds initially and is kept by every step holds in every state reached. -/
theorem Reach.invariant {Inv : σ → Prop} (h : Reach init step s) (hinit : ∀ s, init s → Inv s)
    (hstep : ∀ s s', Inv s → step s s' → Inv s') : Inv s := by
  induction h with
  | init h => exact hinit _ h
  | step _ hs ih => exact hstep _ _ ih hs

/-- What can be reached from a state of a run is a state of a run. -/
theorem Reach.run (h : Reach init step s) (hrun : Relation.ReflTransGen step s s') : Reach init step s' := by
  induction hrun with
  | refl => exact h
  | tail _ hs ih => exact ih.step hs

end Transition
