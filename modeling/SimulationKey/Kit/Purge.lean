import Mathlib.Data.List.Basic

/-!
# Runs seen by one party

A system of several parties, as one of them sees its states. Where the steps of
the party are steps of what it sees, and those of the others change nothing of it,
the party's steps of a run are a run by themselves: the others might not be there.
-/

namespace SimulationKey.Kit

variable {σ τ ε : Type}

/-- A run by labelled steps. -/
inductive Steps (step : σ → ε → σ → Prop) : σ → List ε → σ → Prop
  | nil (s : σ) : Steps step s [] s
  | cons {s s' s'' : σ} {e : ε} {es : List ε} (h : step s e s') (hrest : Steps step s' es s'') :
      Steps step s (e :: es) s''

/-- What is to be shown of one step: the invariant is kept, the party's steps are
steps of its view and the others' leave the view. -/
structure Unwinding (step : σ → ε → σ → Prop) (alone : τ → ε → τ → Prop) (inv : σ → Prop)
    (view : σ → τ) (mine : ε → Bool) : Prop where
  kept : ∀ s e s', inv s → step s e s' → inv s'
  own : ∀ s e s', inv s → step s e s' → mine e = true → alone (view s) e (view s')
  others : ∀ s e s', inv s → step s e s' → mine e = false → view s' = view s

theorem Unwinding.purge {step : σ → ε → σ → Prop} {alone : τ → ε → τ → Prop} {inv : σ → Prop}
    {view : σ → τ} {mine : ε → Bool} (h : Unwinding step alone inv view mine) {s s' : σ}
    {es : List ε} (hs : inv s) (hrun : Steps step s es s') :
    Steps alone (view s) (es.filter mine) (view s') := by
  induction hrun with
  | nil s => exact .nil (view s)
  | @cons s s₁ s₂ e es hstep hrest ih =>
      have hrun := ih (h.kept s e s₁ hs hstep)
      cases hmine : mine e with
      | true =>
          rw [List.filter_cons_of_pos hmine]
          exact .cons (h.own s e s₁ hs hstep hmine) hrun
      | false =>
          rw [List.filter_cons_of_neg (by simp [hmine]), ← h.others s e s₁ hs hstep hmine]
          exact hrun

end SimulationKey.Kit
