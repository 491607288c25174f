import SimulationKey.Kit.Program

/-!
# Programs that are cut off

A process may die between any two of its operations: nothing of its program runs
any more, its handlers and cleanups included, and what it has done stays.

* **runs** — `Ends` is a run to the program's end, `Visits` a run up to any state
  on the way, the end included;
* **rules** — `Upholds` is the triple for both: an assertion of every state on the
  way and one of the end, with one rule for each construct.
-/

namespace SimulationKey.Kit.Prog

variable {Op : Type} {Resp : Op → Type} {E α β σ : Type}
  (may : (o : Op) → σ → Except E (Resp o) → σ → Prop)

/-- A run to the end. -/
def Ends : Prog Op Resp E α → σ → Except E α → σ → Prop
  | ret outcome, w, r, v => r = outcome ∧ v = w
  | op o next, w, r, v => ∃ a w', may o w a w' ∧ (next a).Ends w' r v

/-- A run to a state that the program passes. -/
def Visits : Prog Op Resp E α → σ → σ → Prop
  | ret _, w, v => v = w
  | op o next, w, v => v = w ∨ ∃ a w', may o w a w' ∧ (next a).Visits w' v

/-- `P` at every state, `Q` at the end. -/
def Upholds (P : σ → Prop) : Prog Op Resp E α → σ → (Except E α → σ → Prop) → Prop
  | ret outcome, w, Q => P w ∧ Q outcome w
  | op o next, w, Q => P w ∧ ∀ r w', may o w r w' → (next r).Upholds P w' Q

variable {may} {P : σ → Prop} {Q : Except E α → σ → Prop} {R : Except E β → σ → Prop} {w v : σ}
  {p : Prog Op Resp E α}

theorem Upholds.visits (h : p.Upholds may P w Q) (hvisits : p.Visits may w v) : P v := by
  induction p generalizing w with
  | ret outcome =>
      obtain rfl : v = w := hvisits
      exact h.1
  | op o next ih =>
      rcases hvisits with rfl | ⟨a, w', hmay, hrest⟩
      · exact h.1
      · exact ih a (h.2 a w' hmay) hrest

theorem Upholds.ends (h : p.Upholds may P w Q) {r : Except E α} (hends : p.Ends may w r v) :
    Q r v := by
  induction p generalizing w with
  | ret outcome =>
      obtain ⟨rfl, rfl⟩ := hends
      exact h.2
  | op o next ih =>
      obtain ⟨a, w', hmay, hrest⟩ := hends
      exact ih a (h.2 a w' hmay) hrest

theorem Upholds.mono {Q' : Except E α → σ → Prop} (h : p.Upholds may P w Q)
    (hQ : ∀ r w', Q r w' → Q' r w') : p.Upholds may P w Q' := by
  induction p generalizing w with
  | ret outcome => exact ⟨h.1, hQ outcome w h.2⟩
  | op o next ih => exact ⟨h.1, fun r w' hmay => ih r (h.2 r w' hmay)⟩

theorem Upholds.perform {o : Op} {Q : Except E (Resp o) → σ → Prop} (hP : P w)
    (h : ∀ r w', may o w r w' → P w' ∧ Q r w') : (perform o).Upholds may P w Q :=
  ⟨hP, h⟩

theorem Upholds.andThen {f : Except E α → Prog Op Resp E β} (hp : p.Upholds may P w Q)
    (hf : ∀ r w', Q r w' → (f r).Upholds may P w' R) : (p.andThen f).Upholds may P w R := by
  induction p generalizing w with
  | ret outcome => exact hf outcome w hp.2
  | op o next ih => exact ⟨hp.1, fun r w' hmay => ih r (hp.2 r w' hmay)⟩

theorem Upholds.bind {f : α → Prog Op Resp E β} (hp : p.Upholds may P w Q)
    (hok : ∀ a w', Q (.ok a) w' → (f a).Upholds may P w' R)
    (herror : ∀ e w', Q (.error e) w' → P w' ∧ R (.error e) w') :
    (p >>= f).Upholds may P w R := by
  refine hp.andThen fun r w' hr => ?_
  cases r with
  | ok a => exact hok a w' hr
  | error e => exact herror e w' hr

theorem Upholds.tryCatch {Q' : Except E α → σ → Prop} {handler : E → Prog Op Resp E α}
    (hp : p.Upholds may P w Q) (hok : ∀ a w', Q (.ok a) w' → P w' ∧ Q' (.ok a) w')
    (herror : ∀ e w', Q (.error e) w' → (handler e).Upholds may P w' Q') :
    (p.tryCatch handler).Upholds may P w Q' := by
  refine hp.andThen fun r w' hr => ?_
  cases r with
  | ok a => exact hok a w' hr
  | error e => exact herror e w' hr

/-- What the cleanup raises replaces the outcome. -/
theorem Upholds.ensuring {Q' : Except E α → σ → Prop} {cleanup : Prog Op Resp E Unit}
    (hp : p.Upholds may P w Q)
    (hcleanup : ∀ r w', Q r w' → cleanup.Upholds may P w' fun u w'' =>
      P w'' ∧ (u = .ok () → Q' r w'') ∧ ∀ e, u = .error e → Q' (.error e) w'') :
    (p.ensuring cleanup).Upholds may P w Q' := by
  refine hp.andThen fun r w' hr => (hcleanup r w' hr).andThen fun u w'' hu => ?_
  cases u with
  | ok a => exact ⟨hu.1, hu.2.1 rfl⟩
  | error e => exact ⟨hu.1, hu.2.2 e rfl⟩

/-- What the cleanup leaves, whatever either raises. -/
theorem Upholds.ensuring_always {A : σ → Prop} {cleanup : Prog Op Resp E Unit}
    (hp : p.Upholds may P w Q)
    (hcleanup : ∀ r w', Q r w' → cleanup.Upholds may P w' fun _ w'' => P w'' ∧ A w'') :
    (p.ensuring cleanup).Upholds may P w fun _ => A :=
  hp.ensuring fun r w' hr => (hcleanup r w' hr).mono fun _ _ hA =>
    ⟨hA.1, fun _ => hA.2, fun _ _ => hA.2⟩

/-- A run alone, seen through `view`. -/
theorem Ends.of_run {τ : Type} {step : (o : Op) → τ → Option (Except E (Resp o) × τ)}
    (view : τ → σ) (hstep : ∀ o s r s', step o s = some (r, s') → may o (view s) r (view s'))
    {s s' : τ} {r : Except E α} (hrun : p.run step s = some (r, s')) :
    p.Ends may (view s) r (view s') := by
  induction p generalizing s with
  | ret outcome =>
      obtain ⟨rfl, rfl⟩ := Prod.mk.inj (Option.some.inj hrun)
      exact ⟨rfl, rfl⟩
  | op o next ih =>
      rw [run] at hrun
      cases hop : step o s with
      | none => simp [hop] at hrun
      | some x =>
          rw [hop] at hrun
          exact ⟨x.1, view x.2, hstep o s x.1 x.2 hop, ih x.1 hrun⟩

/-- An assertion that the program's operations keep. -/
theorem Upholds.of_allOps {A : σ → Prop}
    (hops : p.AllOps fun o => ∀ w r w', A w → may o w r w' → A w') (hAP : ∀ w, A w → P w)
    (hA : A w) : p.Upholds may P w fun _ => A := by
  induction p generalizing w with
  | ret outcome => exact ⟨hAP w hA, hA⟩
  | op o next ih =>
      exact ⟨hAP w hA, fun r w' hmay => ih r (hops.2 r) (hops.1 w r w' hA hmay)⟩

end SimulationKey.Kit.Prog
