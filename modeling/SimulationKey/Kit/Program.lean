import Mathlib

/-!
# Effect programs

A program that awaits operations, as a tree: it has ended with a value or an
exception, or it performs an operation and goes on with its outcome. Control
flow is defined on outcomes, as in a language with exceptions:

* **sequencing** — `bind` goes on after a value and passes an exception on;
* **handlers** — `tryCatch` goes on after an exception, `ensuring` runs a second
  program after either and keeps the first one's outcome.

`run` executes a program alone, each operation having one outcome. Where
operations may end in several ways, `Always` says what holds of every end, with
one rule for each of the above.
-/

namespace SimulationKey.Kit

/-- A program over operations `Op` with exceptions `E`. -/
inductive Prog (Op : Type) (Resp : Op → Type) (E α : Type) where
  | ret (outcome : Except E α)
  | op (o : Op) (next : Except E (Resp o) → Prog Op Resp E α)

namespace Prog

variable {Op : Type} {Resp : Op → Type} {E α β σ τ : Type}

/-- Go on with the outcome of a program. -/
def andThen : Prog Op Resp E α → (Except E α → Prog Op Resp E β) → Prog Op Resp E β
  | ret outcome, f => f outcome
  | op o next, f => op o fun r => (next r).andThen f

def bind (p : Prog Op Resp E α) (f : α → Prog Op Resp E β) : Prog Op Resp E β :=
  p.andThen fun
    | .ok a => f a
    | .error e => ret (.error e)

def tryCatch (p : Prog Op Resp E α) (handler : E → Prog Op Resp E α) : Prog Op Resp E α :=
  p.andThen fun
    | .ok a => ret (.ok a)
    | .error e => handler e

/-- `try: p finally: cleanup`. An exception of the cleanup replaces `p`'s outcome. -/
def ensuring (p : Prog Op Resp E α) (cleanup : Prog Op Resp E Unit) : Prog Op Resp E α :=
  p.andThen fun outcome => cleanup.andThen fun
    | .ok _ => ret outcome
    | .error e => ret (.error e)

instance : Monad (Prog Op Resp E) where
  pure a := ret (.ok a)
  bind := bind

/-- One operation. -/
def perform (o : Op) : Prog Op Resp E (Resp o) := op o ret

def raise (e : E) : Prog Op Resp E α := ret (.error e)

@[simp] theorem pure_def (a : α) : (pure a : Prog Op Resp E α) = ret (.ok a) := rfl

theorem bind_def (p : Prog Op Resp E α) (f : α → Prog Op Resp E β) :
    p >>= f = p.andThen fun
      | .ok a => f a
      | .error e => ret (.error e) := rfl

@[simp] theorem ret_ok_bind (a : α) (f : α → Prog Op Resp E β) :
    (ret (.ok a) : Prog Op Resp E α) >>= f = f a := rfl

@[simp] theorem ret_error_bind (e : E) (f : α → Prog Op Resp E β) :
    (ret (.error e) : Prog Op Resp E α) >>= f = ret (.error e) := rfl

/-! ## The operations of a program -/

/-- Every operation the program can reach satisfies `P`. -/
def AllOps (P : Op → Prop) : Prog Op Resp E α → Prop
  | ret _ => True
  | op o next => P o ∧ ∀ r, (next r).AllOps P

variable {P : Op → Prop}

theorem AllOps.mono {Q : Op → Prop} {p : Prog Op Resp E α} (h : p.AllOps P)
    (hPQ : ∀ o, P o → Q o) : p.AllOps Q := by
  induction p with
  | ret outcome => trivial
  | op o next ih => exact ⟨hPQ o h.1, fun r => ih r (h.2 r)⟩

theorem AllOps.always {p : Prog Op Resp E α} (h : ∀ o, P o) : p.AllOps P := by
  induction p with
  | ret outcome => trivial
  | op o next ih => exact ⟨h o, ih⟩

theorem AllOps.andThen {p : Prog Op Resp E α} {f : Except E α → Prog Op Resp E β}
    (hp : p.AllOps P) (hf : ∀ r, (f r).AllOps P) : (p.andThen f).AllOps P := by
  induction p with
  | ret outcome => exact hf outcome
  | op o next ih => exact ⟨hp.1, fun r => ih r (hp.2 r)⟩

theorem AllOps.bind {p : Prog Op Resp E α} {f : α → Prog Op Resp E β} (hp : p.AllOps P)
    (hf : ∀ a, (f a).AllOps P) : (p >>= f).AllOps P := by
  refine hp.andThen fun r => ?_
  cases r with
  | ok a => exact hf a
  | error e => trivial

theorem AllOps.tryCatch {p : Prog Op Resp E α} {handler : E → Prog Op Resp E α}
    (hp : p.AllOps P) (hhandler : ∀ e, (handler e).AllOps P) :
    (p.tryCatch handler).AllOps P := by
  refine hp.andThen fun r => ?_
  cases r with
  | ok a => trivial
  | error e => exact hhandler e

theorem AllOps.ensuring {p : Prog Op Resp E α} {cleanup : Prog Op Resp E Unit}
    (hp : p.AllOps P) (hcleanup : cleanup.AllOps P) : (p.ensuring cleanup).AllOps P := by
  refine hp.andThen fun outcome => hcleanup.andThen fun r => ?_
  cases r with
  | ok u => trivial
  | error e => trivial

theorem AllOps.perform {o : Op} (h : P o) : (perform o : Prog Op Resp E (Resp o)).AllOps P :=
  ⟨h, fun _ => trivial⟩

/-! ## Running alone -/

section Run

variable (step : (o : Op) → σ → Option (Except E (Resp o) × σ))

/-- Run a program to its end, `none` where an operation cannot go on. -/
def run : Prog Op Resp E α → σ → Option (Except E α × σ)
  | ret outcome, w => some (outcome, w)
  | op o next, w =>
    match step o w with
    | none => none
    | some (r, w') => (next r).run w'

end Run

/-! ## Every way to run -/

section Always

variable (may : (o : Op) → σ → Except E (Resp o) → σ → Prop)

/-- However its operations end, and each can, the program ends as `Q` says of
its outcome and of the state it leaves. -/
def Always : Prog Op Resp E α → σ → (Except E α → σ → Prop) → Prop
  | ret outcome, w, Q => Q outcome w
  | op o next, w, Q =>
    (∃ r w', may o w r w') ∧ ∀ r w', may o w r w' → (next r).Always w' Q

variable {may} {Q : Except E α → σ → Prop} {R : Except E β → σ → Prop} {w : σ}

theorem Always.mono {Q' : Except E α → σ → Prop} {p : Prog Op Resp E α} (h : Always may p w Q)
    (hQ : ∀ r w', Q r w' → Q' r w') : Always may p w Q' := by
  induction p generalizing w with
  | ret outcome => exact hQ outcome w h
  | op o next ih => exact ⟨h.1, fun r w' hmay => ih r (h.2 r w' hmay)⟩

/-- A run whose operations end as they may. -/
theorem Always.of_run {step : (o : Op) → σ → Option (Except E (Resp o) × σ)}
    (hstep : ∀ o w r w', step o w = some (r, w') → may o w r w') {p : Prog Op Resp E α}
    (h : Always may p w Q) {r : Except E α} {w' : σ} (hrun : p.run step w = some (r, w')) :
    Q r w' := by
  induction p generalizing w with
  | ret outcome =>
      obtain ⟨rfl, rfl⟩ := Prod.mk.inj (Option.some.inj hrun)
      exact h
  | op o next ih =>
      rw [run] at hrun
      cases hop : step o w with
      | none => simp [hop] at hrun
      | some x =>
          rw [hop] at hrun
          exact ih x.1 (h.2 x.1 x.2 (hstep o w x.1 x.2 hop)) hrun

/-- A run alone, seen through `view`, where each operation can only end as that
run has it. -/
theorem Always.exists_run {step : (o : Op) → τ → Option (Except E (Resp o) × τ)} (view : σ → τ)
    (inv : σ → Prop)
    (hstep : ∀ o s r s', inv s → may o s r s' → inv s' ∧ step o (view s) = some (r, view s'))
    {p : Prog Op Resp E α} {s : σ} (h : Always may p s Q) (hinv : inv s) :
    ∃ r s', p.run step (view s) = some (r, view s') ∧ inv s' ∧ Q r s' := by
  induction p generalizing s with
  | ret outcome => exact ⟨outcome, s, rfl, hinv, h⟩
  | op o next ih =>
      obtain ⟨r, s', hmay⟩ := h.1
      obtain ⟨hinv', hop⟩ := hstep o s r s' hinv hmay
      obtain ⟨r', s'', hrun, hQ⟩ := ih r (h.2 r s' hmay) hinv'
      refine ⟨r', s'', ?_, hQ⟩
      rw [run, hop]
      exact hrun

theorem Always.andThen {p : Prog Op Resp E α} {f : Except E α → Prog Op Resp E β}
    (hp : Always may p w Q) (hf : ∀ r w', Q r w' → Always may (f r) w' R) :
    Always may (p.andThen f) w R := by
  induction p generalizing w with
  | ret outcome => exact hf outcome w hp
  | op o next ih => exact ⟨hp.1, fun r w' hmay => ih r (hp.2 r w' hmay)⟩

theorem Always.bind {p : Prog Op Resp E α} {f : α → Prog Op Resp E β} (hp : Always may p w Q)
    (hok : ∀ a w', Q (.ok a) w' → Always may (f a) w' R)
    (herror : ∀ e w', Q (.error e) w' → R (.error e) w') : Always may (p >>= f) w R := by
  refine hp.andThen fun r w' hr => ?_
  cases r with
  | ok a => exact hok a w' hr
  | error e => exact herror e w' hr

theorem Always.tryCatch {Q' : Except E α → σ → Prop} {p : Prog Op Resp E α}
    {handler : E → Prog Op Resp E α} (hp : Always may p w Q)
    (hok : ∀ a w', Q (.ok a) w' → Q' (.ok a) w')
    (herror : ∀ e w', Q (.error e) w' → Always may (handler e) w' Q') :
    Always may (p.tryCatch handler) w Q' := by
  refine hp.andThen fun r w' hr => ?_
  cases r with
  | ok a => exact hok a w' hr
  | error e => exact herror e w' hr

/-- After the program its cleanup runs; what the cleanup raises replaces the
outcome. -/
theorem Always.ensuring {Q' : Except E α → σ → Prop} {p : Prog Op Resp E α}
    {cleanup : Prog Op Resp E Unit} (hp : Always may p w Q)
    (hcleanup : ∀ r w', Q r w' → Always may cleanup w' fun u w'' =>
      match u with
      | .ok _ => Q' r w''
      | .error e => Q' (.error e) w'') :
    Always may (p.ensuring cleanup) w Q' := by
  refine hp.andThen fun r w' hr => (hcleanup r w' hr).andThen fun u w'' hu => ?_
  cases u with
  | ok a => exact hu
  | error e => exact hu

theorem Always.perform {o : Op} {Q : Except E (Resp o) → σ → Prop} (hcan : ∃ r w', may o w r w')
    (h : ∀ r w', may o w r w' → Q r w') : Always may (perform o) w Q :=
  ⟨hcan, h⟩

end Always

end Prog

end SimulationKey.Kit
