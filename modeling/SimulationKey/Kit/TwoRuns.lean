import SimulationKey.Kit.Interrupted

/-!
# Two runs under the same faults

What the outside makes of each operation, a label, is part of the run; what it
leaves open is chosen freely. One program mimics another when each run of the
one has a run of the other under the same labels, and both end alike.

* **runs** — `Traces` is a run to the end with its labels;
* **rules** — `Mimics` has one rule for each construct. A program whose every
  operation can be answered as in the other run mimics itself
  (`Mimics.of_allOps`).
-/

namespace SimulationKey.Kit.Prog

variable {Op : Type} {Resp : Op → Type} {E L α β γ δ σ τ : Type}

/-- A run to the end, with the label of each operation. -/
def Traces (may : (o : Op) → L → σ → Except E (Resp o) → σ → Prop) :
    Prog Op Resp E α → σ → List L → Except E α → σ → Prop
  | ret outcome, w, labels, r, v => labels = [] ∧ r = outcome ∧ v = w
  | op o next, w, labels, r, v => ∃ label rest a w', labels = label :: rest ∧ may o label w a w' ∧
      (next a).Traces may w' rest r v

/-- The operation, under some label. -/
def someLabel (may : (o : Op) → L → σ → Except E (Resp o) → σ → Prop) (o : Op) (w : σ)
    (r : Except E (Resp o)) (w' : σ) : Prop :=
  ∃ label, may o label w r w'

section One

variable {may : (o : Op) → L → σ → Except E (Resp o) → σ → Prop} {w v : σ} {labels : List L}
  {p : Prog Op Resp E α}

theorem Traces.ends {r : Except E α} (h : p.Traces may w labels r v) :
    p.Ends (someLabel may) w r v := by
  induction p generalizing w labels with
  | ret outcome => exact ⟨h.2.1, h.2.2⟩
  | op o next ih =>
      obtain ⟨label, rest, a, w', -, hmay, hrest⟩ := h
      exact ⟨a, w', ⟨label, hmay⟩, ih a hrest⟩

theorem traces_andThen {f : Except E α → Prog Op Resp E β} {r : Except E β} :
    (p.andThen f).Traces may w labels r v ↔ ∃ labels₁ labels₂ r' w', labels = labels₁ ++ labels₂ ∧
      p.Traces may w labels₁ r' w' ∧ (f r').Traces may w' labels₂ r v := by
  induction p generalizing w labels with
  | ret outcome =>
      constructor
      · exact fun h => ⟨[], labels, outcome, w, rfl, ⟨rfl, rfl, rfl⟩, h⟩
      · rintro ⟨labels₁, labels₂, r', w', rfl, ⟨rfl, rfl, rfl⟩, h⟩
        exact h
  | op o next ih =>
      constructor
      · rintro ⟨label, rest, a, w', rfl, hmay, hrest⟩
        obtain ⟨labels₁, labels₂, r', w'', rfl, hfirst, hsecond⟩ := (ih a).1 hrest
        exact ⟨label :: labels₁, labels₂, r', w'', rfl, ⟨label, labels₁, a, w', rfl, hmay, hfirst⟩,
          hsecond⟩
      · rintro ⟨-, labels₂, r', w'', rfl, ⟨label, labels₁, a, w', rfl, hmay, hfirst⟩, hsecond⟩
        exact ⟨label, labels₁ ++ labels₂, a, w', rfl, hmay,
          (ih a).2 ⟨labels₁, labels₂, r', w'', rfl, hfirst, hsecond⟩⟩

end One

/-! ## Outcomes -/

/-- Both returned, with values as `V` says, or both raised the same. -/
inductive Outcomes (V : α → β → Prop) : Except E α → Except E β → Prop where
  | ok {a : α} {b : β} (h : V a b) : Outcomes V (.ok a) (.ok b)
  | error (e : E) : Outcomes V (.error e) (.error e)

theorem Outcomes.mono {V V' : α → β → Prop} {r₁ : Except E α} {r₂ : Except E β}
    (h : Outcomes V r₁ r₂) (hV : ∀ a b, V a b → V' a b) : Outcomes V' r₁ r₂ := by
  cases h with
  | ok h => exact .ok (hV _ _ h)
  | error e => exact .error e

theorem Outcomes.refl (r : Except E α) : Outcomes Eq r r := by
  cases r with
  | ok a => exact .ok rfl
  | error e => exact .error e

theorem Outcomes.eq {r₁ r₂ : Except E α} (h : Outcomes Eq r₁ r₂) : r₂ = r₁ := by
  cases h with
  | ok h => rw [h]
  | error e => rfl

/-! ## Mimicking -/

section Two

variable {may₁ : (o : Op) → L → σ → Except E (Resp o) → σ → Prop}
  {may₂ : (o : Op) → L → τ → Except E (Resp o) → τ → Prop}

/-- However `p₁` ends, `p₂` may end under the same labels, with outcomes as `V`
and states as `S` say. -/
def Mimics (may₁ : (o : Op) → L → σ → Except E (Resp o) → σ → Prop)
    (may₂ : (o : Op) → L → τ → Except E (Resp o) → τ → Prop) (S : σ → τ → Prop) (V : α → β → Prop)
    (p₁ : Prog Op Resp E α) (w₁ : σ) (p₂ : Prog Op Resp E β) (w₂ : τ) : Prop :=
  ∀ labels r₁ v₁, p₁.Traces may₁ w₁ labels r₁ v₁ →
    ∃ r₂ v₂, p₂.Traces may₂ w₂ labels r₂ v₂ ∧ Outcomes V r₁ r₂ ∧ S v₁ v₂

variable {S S' : σ → τ → Prop} {V : α → β → Prop} {W : γ → δ → Prop} {w₁ : σ} {w₂ : τ}
  {p₁ : Prog Op Resp E α} {p₂ : Prog Op Resp E β}

theorem Mimics.mono {V' : α → β → Prop} (h : Mimics may₁ may₂ S V p₁ w₁ p₂ w₂)
    (hS : ∀ v₁ v₂, S v₁ v₂ → S' v₁ v₂) (hV : ∀ a b, V a b → V' a b) :
    Mimics may₁ may₂ S' V' p₁ w₁ p₂ w₂ := by
  intro labels r₁ v₁ hrun
  obtain ⟨r₂, v₂, hrun₂, hV₂, hS₂⟩ := h labels r₁ v₁ hrun
  exact ⟨r₂, v₂, hrun₂, hV₂.mono hV, hS v₁ v₂ hS₂⟩

theorem Mimics.ret {r₁ : Except E α} {r₂ : Except E β} (hS : S w₁ w₂) (hr : Outcomes V r₁ r₂) :
    Mimics may₁ may₂ S V (.ret r₁) w₁ (.ret r₂) w₂ := by
  rintro labels r v ⟨rfl, rfl, rfl⟩
  exact ⟨r₂, w₂, ⟨rfl, rfl, rfl⟩, hr, hS⟩

theorem Mimics.perform (o₁ o₂ : Op) {V : Resp o₁ → Resp o₂ → Prop}
    (h : ∀ label r₁ v₁, may₁ o₁ label w₁ r₁ v₁ →
      ∃ r₂ v₂, may₂ o₂ label w₂ r₂ v₂ ∧ Outcomes V r₁ r₂ ∧ S v₁ v₂) :
    Mimics may₁ may₂ S V (perform o₁) w₁ (perform o₂) w₂ := by
  rintro labels r₁ v₁ ⟨label, rest, a, w', rfl, hmay, rfl, rfl, rfl⟩
  obtain ⟨r₂, v₂, hmay₂, hV, hS⟩ := h label r₁ v₁ hmay
  exact ⟨r₂, v₂, ⟨label, [], r₂, v₂, rfl, hmay₂, rfl, rfl, rfl⟩, hV, hS⟩

theorem Mimics.andThen {f₁ : Except E α → Prog Op Resp E γ} {f₂ : Except E β → Prog Op Resp E δ}
    (hp : Mimics may₁ may₂ S V p₁ w₁ p₂ w₂)
    (hf : ∀ r₁ r₂ v₁ v₂, Outcomes V r₁ r₂ → S v₁ v₂ →
      Mimics may₁ may₂ S' W (f₁ r₁) v₁ (f₂ r₂) v₂) :
    Mimics may₁ may₂ S' W (p₁.andThen f₁) w₁ (p₂.andThen f₂) w₂ := by
  intro labels r₁ v₁ hrun
  obtain ⟨labels₁, labels₂, r, w, rfl, hfirst, hsecond⟩ := traces_andThen.1 hrun
  obtain ⟨r', w', hfirst', hV, hS⟩ := hp labels₁ r w hfirst
  obtain ⟨r₂, v₂, hsecond', hW, hS'⟩ := hf r r' w w' hV hS labels₂ r₁ v₁ hsecond
  exact ⟨r₂, v₂, traces_andThen.2 ⟨labels₁, labels₂, r', w', rfl, hfirst', hsecond'⟩, hW, hS'⟩

theorem Mimics.bind {f₁ : α → Prog Op Resp E γ} {f₂ : β → Prog Op Resp E δ}
    (hp : Mimics may₁ may₂ S V p₁ w₁ p₂ w₂) (hS : ∀ v₁ v₂, S v₁ v₂ → S' v₁ v₂)
    (hf : ∀ a b v₁ v₂, V a b → S v₁ v₂ → Mimics may₁ may₂ S' W (f₁ a) v₁ (f₂ b) v₂) :
    Mimics may₁ may₂ S' W (p₁ >>= f₁) w₁ (p₂ >>= f₂) w₂ := by
  refine hp.andThen fun r₁ r₂ v₁ v₂ hr hv => ?_
  cases hr with
  | ok h => exact hf _ _ v₁ v₂ h hv
  | error e => exact .ret (hS v₁ v₂ hv) (.error e)

theorem Mimics.tryCatch {handler₁ : E → Prog Op Resp E α} {handler₂ : E → Prog Op Resp E β}
    (hp : Mimics may₁ may₂ S V p₁ w₁ p₂ w₂)
    (hhandler : ∀ e v₁ v₂, S v₁ v₂ → Mimics may₁ may₂ S V (handler₁ e) v₁ (handler₂ e) v₂) :
    Mimics may₁ may₂ S V (p₁.tryCatch handler₁) w₁ (p₂.tryCatch handler₂) w₂ := by
  refine hp.andThen fun r₁ r₂ v₁ v₂ hr hv => ?_
  cases hr with
  | ok h => exact .ret hv (.ok h)
  | error e => exact hhandler e v₁ v₂ hv

theorem Mimics.ensuring {cleanup₁ cleanup₂ : Prog Op Resp E Unit}
    (hp : Mimics may₁ may₂ S V p₁ w₁ p₂ w₂)
    (hcleanup : ∀ v₁ v₂, S v₁ v₂ → Mimics may₁ may₂ S Eq cleanup₁ v₁ cleanup₂ v₂) :
    Mimics may₁ may₂ S V (p₁.ensuring cleanup₁) w₁ (p₂.ensuring cleanup₂) w₂ := by
  refine hp.andThen fun r₁ r₂ v₁ v₂ hr hv => (hcleanup v₁ v₂ hv).andThen fun u₁ u₂ v₁' v₂' hu hv' => ?_
  cases hu with
  | ok h => exact .ret hv' hr
  | error e => exact .ret hv' (.error e)

/-- A program whose operations can be answered as in the other run. -/
theorem Mimics.of_allOps {p : Prog Op Resp E α}
    (hops : p.AllOps fun o => ∀ label w₁ w₂ r v₁, S w₁ w₂ → may₁ o label w₁ r v₁ →
      ∃ v₂, may₂ o label w₂ r v₂ ∧ S v₁ v₂) (hS : S w₁ w₂) :
    Mimics may₁ may₂ S Eq p w₁ p w₂ := by
  induction p generalizing w₁ w₂ with
  | ret outcome => exact .ret hS (.refl outcome)
  | op o next ih =>
      rintro labels r₁ v₁ ⟨label, rest, a, w', rfl, hmay, hrest⟩
      obtain ⟨w₂', hmay₂, hS'⟩ := hops.1 label w₁ w₂ a w' hS hmay
      obtain ⟨r₂, v₂, hrest₂, hr, hv⟩ := ih a (hops.2 a) hS' rest r₁ v₁ hrest
      exact ⟨r₂, v₂, ⟨label, rest, a, w₂', rfl, hmay₂, hrest₂⟩, hr, hv⟩

end Two

end SimulationKey.Kit.Prog
