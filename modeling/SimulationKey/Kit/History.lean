import SimulationKey.Kit.Knowledge

/-!
# Histories of runs

What happened in a run, as a list, for properties of more than one state: how
often something was done, or in what order.

* **tasks** — what a task was answered (`answers`) leads its program to what is
  left of it (`Prog.After`, `Runs.program`).
* **calls** — a program that has come to `q.andThen k` is calling `q`; once `q`
  has returned, its triple's postcondition holds (`Sound.called`).
-/

namespace SimulationKey.Kit

variable {Op : Type} {Resp : Op → Type} {E α β : Type}

/-! ## What is left of a program -/

namespace Prog

/-- An operation and its outcome. -/
abbrev Answer (Op : Type) (Resp : Op → Type) (E : Type) : Type := (o : Op) × Except E (Resp o)

/-- What is left of a program after answers to its first operations. -/
inductive After : Prog Op Resp E α → List (Answer Op Resp E) → Prog Op Resp E α → Prop where
  | refl (p : Prog Op Resp E α) : After p [] p
  | op {o : Op} {next : Except E (Resp o) → Prog Op Resp E α} {r : Except E (Resp o)}
      {h : List (Answer Op Resp E)} {q : Prog Op Resp E α} (rest : After (next r) h q) :
      After (.op o next) (⟨o, r⟩ :: h) q

variable {p q : Prog Op Resp E α} {h h' : List (Answer Op Resp E)}

theorem After.snoc {o : Op} {next : Except E (Resp o) → Prog Op Resp E α}
    (hp : After p h (.op o next)) (r : Except E (Resp o)) : After p (h ++ [⟨o, r⟩]) (next r) := by
  generalize hq : Prog.op o next = q at hp
  induction hp with
  | refl p =>
      subst hq
      exact .op (.refl _)
  | op _ ih => exact .op (ih hq)

theorem After.trans {r : Prog Op Resp E α} (hp : After p h q) (hq : After q h' r) :
    After p (h ++ h') r := by
  induction hp with
  | refl p => exact hq
  | op _ ih => exact .op (ih hq)

theorem After.unique {q' : Prog Op Resp E α} (hp : After p h q) (hp' : After p h q') : q = q' := by
  induction hp with
  | refl p =>
      cases hp'
      rfl
  | op _ ih =>
      cases hp' with
      | op rest => exact ih rest

/-- The answers of a prefix lead to where the rest starts. -/
theorem After.of_append (hp : After p (h ++ h') q) : ∃ m, After p h m ∧ After m h' q := by
  induction h generalizing p with
  | nil => exact ⟨p, .refl p, hp⟩
  | cons x h ih =>
      cases hp with
      | op rest =>
          obtain ⟨m, hm, hq⟩ := ih rest
          exact ⟨m, .op hm, hq⟩

theorem After.andThen {f : Except E α → Prog Op Resp E β} (hp : After p h q) :
    After (p.andThen f) h (q.andThen f) := by
  induction hp with
  | refl p => exact .refl _
  | op _ ih => exact .op ih

/-- The operations left are among the program's. -/
theorem AllOps.after {P : Op → Prop} (hops : p.AllOps P) (hp : After p h q) : q.AllOps P := by
  induction hp with
  | refl p => exact hops
  | op _ ih => exact ih (hops.2 _)

/-- The operations answered are the program's. -/
theorem AllOps.answered {P : Op → Prop} (hops : p.AllOps P) (hp : After p h q) :
    ∀ x ∈ h, P x.1 := by
  induction hp with
  | refl p => exact fun _ hx => absurd hx List.not_mem_nil
  | op _ ih =>
      intro x hx
      rcases List.mem_cons.mp hx with rfl | hx
      · exact hops.1
      · exact ih (hops.2 _) x hx

/-! ### Calls -/

theorem andThen_assoc {γ : Type} (p : Prog Op Resp E α) (f : Except E α → Prog Op Resp E β)
    (g : Except E β → Prog Op Resp E γ) :
    (p.andThen f).andThen g = p.andThen fun r => (f r).andThen g := by
  induction p with
  | ret outcome => rfl
  | op o next ih => exact congrArg (Prog.op o) (funext fun r => ih r)

/-- The program comes to a call of `q`, with `k` to follow. -/
def Calls (p : Prog Op Resp E α) (q : Prog Op Resp E β) (k : Except E β → Prog Op Resp E α) :
    Prop := ∃ h, p.After h (q.andThen k)

variable {o : Op} {first : Except E (Resp o) → Prog Op Resp E β}
  {k : Except E β → Prog Op Resp E α}

/-- A call is to come only where its first operation is. -/
theorem not_calls (hp : p.AllOps (· ≠ o)) : ¬ p.Calls (.op o first) k := by
  rintro ⟨h, hafter⟩
  exact (hp.after hafter).1 rfl

/-- A call after a program without its first operation. -/
theorem Calls.of_andThen {γ : Type} {p : Prog Op Resp E γ} {f : Except E γ → Prog Op Resp E α}
    (hp : p.AllOps (· ≠ o)) (h : (p.andThen f).Calls (.op o first) k) :
    ∃ r, (f r).Calls (.op o first) k := by
  obtain ⟨h, hafter⟩ := h
  induction p generalizing h with
  | ret outcome => exact ⟨outcome, h, hafter⟩
  | op o' next ih =>
      cases h with
      | nil =>
          -- the call is its first operation
          have heq := hafter.unique (.refl _)
          exact absurd (Prog.op.inj heq).1.symm hp.1
      | cons x h =>
          cases hafter with
          | op rest => exact ih _ (hp.2 _) h rest

end Prog

/-! ## Runs with their histories -/

namespace System

variable (s : System Op Resp E)

inductive Happening where
  | entered (t : Nat) (e : s.Entry)
  | performed (t : Nat) (o : Op) (r : Except E (Resp o))
  | aborted (t : Nat)
  | event (e : s.Event)

/-- What happens at a labelled step. -/
def happening : Label s → Config s → List (Happening s)
  | .enter t e, _ => [.entered t e]
  | .step t choice, c =>
    match c.tasks t with
    | .running (.op o _) =>
      ((s.exec choice t o c.world).map fun x => Happening.performed t o x.1).toList
    | _ => []
  | .abort t, _ => [.aborted t]
  | .event e, _ => [.event e]

/-- Runs with what happened in them. What may come next may depend on it. -/
inductive Runs (allowed : List (Happening s) → Config s → Label s → Prop) (c : Config s) :
    List (Happening s) → Config s → Prop where
  | refl : Runs allowed c [] c
  | tail {h : List (Happening s)} {c' c'' : Config s} {l : Label s} (run : Runs allowed c h c')
      (ok : allowed h c' l) (step : s.next l c' = some c'') :
      Runs allowed c (h ++ s.happening l c') c''

variable {s} {allowed : List (Happening s) → Config s → Label s → Prop} {c c' c'' : Config s}
  {h h' : List (Happening s)}

theorem Runs.reaches (hrun : s.Runs allowed c h c') :
    s.Reaches (fun c l => ∃ h, allowed h c l) c c' := by
  induction hrun with
  | refl => exact .refl
  | tail _ ok step ih => exact ih.tail ⟨_, ok⟩ step

theorem Runs.mono {allowed' : List (Happening s) → Config s → Label s → Prop}
    (hrun : s.Runs allowed c h c') (hle : ∀ h c l, allowed h c l → allowed' h c l) :
    s.Runs allowed' c h c' := by
  induction hrun with
  | refl => exact .refl
  | tail _ ok step ih => exact ih.tail (hle _ _ _ ok) step

/-- What the whole history says of a step may be used of it. -/
theorem Runs.mono_history {allowed' : List (Happening s) → Config s → Label s → Prop}
    (hrun : s.Runs allowed c h c')
    (hle : ∀ h₀ c l, h₀ <+: h → allowed h₀ c l → allowed' h₀ c l) : s.Runs allowed' c h c' := by
  induction hrun with
  | refl => exact .refl
  | @tail h c₁ c₂ l run ok step ih =>
      have hinit := List.prefix_append h (s.happening l c₁)
      exact (ih fun h₀ c l h₀h => hle h₀ c l (h₀h.trans hinit)).tail (hle _ _ _ hinit ok) step

theorem Runs.trans {allowed : Config s → Label s → Prop}
    (hrun : s.Runs (fun _ => allowed) c h c') (hrun' : s.Runs (fun _ => allowed) c' h' c'') :
    s.Runs (fun _ => allowed) c (h ++ h') c'' := by
  induction hrun' with
  | refl => rwa [List.append_nil]
  | tail _ ok step ih =>
      rw [← List.append_assoc]
      exact ih.tail ok step

/-- The history of a schedule. -/
def historyOf : List (Label s) → Config s → List (Happening s)
  | [], _ => []
  | l :: rest, c => s.happening l c ++ ((s.next l c).map (historyOf rest)).getD []

/-- A run whose steps are allowed whatever came before. -/
theorem runs_of_runAll {ok : Config s → Label s → Bool} {schedule : List (Label s)}
    (hrun : runAll ok schedule c = some c') :
    s.Runs (fun _ c l => ok c l = true) c (historyOf schedule c) c' := by
  suffices hgen : ∀ (schedule : List (Label s)) (h : List (Happening s)) (c₁ : Config s),
      s.Runs (fun _ c l => ok c l = true) c h c₁ → runAll ok schedule c₁ = some c' →
        s.Runs (fun _ c l => ok c l = true) c (h ++ historyOf schedule c₁) c' from
    hgen schedule [] c .refl hrun
  intro schedule
  induction schedule with
  | nil =>
      intro h c₁ hc₁ hend
      obtain rfl := Option.some.inj hend
      simpa [historyOf] using hc₁
  | cons l rest ih =>
      intro h c₁ hc₁ hend
      rw [runAll] at hend
      split_ifs at hend with hok
      obtain ⟨c₂, hnext, hrest⟩ := Option.bind_eq_some_iff.mp hend
      have hall := ih _ c₂ (hc₁.tail hok hnext) hrest
      rwa [List.append_assoc, ← show historyOf (l :: rest) c₁ =
        s.happening l c₁ ++ historyOf rest c₂ by simp [historyOf, hnext]] at hall

/-! ## Tasks -/

/-- What a task was answered. -/
def answers (t : Nat) (h : List (Happening s)) : List (Prog.Answer Op Resp E) :=
  h.filterMap fun
    | .performed t' o r => if t' = t then some ⟨o, r⟩ else none
    | _ => none

theorem answers_append (t : Nat) : answers t (h ++ h') = answers t h ++ answers t h' :=
  List.filterMap_append

theorem mem_answers {t : Nat} {o : Op} {r : Except E (Resp o)} :
    ⟨o, r⟩ ∈ answers t h ↔ Happening.performed t o r ∈ h := by
  constructor
  · intro hmem
    obtain ⟨x, hx, heq⟩ := List.mem_filterMap.mp hmem
    cases x with
    | performed t' o' r' =>
        simp only at heq
        split_ifs at heq with ht
        obtain ⟨rfl, hr⟩ := Sigma.mk.inj (Option.some.inj heq)
        obtain rfl := eq_of_heq hr
        exact ht ▸ hx
    | entered | aborted | event => cases heq
  · intro hmem
    exact List.mem_filterMap.mpr ⟨_, hmem, by simp⟩

/-- A step of another task tells this one nothing. -/
theorem answers_happening {t : Nat} {l : Label s} (hl : ∀ choice, l ≠ .step t choice) :
    answers t (s.happening l c) = [] := by
  cases l with
  | enter | abort | event => rfl
  | step t' choice =>
      have hne : t' ≠ t := by
        rintro rfl
        exact hl choice rfl
      simp only [happening]
      split
      · cases hexec : s.exec choice t' _ c.world with
        | none => rfl
        | some x => simp [answers, hne]
      · rfl

/-- What has become of a running task. -/
theorem program_of_next {t : Nat} {p : Prog Op Resp E Unit} {l : Label s}
    (htask : c.tasks t = .running p) (hnext : s.next l c = some c') :
    c'.tasks t = .stopped ∨
      ∃ q, c'.tasks t = .running q ∧ p.After (answers t (s.happening l c)) q := by
  have hother : ∀ {w t' task}, t' ≠ t → (c.set w t' task).tasks t = .running p := fun hne => by
    simpa [Config.set, Function.update_of_ne (Ne.symm hne)] using htask
  cases l with
  | enter t' e =>
      right
      simp only [next] at hnext
      split at hnext
      · rename_i hidle
        obtain ⟨x, -, rfl⟩ := Option.map_eq_some_iff.mp hnext
        refine ⟨p, hother ?_, .refl p⟩
        rintro rfl
        rw [htask] at hidle
        cases hidle
      · cases hnext
  | step t' choice =>
      right
      by_cases ht : t' = t
      · subst ht
        simp only [next, htask] at hnext
        cases p with
        | ret outcome => cases hnext
        | op o k =>
            obtain ⟨x, hx, rfl⟩ := Option.map_eq_some_iff.mp hnext
            refine ⟨k x.1, by simp [Config.set], ?_⟩
            simpa [happening, htask, hx, answers] using Prog.After.op (.refl (k x.1))
      · rw [answers_happening fun choice' heq => ht (Label.step.inj heq).1]
        simp only [next] at hnext
        split at hnext
        · obtain ⟨x, -, rfl⟩ := Option.map_eq_some_iff.mp hnext
          exact ⟨p, hother ht, .refl p⟩
        · cases hnext
  | abort t' =>
      simp only [next] at hnext
      split at hnext
      · obtain rfl := Option.some.inj hnext
        by_cases ht : t' = t
        · exact Or.inl (by simp [Config.set, ht])
        · exact Or.inr ⟨p, hother ht, .refl p⟩
      · cases hnext
  | event e =>
      obtain rfl := Option.some.inj hnext
      exact Or.inr ⟨p, htask, .refl p⟩

theorem stopped_of_next {t : Nat} {l : Label s} (htask : c.tasks t = .stopped)
    (hnext : s.next l c = some c') : c'.tasks t = .stopped := by
  have hother : ∀ {w t' task}, t' ≠ t → (c.set w t' task).tasks t = .stopped := fun hne => by
    simpa [Config.set, Function.update_of_ne (Ne.symm hne)] using htask
  cases l with
  | enter t' e | step t' choice | abort t' =>
      simp only [next] at hnext
      split at hnext
      · rename_i hslot
        have hne : t' ≠ t := by
          rintro rfl
          rw [htask] at hslot
          cases hslot
        first
          | obtain ⟨x, -, rfl⟩ := Option.map_eq_some_iff.mp hnext
            exact hother hne
          | obtain rfl := Option.some.inj hnext
            exact hother hne
      · cases hnext
  | event e =>
      obtain rfl := Option.some.inj hnext
      exact htask

/-- A task stops where it is cut off. -/
theorem stopped_cases {t : Nat} {l : Label s} (hnext : s.next l c = some c')
    (hstopped : c'.tasks t = .stopped) : c.tasks t = .stopped ∨ l = .abort t := by
  have hother : ∀ {w t' task}, task ≠ .stopped → (c.set w t' task).tasks t = .stopped →
      c.tasks t = .stopped := by
    intro w t' task htask h
    by_cases ht : t' = t
    · subst ht
      exact absurd (by simpa [Config.set] using h) htask
    · simpa [Config.set, Function.update_of_ne (Ne.symm ht)] using h
  cases l with
  | enter t' e | step t' choice =>
      simp only [next] at hnext
      split at hnext
      · obtain ⟨x, -, rfl⟩ := Option.map_eq_some_iff.mp hnext
        exact Or.inl (hother (by simp) hstopped)
      · cases hnext
  | abort t' =>
      simp only [next] at hnext
      split at hnext
      · obtain rfl := Option.some.inj hnext
        by_cases ht : t' = t
        · exact Or.inr (by rw [ht])
        · exact Or.inl (by simpa [Config.set, Function.update_of_ne (Ne.symm ht)] using hstopped)
      · cases hnext
  | event e =>
      obtain rfl := Option.some.inj hnext
      exact Or.inl hstopped

/-- Whoever performs an operation goes on running. -/
theorem running_of_performed {t : Nat} {o : Op} {r : Except E (Resp o)} {l : Label s}
    (hnext : s.next l c = some c') (hperformed : .performed t o r ∈ s.happening l c) :
    ∃ p, c'.tasks t = .running p := by
  cases l with
  | enter | abort | event => cases List.mem_singleton.mp hperformed
  | step t' choice =>
      simp only [happening] at hperformed
      split at hperformed
      · rename_i o' k htask
        simp only [Option.mem_toList, Option.map_eq_some_iff] at hperformed
        obtain ⟨x, hx, heq⟩ := hperformed
        obtain ⟨rfl, -, -⟩ := Happening.performed.inj heq
        simp only [next, htask, hx, Option.map_some, Option.some.injEq] at hnext
        exact ⟨k x.1, by simp [← hnext, Config.set]⟩
      · exact absurd hperformed List.not_mem_nil

/-- A running task is cut off, or has gone on as it was answered. -/
theorem Runs.program {t : Nat} {p : Prog Op Resp E Unit} (htask : c.tasks t = .running p)
    (hrun : s.Runs allowed c h c') :
    c'.tasks t = .stopped ∨ ∃ q, c'.tasks t = .running q ∧ p.After (answers t h) q := by
  induction hrun with
  | refl => exact Or.inr ⟨p, htask, .refl p⟩
  | tail _ _ step ih =>
      rcases ih with hstopped | ⟨q, hq, hafter⟩
      · exact Or.inl (stopped_of_next hstopped step)
      · rcases program_of_next hq step with hstopped | ⟨q', hq', hafter'⟩
        · exact Or.inl hstopped
        · exact Or.inr ⟨q', hq', answers_append t ▸ hafter.trans hafter'⟩

/-- Where a running task comes from. -/
theorem Runs.origin {t : Nat} {p : Prog Op Resp E Unit} (hrun : s.Runs allowed c h c')
    (hidle : c.tasks t = .idle) (htask : c'.tasks t = .running p) :
    ∃ h₀ c₀ e w p₀ a, allowed h₀ c₀ (.enter t e) ∧ s.enter e c₀.world = some (w, p₀) ∧
      p₀.After a p := by
  induction hrun generalizing p with
  | refl =>
      rw [hidle] at htask
      cases htask
  | @tail h c₁ c₂ l run ok step ih =>
      cases hslot : c₁.tasks t with
      | stopped =>
          rw [stopped_of_next hslot step] at htask
          cases htask
      | running q =>
          obtain ⟨h₀, c₀, e, w, p₀, a, hok, henter, hafter⟩ := ih hslot
          rcases program_of_next hslot step with hstopped | ⟨q', hq', hafter'⟩
          · rw [hstopped] at htask
            cases htask
          · obtain rfl := Task.running.inj (hq'.symm.trans htask)
            exact ⟨h₀, c₀, e, w, p₀, _, hok, henter, hafter.trans hafter'⟩
      | idle =>
          have hother : ∀ {w t' task}, t' ≠ t → (c₁.set w t' task).tasks t = .idle := fun hne => by
            simpa [Config.set, Function.update_of_ne (Ne.symm hne)] using hslot
          cases l with
          | enter t' e =>
              simp only [next] at step
              split at step
              · obtain ⟨x, hx, rfl⟩ := Option.map_eq_some_iff.mp step
                by_cases ht : t' = t
                · subst ht
                  have hp : Task.running x.2 = .running p := by simpa [Config.set] using htask
                  obtain rfl := Task.running.inj hp
                  exact ⟨h, c₁, e, x.1, x.2, [], ok, hx, .refl _⟩
                · rw [hother ht] at htask
                  cases htask
              · cases step
          | step t' choice | abort t' =>
              simp only [next] at step
              split at step
              · rename_i hslot'
                have hne : t' ≠ t := by
                  rintro rfl
                  rw [hslot] at hslot'
                  cases hslot'
                first
                  | obtain ⟨x, -, rfl⟩ := Option.map_eq_some_iff.mp step
                    rw [hother hne] at htask
                    cases htask
                  | obtain rfl := Option.some.inj step
                    rw [hother hne] at htask
                    cases htask
              · cases step
          | event e =>
              obtain rfl := Option.some.inj step
              rw [hslot] at htask
              cases htask

/-- A single step of a task. -/
theorem runs_step {choice : s.Choice} {t : Nat} {o : Op} {k : Except E (Resp o) → Prog Op Resp E Unit}
    {r : Except E (Resp o)} {w : s.World} (hallowed : ∀ h c, allowed h c (.step t choice))
    (htask : c.tasks t = .running (.op o k)) (hexec : s.exec choice t o c.world = some (r, w)) :
    ∃ c', s.Runs allowed c [.performed t o r] c' ∧ c'.world = w ∧
      c'.tasks t = .running (k r) := by
  have hnext : s.next (.step t choice) c = some (c.set w t (.running (k r))) := by
    simp [System.next, htask, hexec]
  have hhappening : s.happening (.step t choice) c = [.performed t o r] := by
    simp [happening, htask, hexec]
  have hstart : s.Runs allowed c [] c := .refl
  have hrun := hstart.tail (hallowed [] c) hnext
  rw [hhappening] at hrun
  exact ⟨_, hrun, rfl, by simp [Config.set]⟩

/-- A called program run without interruption, each of its operations ending as
`choice` has it. -/
theorem runs_of_run {choice : s.Choice} {t : Nat} {q : Prog Op Resp E α}
    {k : Except E α → Prog Op Resp E Unit} {r : Except E α} {w : s.World}
    (hallowed : ∀ h c, allowed h c (.step t choice)) (htask : c.tasks t = .running (q.andThen k))
    (hrun : q.run (fun o w => s.exec choice t o w) c.world = some (r, w)) :
    ∃ h, s.Runs allowed c h (c.set w t (.running (k r))) ∧ q.After (answers t h) (.ret r) ∧
      ∀ x ∈ h, ∃ o r, x = .performed t o r := by
  suffices hgen : ∀ (q : Prog Op Resp E α) (h₀ : List (Happening s)) (w₁ : s.World),
      s.Runs allowed c h₀ (c.set w₁ t (.running (q.andThen k))) →
        q.run (fun o w => s.exec choice t o w) w₁ = some (r, w) →
          ∃ h, s.Runs allowed c (h₀ ++ h) (c.set w t (.running (k r))) ∧
            q.After (answers t h) (.ret r) ∧ ∀ x ∈ h, ∃ o r, x = .performed t o r by
    refine hgen q [] c.world ?_ hrun
    have hsame : c.set c.world t (.running (q.andThen k)) = c := by
      rw [Config.set, ← htask, Function.update_eq_self]
    rw [hsame]
    exact .refl
  intro q
  induction q with
  | ret outcome =>
      intro h₀ w₁ hstart hend
      obtain ⟨rfl, rfl⟩ := Prod.mk.inj (Option.some.inj hend)
      exact ⟨[], by rwa [List.append_nil], .refl _, fun _ hx => absurd hx List.not_mem_nil⟩
  | op o next ih =>
      intro h₀ w₁ hstart hend
      rw [Prog.run] at hend
      cases hexec : s.exec choice t o w₁ with
      | none => simp [hexec] at hend
      | some x =>
          rw [hexec] at hend
          have hslot : (c.set w₁ t (.running ((Prog.op o next).andThen k))).tasks t =
              .running (.op o fun r => (next r).andThen k) := by simp [Config.set, Prog.andThen]
          have hnext : s.next (.step t choice)
              (c.set w₁ t (.running ((Prog.op o next).andThen k))) =
                some (c.set x.2 t (.running ((next x.1).andThen k))) := by
            simp only [System.next, hslot]
            simp [Config.set, hexec]
          have hhappening : s.happening (.step t choice)
              (c.set w₁ t (.running ((Prog.op o next).andThen k))) = [.performed t o x.1] := by
            simp only [happening, hslot]
            simp [Config.set, hexec]
          have hrun := hstart.tail (hallowed _ _) hnext
          rw [hhappening] at hrun
          obtain ⟨h, hruns, hafter, hperformed⟩ := ih x.1 _ _ hrun hend
          refine ⟨.performed t o x.1 :: h, by simpa using hruns, ?_, fun y hy => ?_⟩
          rotate_left
          · rcases List.mem_cons.mp hy with rfl | hy
            · exact ⟨o, x.1, rfl⟩
            · exact hperformed y hy
          have hanswers : answers t (.performed t o x.1 :: h) = ⟨o, x.1⟩ :: answers t h := by
            simp [answers]
          rw [hanswers]
          exact .op hafter

end System

/-! ## Calls -/

namespace Discipline

open SimulationKey.Kit.System

variable {s : System Op Resp E} {d : Discipline s} {t : Nat} {c c' : Config s}

/-- What a task may rely on at a step that is not its own. -/
theorem Sound.rely_of_next {l : Label s} (hc : d.Sound c) (hstep : ∀ choice, l ≠ .step t choice)
    (habort : l ≠ .abort t) (hnext : s.next l c = some c') : d.rely t c.world c'.world := by
  have hmoves := moves_of_next hnext
  generalize c'.world = w at hmoves
  cases hmoves with
  | enter henter => exact (d.enter_sound hc.inv henter).2 t
  | @step t' choice o k r w htask hexec =>
      refine (d.exec_sound hc.inv (hc.pre htask) hexec).2 t ?_
      rintro rfl
      exact hstep choice rfl
  | abort t' =>
      refine (d.abort_sound hc.inv).2 t ?_
      rintro rfl
      exact habort rfl
  | event e => exact (d.event_sound hc.inv).2 t

/-- What every task relies on holds on through a run. -/
theorem Sound.keeps {allowed : Config s → Label s → Prop} {A : s.World → Prop} (hc : d.Sound c)
    (hA : ∀ t, d.Stable t A)
    (henter : ∀ (c : Config s) t e w p, allowed c (.enter t e) → d.inv c.world →
      d.unstarted t c.world → s.enter e c.world = some (w, p) → d.Safe t (fun _ _ => True) p w)
    (hrun : s.Reaches allowed c c') (h : A c.world) : A c'.world := by
  induction hrun with
  | refl => exact h
  | @tail c₁ c₂ l run ok step ih =>
      have hsound : d.Sound c₁ := reaches_sound hc henter run
      -- a task whose step this is not
      have hother : ∃ t, (∀ choice, l ≠ .step t choice) ∧ l ≠ .abort t := by
        cases l with
        | enter | event => exact ⟨0, by simp, by simp⟩
        | step t choice | abort t => exact ⟨t + 1, by simp, by simp⟩
      obtain ⟨t, hstep, habort⟩ := hother
      exact hA t ih (hsound.rely_of_next hstep habort step)

/-- A program that a task has called stays safe as it is answered, whatever the
task does after it. -/
theorem Sound.called {allowed : List (Happening s) → Config s → Label s → Prop}
    {h : List (Happening s)} {q : Prog Op Resp E α} {k : Except E α → Prog Op Resp E Unit}
    {Q : Except E α → s.World → Prop} (hc : d.Sound c) (hQ : ∀ r, d.Stable t (Q r))
    (htask : c.tasks t = .running (q.andThen k)) (hsafe : d.Safe t Q q c.world)
    (henter : ∀ h (c : Config s) t e w p, allowed h c (.enter t e) → d.inv c.world →
      d.unstarted t c.world → s.enter e c.world = some (w, p) → d.Safe t (fun _ _ => True) p w)
    (hrun : s.Runs allowed c h c') (hlive : c'.tasks t ≠ .stopped) {q' : Prog Op Resp E α}
    (hafter : q.After (answers t h) q') : d.Safe t Q q' c'.world := by
  induction hrun generalizing q' with
  | refl =>
      obtain rfl := hafter.unique (.refl q)
      exact hsafe
  | @tail h c₁ c₂ l run ok step ih =>
      have hlive₁ : c₁.tasks t ≠ .stopped := fun hstopped =>
        hlive (stopped_of_next hstopped step)
      rw [answers_append] at hafter
      obtain ⟨m, hm, hafter⟩ := hafter.of_append
      have hsafe₁ : d.Safe t Q m c₁.world := ih hlive₁ hm
      have htask₁ : c₁.tasks t = .running (m.andThen k) := by
        rcases run.program htask with hstopped | ⟨m', hm', hafter'⟩
        · exact absurd hstopped hlive₁
        · rw [hm', hafter'.unique hm.andThen]
      have hsound : d.Sound c₁ :=
        reaches_sound hc (fun c t e w p ⟨h, ok⟩ => henter h c t e w p ok) run.reaches
      by_cases hown : ∃ choice, l = .step t choice
      · obtain ⟨choice, rfl⟩ := hown
        cases m with
        | ret r =>
            -- the call had returned: it has no answer to come
            cases hrest : k r with
            | ret outcome => simp [System.next, htask₁, Prog.andThen, hrest] at step
            | op o next =>
                simp only [System.next, htask₁, Prog.andThen, hrest] at step
                obtain ⟨x, hx, -⟩ := Option.map_eq_some_iff.mp step
                simp only [happening, htask₁, Prog.andThen, hrest, hx] at hafter
                simp only [answers, Option.map_some, Option.toList_some, List.filterMap_cons,
                  if_true, List.filterMap_nil] at hafter
                cases hafter
        | op o next =>
            simp only [System.next, htask₁, Prog.andThen] at step
            obtain ⟨x, hx, rfl⟩ := Option.map_eq_some_iff.mp step
            simp only [happening, htask₁, Prog.andThen, hx] at hafter
            simp only [answers, Option.map_some, Option.toList_some, List.filterMap_cons,
              if_true, List.filterMap_nil] at hafter
            obtain rfl := hafter.unique (.op (.refl _))
            exact (hsafe₁ c₁.world (d.rely_refl t _) hsound.inv).2 choice x.1 x.2 hx
      · have hnot : ∀ choice, l ≠ .step t choice := fun choice heq => hown ⟨choice, heq⟩
        rw [answers_happening hnot] at hafter
        obtain rfl := hafter.unique (.refl m)
        refine hsafe₁.later_of_stable hQ (hsound.rely_of_next hnot ?_ step)
        rintro rfl
        refine hlive ?_
        simp only [System.next, htask₁] at step
        obtain rfl := Option.some.inj step
        simp [Config.set]

end Discipline

end SimulationKey.Kit
