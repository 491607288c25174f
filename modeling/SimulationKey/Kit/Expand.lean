import SimulationKey.Kit.Interleaving

/-!
# Operations carried out by programs

A system `s` whose operations are each one step, and a finer one `s'` in which a
program carries out each of them, interleaved with everything else
(`Prog.expand`). `Carries` says when the programs do what the operations say:

* each has one step that has the operation's effect on what `s` sees of the world
  (`view`), and its other steps have none;
* what it still needs of the world before that step is kept by every step of
  every task (`keeps`).

Then every run of `s'` is a run of `s` in which the other steps are left out
(`Carries.reaches`).
-/

namespace SimulationKey.Kit

variable {Op Op' : Type} {Resp : Op → Type} {Resp' : Op' → Type} {E α β : Type}

namespace Prog

/-- Each operation is carried out by its program. -/
def expand (body : (o : Op) → Prog Op' Resp' E (Resp o)) :
    Prog Op Resp E α → Prog Op' Resp' E α
  | ret outcome => ret outcome
  | op o next => (body o).andThen fun r => (next r).expand body

end Prog

/-- What every operation's program keeps, the expansion keeps. -/
theorem Discipline.Safe.expand {s : System Op' Resp' E} {d : Discipline s} {t : Nat}
    {A : s.World → Prop} {body : (o : Op) → Prog Op' Resp' E (Resp o)} {p : Prog Op Resp E α}
    {w : s.World} (hbody : ∀ o w, A w → d.Safe t (fun _ w => A w) (body o) w) (hA : A w) :
    d.Safe t (fun _ w => A w) (p.expand body) w := by
  induction p generalizing w with
  | ret outcome => exact hA
  | op o next ih => exact Safe.andThen ((hbody o w hA).mono fun r w hA => ih r hA)

/-- The finer system carries out the operations of the coarser one. `before` and
`after` are what is left of an operation of a task on either side of the step
that has its effect. -/
structure Carries (s : System Op Resp E) (s' : System Op' Resp' E) where
  view : s'.World → s.World
  body : (o : Op) → Prog Op' Resp' E (Resp o)
  entry : s'.Entry → s.Entry
  keeps : s'.World → s'.World → Prop
  before : Nat → (o : Op) → Prog Op' Resp' E (Resp o) → s'.World → Prop
  after : Nat → (o : Op) → Except E (Resp o) → Prog Op' Resp' E (Resp o) → Prop
  start : ∀ t o w, before t o (body o) w
  before_ret : ∀ {t o r w}, ¬ before t o (.ret r) w
  before_step : ∀ {t o o' w r' w' choice} {k : Except E (Resp' o') → Prog Op' Resp' E (Resp o)},
    before t o (.op o' k) w → s'.exec choice t o' w = some (r', w') →
      (view w' = view w ∧ before t o (k r') w') ∨
        ∃ choice r, s.exec choice t o (view w) = some (r, view w') ∧ after t o r (k r')
  before_keeps : ∀ {t o q w w'}, before t o q w → keeps w w' → before t o q w'
  after_ret : ∀ {t o r r'}, after t o r (.ret r') → r' = r
  after_step : ∀ {t o r o' w r' w' choice} {k : Except E (Resp' o') → Prog Op' Resp' E (Resp o)},
    after t o r (.op o' k) → s'.exec choice t o' w = some (r', w') →
      view w' = view w ∧ after t o r (k r')
  exec_keeps : ∀ {t o' w r' w' choice}, s'.exec choice t o' w = some (r', w') → keeps w w'
  enter : ∀ {e' w w' p'}, s'.enter e' w = some (w', p') →
    keeps w w' ∧ ∃ p, s.enter (entry e') (view w) = some (view w', p) ∧ p' = p.expand body
  abort : ∀ {t w}, keeps w (s'.abort t w) ∧ view (s'.abort t w) = s.abort t (view w)
  event : ∀ {e' w}, keeps w (s'.event e' w) ∧
    (view (s'.event e' w) = view w ∨ ∃ e, view (s'.event e' w) = s.event e (view w))

namespace Carries

variable {s : System Op Resp E} {s' : System Op' Resp' E} (m : Carries s s')

/-- What a task does in the one system and in the other. -/
inductive Same (t : Nat) (w : s'.World) : Prog Op Resp E Unit → Prog Op' Resp' E Unit → Prop where
  | ended (outcome : Except E Unit) : Same t w (.ret outcome) (.ret outcome)
  | before {o : Op} {k : Except E (Resp o) → Prog Op Resp E Unit}
      {q : Prog Op' Resp' E (Resp o)} (h : m.before t o q w) :
      Same t w (.op o k) (q.andThen fun r => (k r).expand m.body)
  | after {o : Op} {r : Except E (Resp o)} {k : Except E (Resp o) → Prog Op Resp E Unit}
      {o' : Op'} {q : Except E (Resp' o') → Prog Op' Resp' E (Resp o)}
      (h : m.after t o r (.op o' q)) :
      Same t w (k r) ((Prog.op o' q).andThen fun r => (k r).expand m.body)

inductive SameTask (t : Nat) (w : s'.World) :
    System.Task Op Resp E → System.Task Op' Resp' E → Prop where
  | idle : SameTask t w .idle .idle
  | running {p : Prog Op Resp E Unit} {p' : Prog Op' Resp' E Unit} (h : m.Same t w p p') :
      SameTask t w (.running p) (.running p')
  | stopped : SameTask t w .stopped .stopped

structure Simulates (c : System.Config s) (c' : System.Config s') : Prop where
  world : c.world = m.view c'.world
  tasks : ∀ t, m.SameTask t c'.world (c.tasks t) (c'.tasks t)

variable {m}

/-- A program stands for its expansion. -/
theorem same_expand (t : Nat) (w : s'.World) (p : Prog Op Resp E Unit) :
    m.Same t w p (p.expand m.body) := by
  cases p with
  | ret outcome => exact .ended outcome
  | op o next => exact .before (m.start t o w)

/-- An operation that has had its effect stands for what follows it. -/
theorem same_of_after {t : Nat} {w : s'.World} {o : Op} {r : Except E (Resp o)}
    {k : Except E (Resp o) → Prog Op Resp E Unit} {q : Prog Op' Resp' E (Resp o)}
    (h : m.after t o r q) : m.Same t w (k r) (q.andThen fun r => (k r).expand m.body) := by
  cases q with
  | ret x =>
      obtain rfl := m.after_ret h
      exact same_expand t w (k x)
  | op o' q => exact .after h

theorem Same.keeps {t : Nat} {w w' : s'.World} {p : Prog Op Resp E Unit}
    {p' : Prog Op' Resp' E Unit} (h : m.Same t w p p') (hkeeps : m.keeps w w') :
    m.Same t w' p p' := by
  cases h with
  | ended outcome => exact .ended outcome
  | before h => exact .before (m.before_keeps h hkeeps)
  | after h => exact .after h

theorem SameTask.keeps {t : Nat} {w w' : s'.World} {task : System.Task Op Resp E}
    {task' : System.Task Op' Resp' E} (h : m.SameTask t w task task') (hkeeps : m.keeps w w') :
    m.SameTask t w' task task' := by
  cases h with
  | idle => exact .idle
  | running h => exact .running (h.keeps hkeeps)
  | stopped => exact .stopped

/-- A task that has ended has ended in both, with the same outcome. -/
theorem Same.ended_eq {t : Nat} {w : s'.World} {p : Prog Op Resp E Unit} {r : Except E Unit}
    (h : m.Same t w p (.ret r)) : p = .ret r := by
  generalize hp' : Prog.ret r = p' at h
  cases h with
  | ended outcome =>
      cases hp'
      rfl
  | @before o k q h =>
      cases q with
      | ret x => exact absurd h m.before_ret
      | op o₁ k₁ => cases hp'
  | after h => cases hp'

theorem SameTask.ended {t : Nat} {w : s'.World} {task : System.Task Op Resp E}
    {r : Except E Unit} (h : m.SameTask t w task (.running (.ret r))) :
    task = .running (.ret r) := by
  cases h with
  | running h => rw [h.ended_eq]

theorem SameTask.idle_iff {t : Nat} {w : s'.World} {task : System.Task Op Resp E}
    {task' : System.Task Op' Resp' E} (h : m.SameTask t w task task') :
    task = .idle ↔ task' = .idle := by
  cases h with
  | idle => exact ⟨fun _ => rfl, fun _ => rfl⟩
  | running h => exact ⟨fun h => (by cases h), fun h => by cases h⟩
  | stopped => exact ⟨fun h => (by cases h), fun h => by cases h⟩

/-- A step of a task: its operation has its effect, or what `s` sees is unchanged. -/
theorem Same.step {t : Nat} {w w' : s'.World} {p : Prog Op Resp E Unit} {o' : Op'}
    {k' : Except E (Resp' o') → Prog Op' Resp' E Unit} {choice' : s'.Choice}
    {r' : Except E (Resp' o')} (h : m.Same t w p (.op o' k'))
    (hexec : s'.exec choice' t o' w = some (r', w')) :
    (m.view w' = m.view w ∧ m.Same t w' p (k' r')) ∨
      ∃ o k choice r, p = .op o k ∧ s.exec choice t o (m.view w) = some (r, m.view w') ∧
        m.Same t w' (k r) (k' r') := by
  generalize hp' : Prog.op o' k' = p' at h
  cases h with
  | ended outcome => cases hp'
  | @before o k q hbefore =>
      cases q with
      | ret r => exact absurd hbefore m.before_ret
      | op o₁ k₁ =>
          simp only [Prog.andThen] at hp'
          cases hp'
          rcases m.before_step hbefore hexec with ⟨hview, hnext⟩ | ⟨choice, r, hstep, hafter⟩
          · exact Or.inl ⟨hview, .before hnext⟩
          · exact Or.inr ⟨o, k, choice, r, rfl, hstep, same_of_after hafter⟩
  | @after o r k o₁ q hafter =>
      cases hp'
      obtain ⟨hview, hnext⟩ := m.after_step hafter hexec
      exact Or.inl ⟨hview, same_of_after hnext⟩

/-! ## Runs -/

/-- Setting one task's slot in both. -/
theorem Simulates.set {c : System.Config s} {c' : System.Config s'} (h : m.Simulates c c')
    {w' : s'.World} {t : Nat} {task : System.Task Op Resp E} {task' : System.Task Op' Resp' E}
    (hkeeps : m.keeps c'.world w') (htask : m.SameTask t w' task task') :
    m.Simulates (c.set (m.view w') t task) (c'.set w' t task') := by
  refine ⟨rfl, fun t' => ?_⟩
  by_cases heq : t' = t
  · subst heq
    simpa [System.Config.set] using htask
  · simpa [System.Config.set, heq] using (h.tasks t').keeps hkeeps

/-- The coarser system takes the step, or none. -/
inductive Follows (m : Carries s s') (c : System.Config s) (l' : System.Label s') :
    System.Config s → Prop where
  | stays : Follows m c l' c
  | steps {c₂ : System.Config s} {l : System.Label s} (step : s.next l c = some c₂)
      (entries : ∀ t e, l = .enter t e → ∃ e', l' = .enter t e' ∧ e = m.entry e') :
      Follows m c l' c₂

theorem Simulates.next {c : System.Config s} {c' c₂' : System.Config s'} {l' : System.Label s'}
    (h : m.Simulates c c') (hnext : s'.next l' c' = some c₂') :
    ∃ c₂, m.Follows c l' c₂ ∧ m.Simulates c₂ c₂' := by
  cases l' with
  | enter t e' =>
      simp only [System.next] at hnext
      split at hnext
      · rename_i hidle
        obtain ⟨⟨w', p'⟩, hx, rfl⟩ := Option.map_eq_some_iff.mp hnext
        obtain ⟨hkeeps, p, henter, rfl⟩ := m.enter hx
        have hslot : c.tasks t = .idle := by
          have htask := h.tasks t
          rw [hidle] at htask
          generalize c.tasks t = task at htask
          cases htask
          rfl
        refine ⟨c.set (m.view w') t (.running p), .steps (l := .enter t (m.entry e')) ?_ ?_,
          h.set hkeeps (.running (same_expand t w' p))⟩
        · simp only [System.next, hslot, h.world, henter]
          rfl
        · rintro t₁ e hl
          obtain ⟨rfl, rfl⟩ := System.Label.enter.inj hl
          exact ⟨e', rfl, rfl⟩
      · cases hnext
  | step t choice' =>
      simp only [System.next] at hnext
      split at hnext
      · rename_i o' k' htask'
        obtain ⟨⟨r', w'⟩, hx, rfl⟩ := Option.map_eq_some_iff.mp hnext
        have htask := h.tasks t
        rw [htask'] at htask
        generalize hslot : c.tasks t = task at htask
        cases htask with
        | @running p _ hsame =>
            have hkeeps := m.exec_keeps hx
            rcases hsame.step hx with ⟨hview, hnext⟩ | ⟨o, k, choice, r, rfl, hexec, hnext⟩
            · refine ⟨c, .stays, ?_⟩
              have hset : c.set (m.view w') t (.running p) = c := by
                rw [hview, ← h.world, ← hslot]
                simp [System.Config.set]
              exact hset ▸ h.set hkeeps (.running hnext)
            · refine ⟨c.set (m.view w') t (.running (k r)),
                .steps (l := .step t choice) ?_ fun _ _ hl => (by cases hl),
                h.set hkeeps (.running hnext)⟩
              simp only [System.next, hslot, h.world, hexec]
              rfl
      · cases hnext
  | abort t =>
      simp only [System.next] at hnext
      split at hnext
      · rename_i p' htask'
        obtain rfl := Option.some.inj hnext
        have htask := h.tasks t
        rw [htask'] at htask
        generalize hslot : c.tasks t = task at htask
        cases htask with
        | running hsame =>
            obtain ⟨hkeeps, hview⟩ := m.abort (t := t) (w := c'.world)
            refine ⟨c.set (m.view (s'.abort t c'.world)) t .stopped,
              .steps (l := .abort t) ?_ fun _ _ hl => (by cases hl), h.set hkeeps .stopped⟩
            simp only [System.next, hslot, h.world, hview]
      · cases hnext
  | event e' =>
      obtain rfl := Option.some.inj hnext
      obtain ⟨hkeeps, hview⟩ : m.keeps c'.world (s'.event e' c'.world) ∧
          (m.view (s'.event e' c'.world) = m.view c'.world ∨
            ∃ e, m.view (s'.event e' c'.world) = s.event e (m.view c'.world)) := m.event
      have htasks : ∀ t, m.SameTask t (s'.event e' c'.world) (c.tasks t) (c'.tasks t) :=
        fun t => (h.tasks t).keeps hkeeps
      rcases hview with hsame | ⟨e, heffect⟩
      · exact ⟨c, .stays, ⟨h.world.trans hsame.symm, htasks⟩⟩
      · refine ⟨{ c with world := m.view (s'.event e' c'.world) },
          .steps (l := .event e) ?_ fun _ _ hl => (by cases hl), ⟨rfl, htasks⟩⟩
        simp only [System.next, h.world, heffect]

end Carries

/-- Runs into which only some entries come. -/
def System.Enters (s : System Op Resp E) (ok : s.Entry → Prop) (_ : System.Config s) :
    System.Label s → Prop
  | .enter _ e => ok e
  | _ => True

/-- Every run of the finer system is one of the coarser system. -/
theorem Carries.reaches {s : System Op Resp E} {s' : System Op' Resp' E} {m : Carries s s'}
    {ok : s.Entry → Prop} {c₁ : System.Config s} {c₁' c₂' : System.Config s'}
    (h : m.Simulates c₁ c₁') (hrun : s'.Reaches (s'.Enters fun e' => ok (m.entry e')) c₁' c₂') :
    ∃ c₂, s.Reaches (s.Enters ok) c₁ c₂ ∧ m.Simulates c₂ c₂' := by
  induction hrun with
  | refl => exact ⟨c₁, .refl, h⟩
  | @tail c' c'' l' run hallowed step ih =>
      obtain ⟨c, hrun, hsim⟩ := ih
      obtain ⟨c₂, hfollows, hsim⟩ := hsim.next step
      refine ⟨c₂, ?_, hsim⟩
      cases hfollows with
      | stays => exact hrun
      | @steps _ l step entries =>
          refine hrun.tail ?_ step
          cases l with
          | enter t e =>
              obtain ⟨e', rfl, rfl⟩ := entries t e rfl
              exact hallowed
          | step | abort | event => trivial

end SimulationKey.Kit
