import SimulationKey.Kit.Program

/-!
# Interleaved programs

Any number of tasks run programs over one world, one operation at a time in any
order. An operation's outcome may depend on a choice (a fault, say); a task may
be cut off between two operations; the environment may change the world.

A `Discipline` proves properties of all runs by rely and guarantee: an invariant
of the world, for each task a relation that the others' steps respect, and for
each operation the precondition under which it keeps both. `Safe` says that a
program meets the preconditions of its operations at every world the others may
have left it; `reaches_sound` is the run rule.

* **assertions** — what a task knows must be kept by its rely
  (`Discipline.Stable`); `safe_perform` moves an assertion over one operation,
  `Safe.of_allOps` keeps one over a program and `Safe.frame` beside it;
* **composition** — `Safe.bind`, `Safe.tryCatch`, `Safe.ensuring` follow the
  program.
-/

namespace SimulationKey.Kit

variable {Op : Type} {Resp : Op → Type} {E : Type}

/-- What tasks share and how they act on it. `enter` starts a task for an
entry, `abort` is what the end of a task's process does to the world. -/
structure System (Op : Type) (Resp : Op → Type) (E : Type) where
  World : Type
  Choice : Type
  Entry : Type
  Event : Type
  exec : Choice → Nat → (o : Op) → World → Option (Except E (Resp o) × World)
  enter : Entry → World → Option (World × Prog Op Resp E Unit)
  abort : Nat → World → World
  event : Event → World → World

namespace System

inductive Task (Op : Type) (Resp : Op → Type) (E : Type) where
  | idle
  | running (p : Prog Op Resp E Unit)
  | stopped

structure Config (s : System Op Resp E) where
  world : s.World
  tasks : Nat → Task Op Resp E

inductive Label (s : System Op Resp E) where
  | enter (t : Nat) (e : s.Entry)
  | step (t : Nat) (c : s.Choice)
  | abort (t : Nat)
  | event (e : s.Event)

variable (s : System Op Resp E)

/-- A task's slot set to a new state. -/
def Config.set {s : System Op Resp E} (c : Config s) (w : s.World) (t : Nat)
    (task : Task Op Resp E) : Config s :=
  { world := w, tasks := Function.update c.tasks t task }

/-- The configuration after a labelled step, when the step can be taken. -/
def next : Label s → Config s → Option (Config s)
  | .enter t e, c =>
    match c.tasks t with
    | .idle => (s.enter e c.world).map fun x => c.set x.1 t (.running x.2)
    | _ => none
  | .step t choice, c =>
    match c.tasks t with
    | .running (.op o k) =>
      (s.exec choice t o c.world).map fun x => c.set x.2 t (.running (k x.1))
    | _ => none
  | .abort t, c =>
    match c.tasks t with
    | .running _ => some (c.set (s.abort t c.world) t .stopped)
    | _ => none
  | .event e, c => some { c with world := s.event e c.world }

/-- Runs whose steps are all allowed. -/
inductive Reaches (allowed : Config s → Label s → Prop) (c : Config s) : Config s → Prop where
  | refl : Reaches allowed c c
  | tail {c' c'' : Config s} {l : Label s} (run : Reaches allowed c c') (ok : allowed c' l)
      (step : s.next l c' = some c'') : Reaches allowed c c''

theorem Reaches.trans {s : System Op Resp E} {allowed : Config s → Label s → Prop}
    {a b c : Config s} (hab : s.Reaches allowed a b) (hbc : s.Reaches allowed b c) :
    s.Reaches allowed a c := by
  induction hbc with
  | refl => exact hab
  | tail _ ok step ih => exact ih.tail ok step

theorem Reaches.mono {s : System Op Resp E} {allowed allowed' : Config s → Label s → Prop}
    {a b : Config s} (h : s.Reaches allowed a b) (hle : ∀ c l, allowed c l → allowed' c l) :
    s.Reaches allowed' a b := by
  induction h with
  | refl => exact .refl
  | tail _ ok step ih => exact ih.tail (hle _ _ ok) step

/-- The configuration after a schedule, when each of its steps is allowed and
can be taken. -/
def runAll {s : System Op Resp E} (ok : Config s → Label s → Bool) :
    List (Label s) → Config s → Option (Config s)
  | [], c => some c
  | l :: rest, c => if ok c l then (s.next l c).bind (runAll ok rest) else none

theorem reaches_of_runAll {s : System Op Resp E} {ok : Config s → Label s → Bool}
    {schedule : List (Label s)} {c c' : Config s} (h : runAll ok schedule c = some c') :
    s.Reaches (fun c l => ok c l = true) c c' := by
  induction schedule generalizing c with
  | nil =>
      obtain rfl := Option.some.inj h
      exact .refl
  | cons l rest ih =>
      rw [runAll] at h
      split_ifs at h with hok
      obtain ⟨c₁, hnext, hrest⟩ := Option.bind_eq_some_iff.mp h
      exact Reaches.trans (.tail .refl hok hnext) (ih hrest)

/-- The next `n` operations of a task, under one choice. -/
def steps {s : System Op Resp E} (choice : s.Choice) (t n : Nat) : List (Label s) :=
  List.replicate n (.step t choice)

/-- What a labelled step does to the world. -/
inductive Moves (c : Config s) : Label s → s.World → Prop where
  | enter {t : Nat} {e : s.Entry} {w : s.World} {p : Prog Op Resp E Unit}
      (h : s.enter e c.world = some (w, p)) : Moves c (.enter t e) w
  | step {t : Nat} {choice : s.Choice} {o : Op} {k : Except E (Resp o) → Prog Op Resp E Unit}
      {r : Except E (Resp o)} {w : s.World} (task : c.tasks t = .running (.op o k))
      (h : s.exec choice t o c.world = some (r, w)) : Moves c (.step t choice) w
  | abort (t : Nat) : Moves c (.abort t) (s.abort t c.world)
  | event (e : s.Event) : Moves c (.event e) (s.event e c.world)

theorem moves_of_next {s : System Op Resp E} {l : Label s} {c c' : Config s}
    (h : s.next l c = some c') : s.Moves c l c'.world := by
  cases l with
  | enter t e =>
      simp only [next] at h
      split at h
      · obtain ⟨x, hx, rfl⟩ := Option.map_eq_some_iff.mp h
        exact .enter (p := x.2) hx
      · cases h
  | step t choice =>
      simp only [next] at h
      split at h
      · rename_i o k htask
        obtain ⟨x, hx, rfl⟩ := Option.map_eq_some_iff.mp h
        exact .step htask hx
      · cases h
  | abort t =>
      simp only [next] at h
      split at h
      · obtain rfl := Option.some.inj h
        exact .abort t
      · cases h
  | event e =>
      obtain rfl := Option.some.inj h
      exact .event e

end System

/-! ## Rely and guarantee -/

/-- An invariant, what each task may rely on, what is so of a task not yet
started, and the preconditions under which operations keep all three. -/
structure Discipline (s : System Op Resp E) where
  inv : s.World → Prop
  rely : Nat → s.World → s.World → Prop
  unstarted : Nat → s.World → Prop
  pre : Nat → Op → s.World → Prop
  rely_refl : ∀ t w, rely t w w
  rely_trans : ∀ {t w w' w''}, rely t w w' → rely t w' w'' → rely t w w''
  unstarted_rely : ∀ {t w w'}, unstarted t w → rely t w w' → unstarted t w'
  exec_sound : ∀ {choice t o w r w'}, inv w → pre t o w → s.exec choice t o w = some (r, w') →
    inv w' ∧ ∀ t', t' ≠ t → rely t' w w'
  enter_sound : ∀ {e w w' p}, inv w → s.enter e w = some (w', p) →
    inv w' ∧ ∀ t, rely t w w'
  abort_sound : ∀ {t w}, inv w → inv (s.abort t w) ∧ ∀ t', t' ≠ t → rely t' w (s.abort t w)
  event_sound : ∀ {e w}, inv w → inv (s.event e w) ∧ ∀ t, rely t w (s.event e w)

namespace Discipline

variable {s : System Op Resp E} (d : Discipline s) {α β : Type} {t : Nat}

/-- An assertion that the other tasks keep. -/
def Stable (t : Nat) (A : s.World → Prop) : Prop := ∀ {w w'}, A w → d.rely t w w' → A w'

/-- Program `p` of task `t`, started at `w`, meets every precondition whatever
the other tasks do, and ends with an outcome and a world in `Q`. -/
def Safe (t : Nat) (Q : Except E α → s.World → Prop) : Prog Op Resp E α → s.World → Prop
  | .ret outcome, w => Q outcome w
  | .op o next, w => ∀ w', d.rely t w w' → d.inv w' →
      d.pre t o w' ∧ ∀ choice r w'', s.exec choice t o w' = some (r, w'') → Safe t Q (next r) w''

variable {d} {Q : Except E α → s.World → Prop} {R : Except E β → s.World → Prop}

theorem Safe.mono {p : Prog Op Resp E α} {w : s.World} {Q' : Except E α → s.World → Prop}
    (h : d.Safe t Q p w) (hQ : ∀ r w, Q r w → Q' r w) : d.Safe t Q' p w := by
  induction p generalizing w with
  | ret outcome => exact hQ outcome w h
  | op o next ih =>
      intro w' hrely hinv
      obtain ⟨hpre, hnext⟩ := h w' hrely hinv
      exact ⟨hpre, fun choice r w'' hexec => ih r (hnext choice r w'' hexec)⟩

/-- A safe program stays safe while the others run; one that has ended needs
nothing. -/
theorem Safe.later {p : Prog Op Resp E α} {w w' : s.World}
    (h : d.Safe t (fun _ _ => True) p w) (hrely : d.rely t w w') :
    d.Safe t (fun _ _ => True) p w' := by
  cases p with
  | ret outcome => trivial
  | op o next => exact fun w'' hrely' => h w'' (d.rely_trans hrely hrely')

theorem Safe.andThen {p : Prog Op Resp E α} {f : Except E α → Prog Op Resp E β} {w : s.World}
    (h : d.Safe t (fun r w => d.Safe t R (f r) w) p w) : d.Safe t R (p.andThen f) w := by
  induction p generalizing w with
  | ret outcome => exact h
  | op o next ih =>
      intro w' hrely hinv
      obtain ⟨hpre, hnext⟩ := h w' hrely hinv
      exact ⟨hpre, fun choice r w'' hexec => ih r (hnext choice r w'' hexec)⟩

/-- The rule of sequencing. -/
theorem Safe.bind {p : Prog Op Resp E α} {f : α → Prog Op Resp E β} {w : s.World}
    (h : d.Safe t (fun r w =>
      match r with
      | .ok a => d.Safe t R (f a) w
      | .error e => R (.error e) w) p w) :
    d.Safe t R (p >>= f) w := by
  refine Safe.andThen (h.mono fun r w hr => ?_)
  cases r with
  | ok a => exact hr
  | error e => exact hr

theorem Safe.tryCatch {p : Prog Op Resp E α} {handler : E → Prog Op Resp E α} {w : s.World}
    (h : d.Safe t (fun r w =>
      match r with
      | .ok a => Q (.ok a) w
      | .error e => d.Safe t Q (handler e) w) p w) :
    d.Safe t Q (p.tryCatch handler) w := by
  refine Safe.andThen (h.mono fun r w hr => ?_)
  cases r with
  | ok a => exact hr
  | error e => exact hr

theorem Safe.ensuring {p : Prog Op Resp E α} {cleanup : Prog Op Resp E Unit} {w : s.World}
    (h : d.Safe t (fun outcome w => d.Safe t (fun r w =>
      match r with
      | .ok _ => Q outcome w
      | .error e => Q (.error e) w) cleanup w) p w) :
    d.Safe t Q (p.ensuring cleanup) w := by
  refine Safe.andThen (h.mono fun outcome w hcleanup => ?_)
  refine Safe.andThen (hcleanup.mono fun r w hr => ?_)
  cases r with
  | ok u => exact hr
  | error e => exact hr

/-- A stable assertion under which a program's operations are safe, and which
they keep, holds to its end. -/
theorem Safe.of_allOps {p : Prog Op Resp E α} {w : s.World} {A : s.World → Prop}
    (hstable : d.Stable t A)
    (hops : p.AllOps fun o => ∀ w, d.inv w → A w → d.pre t o w ∧
      ∀ choice r w', s.exec choice t o w = some (r, w') → A w')
    (hA : A w) : d.Safe t (fun _ w => A w) p w := by
  induction p generalizing w with
  | ret outcome => exact hA
  | op o next ih =>
      intro w' hrely hinv
      obtain ⟨hpre, hkeeps⟩ := hops.1 w' hinv (hstable hA hrely)
      exact ⟨hpre, fun choice r w'' hstep => ih r (hops.2 r) (hkeeps choice r w'' hstep)⟩

/-- An assertion that a program's operations keep too is kept all along. -/
theorem Safe.frame_of_allOps {p : Prog Op Resp E α} {w : s.World} {A : s.World → Prop}
    (hstable : d.Stable t A)
    (hops : p.AllOps fun o => ∀ choice w r w', d.inv w → d.pre t o w → A w →
      s.exec choice t o w = some (r, w') → A w')
    (hA : A w) (h : d.Safe t Q p w) : d.Safe t (fun r w => A w ∧ Q r w) p w := by
  induction p generalizing w with
  | ret outcome => exact ⟨hA, h⟩
  | op o next ih =>
      intro w' hrely hinv
      obtain ⟨hpre, hnext⟩ := h w' hrely hinv
      refine ⟨hpre, fun choice r w'' hstep => ih r (hops.2 r) ?_ (hnext choice r w'' hstep)⟩
      exact hops.1 choice w' r w'' hinv hpre (hstable hA hrely) hstep

/-- An assertion that all of the task's operations keep. -/
theorem Safe.frame {p : Prog Op Resp E α} {w : s.World} {A : s.World → Prop}
    (hstable : d.Stable t A)
    (hexec : ∀ {choice o w r w'}, d.inv w → d.pre t o w → A w →
      s.exec choice t o w = some (r, w') → A w')
    (hA : A w) (h : d.Safe t Q p w) : d.Safe t (fun r w => A w ∧ Q r w) p w :=
  h.frame_of_allOps hstable (.always fun _ _ _ _ _ hinv hpre => hexec hinv hpre) hA

/-- One operation, from a stable assertion. -/
theorem safe_perform {o : Op} {A : s.World → Prop} {Q : Except E (Resp o) → s.World → Prop}
    {w : s.World} (hstable : d.Stable t A) (hA : A w)
    (hpre : ∀ w', d.inv w' → A w' → d.pre t o w')
    (hpost : ∀ choice r w' w'', d.inv w' → A w' → s.exec choice t o w' = some (r, w'') →
      Q r w'') :
    d.Safe t Q (.perform o) w :=
  fun w' hrely hinv => ⟨hpre w' hinv (hstable hA hrely),
    fun choice r w'' hexec => hpost choice r w' w'' hinv (hstable hA hrely) hexec⟩

/-! ## Programs that are safe wherever they start -/

variable (d) in
def Polite (t : Nat) (p : Prog Op Resp E α) : Prop := ∀ w, d.Safe t (fun _ _ => True) p w

theorem Polite.of_allOps {p : Prog Op Resp E α}
    (hops : p.AllOps fun o => ∀ w, d.inv w → d.pre t o w) : d.Polite t p := fun _ =>
  Safe.of_allOps (fun _ _ => trivial)
    (hops.mono fun _ ho w hinv _ => ⟨ho w hinv, fun _ _ _ _ => trivial⟩) trivial

theorem Polite.bind {p : Prog Op Resp E α} {f : α → Prog Op Resp E β} (hp : d.Polite t p)
    (hf : ∀ a, d.Polite t (f a)) : d.Polite t (p >>= f) := by
  refine fun w => Safe.bind ((hp w).mono fun r w _ => ?_)
  cases r with
  | ok a => exact hf a w
  | error e => trivial

theorem Polite.ensuring {p : Prog Op Resp E α} {cleanup : Prog Op Resp E Unit}
    (hp : d.Polite t p) (hcleanup : d.Polite t cleanup) : d.Polite t (p.ensuring cleanup) := by
  refine fun w => Safe.ensuring ((hp w).mono fun outcome w _ => (hcleanup w).mono fun r w _ => ?_)
  cases r with
  | ok u => trivial
  | error e => trivial

/-! ## Runs -/

/-- The invariant holds and every running task is safe. -/
structure Sound (d : Discipline s) (c : System.Config s) : Prop where
  inv : d.inv c.world
  idle : ∀ t, c.tasks t = .idle → d.unstarted t c.world
  tasks : ∀ t p, c.tasks t = .running p → d.Safe t (fun _ _ => True) p c.world

/-- The precondition of the operation a task is about to perform. -/
theorem Sound.pre {c : System.Config s} (h : d.Sound c) {t : Nat} {o : Op}
    {k : Except E (Resp o) → Prog Op Resp E Unit} (htask : c.tasks t = .running (.op o k)) :
    d.pre t o c.world :=
  (h.tasks t _ htask c.world (d.rely_refl t c.world) h.inv).1

/-- Setting one task's slot after a step the other tasks rely on. -/
theorem Sound.set {c : System.Config s} (h : d.Sound c) {w : s.World} {t : Nat}
    {task : System.Task Op Resp E} (hinv : d.inv w)
    (hothers : ∀ t', t' ≠ t → d.rely t' c.world w) (hstarted : task ≠ .idle)
    (hself : ∀ p, task = .running p → d.Safe t (fun _ _ => True) p w) :
    d.Sound (c.set w t task) := by
  refine ⟨hinv, fun t' hidle => ?_, fun t' p htask => ?_⟩
  · by_cases heq : t' = t
    · subst heq
      exact absurd (by simpa [System.Config.set] using hidle) hstarted
    · have hsame : c.tasks t' = .idle := by
        simpa [System.Config.set, heq] using hidle
      exact d.unstarted_rely (h.idle t' hsame) (hothers t' heq)
  · by_cases heq : t' = t
    · subst heq
      exact hself p (by simpa [System.Config.set] using htask)
    · have hsame : c.tasks t' = .running p := by
        simpa [System.Config.set, heq] using htask
      exact (h.tasks t' p hsame).later (hothers t' heq)

/-- One step of any task keeps every task safe. -/
theorem Sound.next {c c' : System.Config s} {l : System.Label s} (h : d.Sound c)
    (henter : ∀ t e w p, l = .enter t e → d.unstarted t c.world →
      s.enter e c.world = some (w, p) → d.Safe t (fun _ _ => True) p w)
    (hnext : s.next l c = some c') : d.Sound c' := by
  cases l with
  | enter t e =>
      simp only [System.next] at hnext
      split at hnext
      · rename_i hidle
        obtain ⟨x, hx, rfl⟩ := Option.map_eq_some_iff.mp hnext
        obtain ⟨hinv, hrely⟩ := d.enter_sound h.inv hx
        refine h.set hinv (fun t' _ => hrely t') (by simp) fun p hp => ?_
        obtain rfl := System.Task.running.inj hp
        exact henter t e x.1 x.2 rfl (h.idle t hidle) hx
      · cases hnext
  | step t choice =>
      simp only [System.next] at hnext
      split at hnext
      · rename_i o k htask
        obtain ⟨x, hx, rfl⟩ := Option.map_eq_some_iff.mp hnext
        obtain ⟨hpre, hsafe⟩ := h.tasks t _ htask c.world (d.rely_refl t c.world) h.inv
        obtain ⟨hinv, hrely⟩ := d.exec_sound h.inv hpre hx
        refine h.set hinv hrely (by simp) fun p hp => ?_
        obtain rfl := System.Task.running.inj hp
        exact hsafe choice x.1 x.2 hx
      · cases hnext
  | abort t =>
      simp only [System.next] at hnext
      split at hnext
      · obtain rfl := Option.some.inj hnext
        obtain ⟨hinv, hrely⟩ := d.abort_sound (t := t) h.inv
        exact h.set hinv hrely (by simp) fun p hp => by cases hp
      · cases hnext
  | event e =>
      obtain rfl := Option.some.inj hnext
      obtain ⟨hinv, hrely⟩ := d.event_sound (e := e) h.inv
      exact ⟨hinv, fun t hidle => d.unstarted_rely (h.idle t hidle) (hrely t),
        fun t p htask => (h.tasks t p htask).later (hrely t)⟩

/-- The run rule: every reachable configuration is sound. -/
theorem reaches_sound {allowed : System.Config s → System.Label s → Prop} {c c' : System.Config s}
    (hc : d.Sound c)
    (henter : ∀ c t e w p, allowed c (.enter t e) → d.inv c.world → d.unstarted t c.world →
      s.enter e c.world = some (w, p) → d.Safe t (fun _ _ => True) p w)
    (hrun : s.Reaches allowed c c') : d.Sound c' := by
  induction hrun with
  | refl => exact hc
  | tail _ ok step ih =>
      refine ih.next (fun t e w p hl hidle hent => ?_) step
      subst hl
      exact henter _ t e w p ok ih.inv hidle hent

end Discipline

end SimulationKey.Kit
