import SimulationKey.Kit.Interleaving

/-!
# What a task comes to know

Rules of `Discipline.Safe` for programs that go from one resting assertion back
to it and learn something on the way.

* **knowledge** — an assertion that neither the other tasks nor the task's own
  operations undo (`Lasting`); once learnt it holds to the task's end.
* **programs** — `Yields` is the triple of such a program, with one rule for each
  of its constructs.
* **runs** — `Meets` is `Sound` with an assertion for every task that has ended.
-/

namespace SimulationKey.Kit.Discipline

variable {Op : Type} {Resp : Op → Type} {E α β : Type} {s : System Op Resp E}

/-! ## Knowledge -/

/-- Kept by the other tasks and by the task itself. -/
structure Lasting (d : Discipline s) (t : Nat) (A : s.World → Prop) : Prop where
  stable : d.Stable t A
  exec : ∀ {choice o w r w'}, d.inv w → d.pre t o w → A w →
    s.exec choice t o w = some (r, w') → A w'

variable {d : Discipline s} {t : Nat} {A B : s.World → Prop} {p : Prog Op Resp E α}

theorem Lasting.always {P : Prop} : d.Lasting t fun _ => P :=
  ⟨fun h _ => h, fun _ _ h _ => h⟩

theorem Lasting.and {A' : s.World → Prop} (h : d.Lasting t A) (h' : d.Lasting t A') :
    d.Lasting t fun w => A w ∧ A' w :=
  ⟨fun hA hrely => ⟨h.stable hA.1 hrely, h'.stable hA.2 hrely⟩,
    fun hinv hpre hA hexec => ⟨h.exec hinv hpre hA.1 hexec, h'.exec hinv hpre hA.2 hexec⟩⟩

theorem Lasting.forall {ι : Sort*} {K : ι → s.World → Prop} (h : ∀ i, d.Lasting t (K i)) :
    d.Lasting t fun w => ∀ i, K i w :=
  ⟨fun hK hrely i => (h i).stable (hK i) hrely,
    fun hinv hpre hK hexec i => (h i).exec hinv hpre (hK i) hexec⟩

theorem Lasting.imp {P : Prop} (h : d.Lasting t A) : d.Lasting t fun w => P → A w :=
  .forall fun _ => h

/-- What is known stays known through a program. -/
theorem Safe.known {Q : Except E α → s.World → Prop} {w : s.World} (hlast : d.Lasting t A)
    (hA : A w) (h : d.Safe t Q p w) : d.Safe t (fun r w => A w ∧ Q r w) p w :=
  Safe.frame hlast.stable (fun hinv hpre hA hexec => hlast.exec hinv hpre hA hexec) hA h

/-! ## Programs -/

/-- From `B` to `B`, with `K a` known after the value `a`. -/
def Yields (d : Discipline s) (t : Nat) (B : s.World → Prop) (p : Prog Op Resp E α)
    (K : α → s.World → Prop) : Prop :=
  ∀ w, B w → d.Safe t (fun r w => B w ∧ ∀ a, r = .ok a → K a w) p w

namespace Yields

variable {K K' : α → s.World → Prop} {M : β → s.World → Prop}

theorem mono (h : d.Yields t B p K) (hK : ∀ a w, K a w → K' a w) : d.Yields t B p K' :=
  fun w hB => (h w hB).mono fun _ w hr => ⟨hr.1, fun a ha => hK a w (hr.2 a ha)⟩

theorem pure {a : α} (hK : ∀ w, B w → K a w) :
    d.Yields t B (pure a : Prog Op Resp E α) K := fun w hB =>
  ⟨hB, fun a' ha => by obtain rfl := Except.ok.inj ha; exact hK w hB⟩

theorem raise (e : E) : d.Yields t B (Prog.raise e : Prog Op Resp E α) K :=
  fun _ hB => ⟨hB, fun _ ha => by cases ha⟩

/-- The rule of sequencing: what the first program yields is known in the second. -/
theorem bind_knowing {f : α → Prog Op Resp E β} (hp : d.Yields t B p K)
    (hf : ∀ a, d.Yields t (fun w => K a w ∧ B w) (f a) M) : d.Yields t B (p >>= f) M := by
  intro w hB
  refine Safe.bind ((hp w hB).mono fun r w hr => ?_)
  cases r with
  | error e => exact ⟨hr.1, fun b hb => by cases hb⟩
  | ok a => exact (hf a w ⟨hr.2 a rfl, hr.1⟩).mono fun r w hr => ⟨hr.1.2, hr.2⟩

/-- A fact that is not about the world. -/
theorem given {P : Prop} (h : P → d.Yields t B p K) : d.Yields t (fun w => P ∧ B w) p K :=
  fun w hw => (h hw.1 w hw.2).mono fun _ _ hr => ⟨⟨hw.1, hr.1⟩, hr.2⟩

/-- What is known before is known after. -/
theorem knowing (h : d.Yields t B p K) (hlast : d.Lasting t A) :
    d.Yields t (fun w => A w ∧ B w) p K := fun w hw =>
  (Safe.known hlast hw.1 (h w hw.2)).mono fun _ _ hr => ⟨⟨hr.1, hr.2.1⟩, hr.2.2⟩

/-- The second program need not yield what the first one has. -/
theorem bind {f : α → Prog Op Resp E β} (hp : d.Yields t B p K) (hlast : ∀ a, d.Lasting t (K a))
    (hf : ∀ a, d.Yields t B (f a) fun b w => K a w → M b w) : d.Yields t B (p >>= f) M :=
  hp.bind_knowing fun a w hw => ((hf a).knowing (hlast a) w hw).mono fun _ _ hr =>
    ⟨hr.1, fun b hb => hr.2 b hb hr.1.1⟩

/-- After a program from which nothing is needed. -/
theorem next {f : α → Prog Op Resp E β} (hp : d.Yields t B p K)
    (hf : ∀ a, d.Yields t B (f a) M) : d.Yields t B (p >>= f) M :=
  (hp.mono fun _ _ _ => trivial).bind (fun _ => .always) fun a => (hf a).mono fun _ _ h _ => h

/-- A handler may know what the exception told. -/
theorem tryCatch_knowing {X : E → s.World → Prop} {handler : E → Prog Op Resp E α}
    (hp : ∀ w, B w → d.Safe t (fun r w =>
      B w ∧ (∀ a, r = .ok a → K a w) ∧ ∀ e, r = .error e → X e w) p w)
    (hlast : ∀ e, d.Lasting t (X e))
    (hhandler : ∀ e, d.Yields t B (handler e) fun a w => X e w → K a w) :
    d.Yields t B (p.tryCatch handler) K := by
  intro w hB
  refine Safe.tryCatch ((hp w hB).mono fun r w hr => ?_)
  cases r with
  | ok a => exact ⟨hr.1, hr.2.1⟩
  | error e =>
      refine (Safe.known (hlast e) (hr.2.2 e rfl) (hhandler e w hr.1)).mono fun r w hr => ?_
      exact ⟨hr.2.1, fun a ha => hr.2.2 a ha hr.1⟩

theorem tryCatch {handler : E → Prog Op Resp E α} (hp : d.Yields t B p K)
    (hhandler : ∀ e, d.Yields t B (handler e) K) : d.Yields t B (p.tryCatch handler) K :=
  tryCatch_knowing (X := fun _ _ => True)
    (fun w hB => (hp w hB).mono fun _ _ hr => ⟨hr.1, hr.2, fun _ _ => trivial⟩)
    (fun _ => .always) fun e => (hhandler e).mono fun _ _ h _ => h

theorem ensuring {cleanup : Prog Op Resp E Unit} {M : Unit → s.World → Prop}
    (hp : d.Yields t B p K) (hlast : ∀ a, d.Lasting t (K a))
    (hcleanup : d.Yields t B cleanup M) : d.Yields t B (p.ensuring cleanup) K := by
  intro w hB
  refine Safe.ensuring ((hp w hB).mono fun outcome w hr => ?_)
  refine (Safe.known (.forall fun a => .imp (hlast a)) hr.2 (hcleanup w hr.1)).mono
    fun r w hafter => ?_
  cases r with
  | ok u => exact ⟨hafter.2.1, hafter.1⟩
  | error e => exact ⟨hafter.2.1, fun _ h => by cases h⟩

/-- A program of operations that keep the resting assertion. -/
theorem of_allOps {K : α → s.World → Prop} (hstable : d.Stable t B)
    (hops : p.AllOps fun o => ∀ w, d.inv w → B w → d.pre t o w ∧
      ∀ choice r w', s.exec choice t o w = some (r, w') → B w')
    (hK : ∀ a w, B w → K a w) : d.Yields t B p K := fun _ hB =>
  (Safe.of_allOps hstable hops hB).mono fun _ w hB => ⟨hB, fun a _ => hK a w hB⟩

end Yields

/-! ## Runs -/

/-- The invariant holds, every running task is safe, and one that has ended is as
`post` says. -/
structure Meets (d : Discipline s) (post : Nat → Except E Unit → s.World → Prop)
    (c : System.Config s) : Prop where
  inv : d.inv c.world
  idle : ∀ t, c.tasks t = .idle → d.unstarted t c.world
  tasks : ∀ t p, c.tasks t = .running p → d.Safe t (post t) p c.world

variable {post : Nat → Except E Unit → s.World → Prop}

/-- A safe program stays safe while the others run. -/
theorem Safe.later_of_stable {Q : Except E α → s.World → Prop} {w w' : s.World}
    (hQ : ∀ r, d.Stable t (Q r)) (h : d.Safe t Q p w) (hrely : d.rely t w w') :
    d.Safe t Q p w' := by
  cases p with
  | ret outcome => exact hQ outcome h hrely
  | op o next => exact fun w'' hrely' => h w'' (d.rely_trans hrely hrely')

theorem Meets.pre {c : System.Config s} (h : d.Meets post c) {o : Op}
    {k : Except E (Resp o) → Prog Op Resp E Unit} (htask : c.tasks t = .running (.op o k)) :
    d.pre t o c.world :=
  (h.tasks t _ htask c.world (d.rely_refl t c.world) h.inv).1

/-- What is so of a task that has ended. -/
theorem Meets.ended {c : System.Config s} (h : d.Meets post c) {r : Except E Unit}
    (htask : c.tasks t = .running (.ret r)) : post t r c.world :=
  h.tasks t _ htask

/-- Setting one task's slot after a step the other tasks rely on. -/
theorem Meets.set {c : System.Config s} (h : d.Meets post c)
    (hpost : ∀ t r, d.Stable t (post t r)) {w : s.World} {task : System.Task Op Resp E}
    (hinv : d.inv w) (hothers : ∀ t', t' ≠ t → d.rely t' c.world w) (hstarted : task ≠ .idle)
    (hself : ∀ p, task = .running p → d.Safe t (post t) p w) :
    d.Meets post (c.set w t task) := by
  refine ⟨hinv, fun t' hidle => ?_, fun t' p htask => ?_⟩
  · by_cases heq : t' = t
    · subst heq
      exact absurd (by simpa [System.Config.set] using hidle) hstarted
    · have hsame : c.tasks t' = .idle := by
        simpa [System.Config.set, heq] using hidle
      exact d.unstarted_rely (h.idle t' hsame) (hothers t' heq)
  · by_cases heq : t' = t
    · subst heq
      exact hself p (by simpa [System.Config.set] using htask)
    · have hsame : c.tasks t' = .running p := by
        simpa [System.Config.set, heq] using htask
      exact (h.tasks t' p hsame).later_of_stable (hpost t') (hothers t' heq)

/-- One step of any task. -/
theorem Meets.next {c c' : System.Config s} {l : System.Label s} (h : d.Meets post c)
    (hpost : ∀ t r, d.Stable t (post t r))
    (henter : ∀ t e w p, l = .enter t e → d.unstarted t c.world →
      s.enter e c.world = some (w, p) → d.Safe t (post t) p w)
    (hnext : s.next l c = some c') : d.Meets post c' := by
  cases l with
  | enter t e =>
      simp only [System.next] at hnext
      split at hnext
      · rename_i hidle
        obtain ⟨x, hx, rfl⟩ := Option.map_eq_some_iff.mp hnext
        obtain ⟨hinv, hrely⟩ := d.enter_sound h.inv hx
        refine h.set hpost hinv (fun t' _ => hrely t') (by simp) fun p hp => ?_
        obtain rfl := System.Task.running.inj hp
        exact henter t e x.1 x.2 rfl (h.idle t hidle) hx
      · cases hnext
  | step t choice =>
      simp only [System.next] at hnext
      split at hnext
      · rename_i o k htask
        obtain ⟨x, hx, rfl⟩ := Option.map_eq_some_iff.mp hnext
        obtain ⟨hpre, hsafe⟩ := h.tasks t _ htask c.world (d.rely_refl t c.world) h.inv
        obtain ⟨hinv, hrely⟩ := d.exec_sound h.inv hpre hx
        refine h.set hpost hinv hrely (by simp) fun p hp => ?_
        obtain rfl := System.Task.running.inj hp
        exact hsafe choice x.1 x.2 hx
      · cases hnext
  | abort t =>
      simp only [System.next] at hnext
      split at hnext
      · obtain rfl := Option.some.inj hnext
        obtain ⟨hinv, hrely⟩ := d.abort_sound (t := t) h.inv
        exact h.set hpost hinv hrely (by simp) fun p hp => by cases hp
      · cases hnext
  | event e =>
      obtain rfl := Option.some.inj hnext
      obtain ⟨hinv, hrely⟩ := d.event_sound (e := e) h.inv
      exact ⟨hinv, fun t hidle => d.unstarted_rely (h.idle t hidle) (hrely t),
        fun t p htask => (h.tasks t p htask).later_of_stable (hpost t) (hrely t)⟩

/-- The run rule. -/
theorem reaches_meets {allowed : System.Config s → System.Label s → Prop}
    {c c' : System.Config s} (hc : d.Meets post c) (hpost : ∀ t r, d.Stable t (post t r))
    (henter : ∀ c t e w p, allowed c (.enter t e) → d.inv c.world → d.unstarted t c.world →
      s.enter e c.world = some (w, p) → d.Safe t (post t) p w)
    (hrun : s.Reaches allowed c c') : d.Meets post c' := by
  induction hrun with
  | refl => exact hc
  | tail _ ok step ih =>
      refine ih.next hpost (fun t e w p hl hidle hent => ?_) step
      subst hl
      exact henter _ t e w p ok ih.inv hidle hent

end SimulationKey.Kit.Discipline
