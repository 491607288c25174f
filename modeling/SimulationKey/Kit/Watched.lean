import SimulationKey.Kit.History

/-!
# Runs under watch

A property of runs as a property of states: a ghost state is folded over what
happens, and steps that the property is not about are refused.

* **system** — `System.watched` keeps the ghost state beside the world; its entries
  carry the task that starts.
* **runs** — every run without a refused step is a run of the watched system
  (`Runs.watched`).
* **programs** — a program that is safe without the watch is safe under it
  (`Safe.watched`).
-/

namespace SimulationKey.Kit

variable {Op : Type} {Resp : Op → Type} {E α : Type}

namespace System

/-- A ghost state, and the steps that are refused. -/
structure Watch (s : System Op Resp E) where
  Ghost : Type
  note : Happening s → Ghost → Ghost
  refuses : s.Choice → Nat → Op → s.World → Ghost → Prop

variable {s : System Op Resp E} (g : Watch s)

open Classical in
noncomputable def watched : System Op Resp E where
  World := s.World × g.Ghost
  Choice := s.Choice
  Entry := Nat × s.Entry
  Event := s.Event
  exec := fun choice t o w =>
    if g.refuses choice t o w.1 w.2 then none
    else (s.exec choice t o w.1).map fun x => (x.1, x.2, g.note (.performed t o x.1) w.2)
  enter := fun e w =>
    (s.enter e.2 w.1).map fun x => ((x.1, g.note (.entered e.1 e.2) w.2), x.2)
  abort := fun t w => (s.abort t w.1, g.note (.aborted t) w.2)
  event := fun e w => (s.event e w.1, g.note (.event e) w.2)

variable {g}

theorem watched_exec {choice : s.Choice} {t : Nat} {o : Op} {w w' : s.World × g.Ghost}
    {r : Except E (Resp o)} :
    (watched g).exec choice t o w = some (r, w') ↔
      ¬ g.refuses choice t o w.1 w.2 ∧ s.exec choice t o w.1 = some (r, w'.1) ∧
        w'.2 = g.note (.performed t o r) w.2 := by
  obtain ⟨w', ghost'⟩ := w'
  by_cases hrefuses : g.refuses choice t o w.1 w.2
  · simp [watched, hrefuses]
  · simp only [watched, hrefuses, if_false, not_false_eq_true, true_and]
    constructor
    · intro h
      obtain ⟨⟨r₀, w₀⟩, hx, heq⟩ := Option.map_eq_some_iff.mp h
      obtain ⟨rfl, hw⟩ := Prod.mk.inj heq
      obtain ⟨rfl, rfl⟩ := Prod.mk.inj hw
      exact ⟨hx, rfl⟩
    · rintro ⟨hx, rfl⟩
      rw [hx]
      rfl

theorem watched_enter {t : Nat} {e : s.Entry} {w w' : s.World × g.Ghost}
    {p : Prog Op Resp E Unit} :
    (watched g).enter (t, e) w = some (w', p) ↔
      s.enter e w.1 = some (w'.1, p) ∧ w'.2 = g.note (.entered t e) w.2 := by
  obtain ⟨w', ghost'⟩ := w'
  constructor
  · intro h
    obtain ⟨⟨w₀, p₀⟩, hx, heq⟩ := Option.map_eq_some_iff.mp h
    obtain ⟨hw, rfl⟩ := Prod.mk.inj heq
    obtain ⟨rfl, rfl⟩ := Prod.mk.inj hw
    exact ⟨hx, rfl⟩
  · rintro ⟨hx, rfl⟩
    simp only [watched]
    rw [hx]
    rfl

/-! ## Runs -/

/-- The ghost state after a history. -/
def Watch.after (g : Watch s) (ghost : g.Ghost) (h : List (Happening s)) : g.Ghost :=
  h.foldl (fun ghost x => g.note x ghost) ghost

/-- A configuration under watch. -/
def Config.watched (g : Watch s) (c : Config s) (ghost : g.Ghost) : Config (System.watched g) :=
  { world := (c.world, ghost), tasks := c.tasks }

variable {allowed : List (Happening s) → Config s → Label s → Prop} {c c' : Config s}
  {h : List (Happening s)}

/-- The entries of a run under watch. -/
def entersAs (allowed : List (Happening s) → Config s → Label s → Prop) :
    Config (watched g) → Label (watched g) → Prop
  | c, .enter t e => e.1 = t ∧ ∃ h, allowed h ⟨c.world.1, c.tasks⟩ (.enter t e.2)
  | _, _ => True

/-- A run none of whose steps is refused. -/
theorem Runs.watched (hrun : s.Runs allowed c h c') (ghost : g.Ghost)
    (haccepted : ∀ h c₁ t choice o k, allowed h c₁ (.step t choice) →
      c₁.tasks t = .running (.op o k) → ¬ g.refuses choice t o c₁.world (g.after ghost h)) :
    (System.watched g).Reaches (entersAs allowed) (c.watched g ghost)
      (c'.watched g (g.after ghost h)) := by
  induction hrun with
  | refl => exact .refl
  | @tail h c₁ c₂ l run ok step ih =>
      have hafter : ∀ x, g.after ghost (h ++ [x]) = g.note x (g.after ghost h) := fun x => by
        simp [Watch.after]
      cases l with
      | enter t e =>
          simp only [next] at step
          split at step
          · rename_i hidle
            obtain ⟨x, hx, rfl⟩ := Option.map_eq_some_iff.mp step
            refine .tail (l := .enter t (t, e)) ih ⟨rfl, h, ok⟩ ?_
            have hslot : (c₁.watched g (g.after ghost h)).tasks t = .idle := hidle
            have henter : (System.watched g).enter (t, e) (c₁.watched g (g.after ghost h)).world =
                some ((x.1, g.note (.entered t e) (g.after ghost h)), x.2) :=
              watched_enter.mpr ⟨hx, rfl⟩
            simp only [next, hslot, henter, happening, hafter]
            rfl
          · cases step
      | step t choice =>
          simp only [next] at step
          split at step
          · rename_i o k htask
            obtain ⟨x, hx, rfl⟩ := Option.map_eq_some_iff.mp step
            refine .tail (l := .step t choice) ih trivial ?_
            have hslot : (c₁.watched g (g.after ghost h)).tasks t = .running (.op o k) := htask
            have hexec : (System.watched g).exec choice t o
                (c₁.watched g (g.after ghost h)).world =
                some (x.1, x.2, g.note (.performed t o x.1) (g.after ghost h)) :=
              watched_exec.mpr ⟨haccepted h c₁ t choice o k ok htask, hx, rfl⟩
            simp only [next, hslot, hexec, happening, htask, hx, Option.map_some,
              Option.toList_some, hafter]
            rfl
          · cases step
      | abort t =>
          simp only [next] at step
          split at step
          · rename_i p htask
            obtain rfl := Option.some.inj step
            refine .tail (l := .abort t) ih trivial ?_
            have hslot : (c₁.watched g (g.after ghost h)).tasks t = .running p := htask
            simp only [next, hslot, happening, hafter]
            rfl
          · cases step
      | event e =>
          obtain rfl := Option.some.inj step
          refine .tail (l := .event e) ih trivial ?_
          simp only [next, happening, hafter]
          rfl

end System

/-! ## Programs -/

namespace Discipline

open SimulationKey.Kit.System

variable {s : System Op Resp E} {g : Watch s} {d : Discipline s} {d' : Discipline (watched g)}
  {t : Nat}

/-- An assertion that the program's operations keep is kept all along. -/
theorem Safe.beside {Q : Except E α → s.World → Prop} {A : s.World → Prop} {p : Prog Op Resp E α}
    {w : s.World} (hstable : d.Stable t A)
    (hops : p.AllOps fun o => ∀ choice w r w', d.inv w → d.pre t o w → A w →
      s.exec choice t o w = some (r, w') → A w')
    (hA : A w) (h : d.Safe t Q p w) : d.Safe t (fun r w => A w ∧ Q r w) p w := by
  induction p generalizing w with
  | ret outcome => exact ⟨hA, h⟩
  | op o next ih =>
      intro w' hrely hinv
      obtain ⟨hpre, hnext⟩ := h w' hrely hinv
      refine ⟨hpre, fun choice r w'' hexec => ih r (hops.2 r) ?_ (hnext choice r w'' hexec)⟩
      exact hops.1 choice w' r w'' hinv hpre (hstable hA hrely) hexec

/-- Two triples of one program. -/
theorem Safe.both {Q Q' : Except E α → s.World → Prop} {p : Prog Op Resp E α} {w : s.World}
    (h : d.Safe t Q p w) (h' : d.Safe t Q' p w) :
    d.Safe t (fun r w => Q r w ∧ Q' r w) p w := by
  induction p generalizing w with
  | ret outcome => exact ⟨h, h'⟩
  | op o next ih =>
      intro w' hrely hinv
      obtain ⟨hpre, hnext⟩ := h w' hrely hinv
      exact ⟨hpre, fun choice r w'' hexec =>
        ih r (hnext choice r w'' hexec) ((h' w' hrely hinv).2 choice r w'' hexec)⟩

/-- A triple under watch, where the watch asks nothing more of the operations. -/
theorem Safe.watched {Q : Except E α → s.World → Prop} {p : Prog Op Resp E α}
    {w : s.World × g.Ghost} (hinv : ∀ w, d'.inv w → d.inv w.1)
    (hrely : ∀ w w', d'.rely t w w' → d.rely t w.1 w'.1)
    (hops : p.AllOps fun o => ∀ w, d'.inv w → d.pre t o w.1 → d'.pre t o w)
    (h : d.Safe t Q p w.1) : d'.Safe t (fun r w => Q r w.1) p w := by
  induction p generalizing w with
  | ret outcome => exact h
  | op o next ih =>
      intro w' hw' hinv'
      obtain ⟨hpre, hnext⟩ := h w'.1 (hrely w w' hw') (hinv w' hinv')
      refine ⟨hops.1 w' hinv' hpre, fun choice r w'' hexec => ih r (hops.2 r) ?_⟩
      exact hnext choice r w''.1 (watched_exec.mp hexec).2.1

end Discipline

end SimulationKey.Kit
