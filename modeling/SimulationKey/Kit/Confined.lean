import SimulationKey.Kit.History

/-!
# Runs in a confined environment

A system whose environment does only what a predicate allows (`System.confined`).
A run in which it did nothing else is a run of that system (`Runs.confined`), so
what the environment keeps can be part of a discipline's invariant.
-/

namespace SimulationKey.Kit.System

variable {Op : Type} {Resp : Op → Type} {E : Type} {s : System Op Resp E}

def confined (s : System Op Resp E) (ok : s.Event → Prop) : System Op Resp E where
  World := s.World
  Choice := s.Choice
  Entry := s.Entry
  Event := { e : s.Event // ok e }
  exec := s.exec
  enter := s.enter
  abort := s.abort
  event := fun e => s.event e.1

/-- The same configuration. -/
def Config.confined (c : Config s) (ok : s.Event → Prop) : Config (s.confined ok) :=
  { world := c.world, tasks := c.tasks }

/-- The entries of a run, confined. -/
def entersIn (allowed : List (Happening s) → Config s → Label s → Prop) (ok : s.Event → Prop) :
    Config (s.confined ok) → Label (s.confined ok) → Prop
  | c, .enter t e => ∃ h, allowed h ⟨c.world, c.tasks⟩ (.enter t e)
  | _, _ => True

variable {ok : s.Event → Prop} {allowed : List (Happening s) → Config s → Label s → Prop}
  {c c' : Config s} {h : List (Happening s)}

/-- A run in which the environment did only what it may. -/
theorem Runs.confined (hrun : s.Runs allowed c h c') (hok : ∀ e, .event e ∈ h → ok e) :
    (s.confined ok).Reaches (entersIn allowed ok) (c.confined ok) (c'.confined ok) := by
  induction hrun with
  | refl => exact .refl
  | @tail h c₁ c₂ l run hallowed step ih =>
      have hrun := ih fun e he => hok e (List.mem_append_left _ he)
      cases l with
      | enter t e =>
          refine .tail (l := .enter t e) hrun ⟨h, hallowed⟩ ?_
          simp only [next] at step
          split at step
          · rename_i hidle
            obtain ⟨x, hx, rfl⟩ := Option.map_eq_some_iff.mp step
            have hslot : (c₁.confined ok).tasks t = .idle := hidle
            have henter : (s.confined ok).enter e (c₁.confined ok).world = some x := hx
            simp only [next, hslot, henter]
            rfl
          · cases step
      | step t choice =>
          refine .tail (l := .step t choice) hrun trivial ?_
          simp only [next] at step
          split at step
          · rename_i o k htask
            obtain ⟨x, hx, rfl⟩ := Option.map_eq_some_iff.mp step
            have hslot : (c₁.confined ok).tasks t = .running (.op o k) := htask
            have hexec : (s.confined ok).exec choice t o (c₁.confined ok).world = some x := hx
            simp only [next, hslot, hexec]
            rfl
          · cases step
      | abort t =>
          refine .tail (l := .abort t) hrun trivial ?_
          simp only [next] at step
          split at step
          · rename_i p htask
            obtain rfl := Option.some.inj step
            have hslot : (c₁.confined ok).tasks t = .running p := htask
            simp only [next, hslot]
            rfl
          · cases step
      | event e =>
          obtain rfl := Option.some.inj step
          refine .tail (l := .event ⟨e, hok e (by simp [happening])⟩) hrun trivial ?_
          rfl

end SimulationKey.Kit.System
