import SimulationKey.Kit.Knowledge
import SimulationKey.Theorems.SolverPool

/-!
# The slots of the solver

The semaphore of the worker caps the solves that handlers wait for, and every
handler gives its slot back, however its solve ends (`slots_given_back`).

A cancelled handler no longer waits for its solve, which may go on in its process:
the cap is on those that are waited for.
-/

namespace SimulationKey.Theorems.SolverSlots

open Kit Kit.Prog Kit.Discipline
open Theorems.SolverPool (exec_acquire exec_submit exec_result exec_release exec_other Accepts
  submitted carryOut_cases PoolInv poolInv_start smallWorker handlerSteps deliveryOnly)

variable {F B L : Type}

/-! ## Who waits -/

section Slots

variable [PyFloat F]

/-- A task waits for it, and it is unfinished. -/
def waits (x : SolveFuture F) : Bool := x.awaited && x.outcome.isNone

theorem waits_iff {x : SolveFuture F} : waits x = true ↔ x.awaited = true ∧ x.answer = none := by
  simp [waits, SolveFuture.answer]

/-- Task `t` waits for solve `i`. -/
def WaitsFor (s : Solver F) (t i : Nat) : Prop :=
  ∃ x : SolveFuture F, s.futures[i]? = some x ∧ x.task = t ∧ waits x = true

/-- Every slot is free or held, and who waits for a solve, waits for one and holds
a slot. -/
structure Slots (poolSize : Nat) (s : Solver F) : Prop where
  total : s.value + s.holders.length = poolSize
  nodup : s.holders.Nodup
  holds : ∀ {t i}, WaitsFor s t i → t ∈ s.holders
  apart : ∀ {t i j}, WaitsFor s t i → WaitsFor s t j → i = j
  pool : PoolInv s

/-- What the others do to a task: they neither take nor return a slot for it, and
submit no solve. -/
structure SlotsRely (t : Nat) (s s' : Solver F) : Prop where
  holders : t ∈ s'.holders ↔ t ∈ s.holders
  waits : ∀ i, WaitsFor s' t i → WaitsFor s t i

theorem SlotsRely.refl (t : Nat) (s : Solver F) : SlotsRely t s s := ⟨Iff.rfl, fun _ => id⟩

theorem SlotsRely.trans {t : Nat} {s s' s'' : Solver F} (h : SlotsRely t s s')
    (h' : SlotsRely t s' s'') : SlotsRely t s s'' :=
  ⟨h'.holders.trans h.holders, fun i hi => h.waits i (h'.waits i hi)⟩

/-! ## Solves that end -/

theorem waits_complete {x : SolveFuture F}
    {outcome : (key : SimulationKeyInput F) → (raw : SimulationRawData F) → Outcome key raw} :
    waits (x.complete outcome) = false := by
  rw [← Bool.not_eq_true, waits_iff]
  exact fun h => x.complete_answered outcome h.2

theorem waitsFor_complete {s : Solver F} {which : Nat → Bool}
    {outcome : (key : SimulationKeyInput F) → (raw : SimulationRawData F) → Outcome key raw}
    {t i : Nat} (h : WaitsFor (s.complete which outcome) t i) :
    WaitsFor s t i ∧ ¬ (i ∈ s.pool.pool.pending ∧ which i = true) := by
  obtain ⟨x', hx', htask, hwaits⟩ := h
  simp only [Solver.complete, List.getElem?_mapIdx, Option.map_eq_some_iff] at hx'
  obtain ⟨x, hx, rfl⟩ := hx'
  by_cases hdone : i ∈ s.pool.pool.pending ∧ which i = true
  · rw [if_pos hdone, waits_complete] at hwaits
    cases hwaits
  · rw [if_neg hdone] at htask hwaits
    exact ⟨⟨x, hx, htask, hwaits⟩, hdone⟩

theorem waitsFor_abandon {s : Solver F} {future t i : Nat} (h : WaitsFor (s.abandon future) t i) :
    WaitsFor s t i ∧ i ≠ future := by
  obtain ⟨x', hx', htask, hwaits⟩ := h
  simp only [Solver.abandon, List.getElem?_modify, Option.map_eq_map,
    Option.map_eq_some_iff] at hx'
  obtain ⟨x, hx, rfl⟩ := hx'
  by_cases heq : future = i
  · rw [if_pos heq] at hwaits
    cases hwaits
  · rw [if_neg heq] at htask hwaits
    exact ⟨⟨x, hx, htask, hwaits⟩, fun h => heq h.symm⟩

/-- A step in which no solve is submitted and no slot changes hands. -/
theorem Slots.shrink {poolSize : Nat} {s s' : Solver F} (h : Slots poolSize s)
    (hvalue : s'.value = s.value) (hholders : s'.holders = s.holders)
    (hwaits : ∀ t i, WaitsFor s' t i → WaitsFor s t i) (hpool : PoolInv s') :
    Slots poolSize s' ∧ ∀ t, SlotsRely t s s' := by
  refine ⟨⟨by rw [hvalue, hholders]; exact h.total, hholders ▸ h.nodup, fun hi => ?_,
    fun hi hj => h.apart (hwaits _ _ hi) (hwaits _ _ hj), hpool⟩,
    fun t => ⟨by rw [hholders], hwaits t⟩⟩
  rw [hholders]
  exact h.holds (hwaits _ _ hi)

theorem Slots.event {poolSize : Nat} {s : Solver F} (h : Slots poolSize s) (e : SolverEvent) :
    Slots poolSize (e.effect s) ∧ ∀ t, SlotsRely t s (e.effect s) := by
  have hpool := h.pool.of_event e
  cases e with
  | finishes future fault => exact h.shrink rfl rfl (fun t i hi => (waitsFor_complete hi).1) hpool
  | dies =>
      refine h.shrink rfl rfl (fun t i hi => ?_) hpool
      have hi : WaitsFor (s.complete (fun _ => true) fun _ _ => ⟨.error poolTerminated, trivial⟩)
          t i := hi
      exact (waitsFor_complete hi).1
  | shutsDown queued =>
      refine h.shrink rfl rfl (fun t i hi => ?_) hpool
      have hi : WaitsFor (s.cancel queued) t i := hi
      exact (waitsFor_complete hi).1

/-! ## Operations of a task -/

theorem Slots.acquire {poolSize t : Nat} {s : Solver F} (h : Slots poolSize s)
    (hvalue : s.value ≠ 0) (ht : t ∉ s.holders) :
    Slots poolSize { s with value := s.value - 1, holders := t :: s.holders } := by
  refine ⟨?_, List.nodup_cons.mpr ⟨ht, h.nodup⟩, fun hi => ?_, h.apart, ?_⟩
  · show s.value - 1 + (s.holders.length + 1) = poolSize
    have htotal := h.total
    omega
  · exact List.mem_cons_of_mem t (h.holds hi)
  · exact ⟨h.pool.pending, h.pool.broken, h.pool.replaced⟩

theorem Slots.release {poolSize t : Nat} {s : Solver F} (h : Slots poolSize s)
    (ht : t ∈ s.holders) (hdone : ∀ i, ¬ WaitsFor s t i) :
    Slots poolSize { s with value := s.value + 1, holders := s.holders.erase t } := by
  refine ⟨?_, h.nodup.erase t, fun {t' i} hi => ?_, h.apart, ?_⟩
  · show s.value + 1 + (s.holders.erase t).length = poolSize
    have hlength := List.length_erase_of_mem ht
    have hpos := List.length_pos_of_mem ht
    have htotal := h.total
    omega
  · have hother : t' ≠ t := fun heq => hdone i (heq ▸ hi)
    exact (List.mem_erase_of_ne hother).mpr (h.holds hi)
  · exact ⟨h.pool.pending, h.pool.broken, h.pool.replaced⟩

/-- A submitted solve is waited for by its task. -/
theorem waitsFor_submits {s : Solver F} {t t' i : Nat} {pool : SolverPool}
    {key : SimulationKeyInput F} {raw : SimulationRawData F} :
    WaitsFor { s with pool := pool, futures := s.futures ++ [submitted t key raw] } t' i ↔
      WaitsFor s t' i ∨ i = s.futures.length ∧ t' = t := by
  unfold WaitsFor
  rcases Nat.lt_trichotomy i s.futures.length with hlt | rfl | hgt
  · rw [List.getElem?_append_left hlt]
    simp [Nat.ne_of_lt hlt]
  · rw [List.getElem?_concat_length, List.getElem?_eq_none (Nat.le_refl _)]
    constructor
    · rintro ⟨x, hx, htask, -⟩
      obtain rfl := Option.some.inj hx
      exact Or.inr ⟨rfl, htask.symm⟩
    · rintro (⟨x, hx, -⟩ | ⟨-, rfl⟩)
      · cases hx
      · exact ⟨_, rfl, rfl, rfl⟩
  · have hlength : (s.futures ++ [submitted t key raw]).length ≤ i := by
      rw [List.length_append, List.length_singleton]
      omega
    rw [List.getElem?_eq_none hlength, List.getElem?_eq_none (Nat.le_of_lt hgt)]
    simp [Nat.ne_of_gt hgt]

theorem Slots.submits {poolSize t : Nat} {s : Solver F} (h : Slots poolSize s) {pool : SolverPool}
    (key : SimulationKeyInput F) (raw : SimulationRawData F)
    (haccepts : Accepts s.pool s.futures.length pool) (ht : t ∈ s.holders)
    (hnone : ∀ i, ¬ WaitsFor s t i) :
    Slots poolSize { s with pool := pool, futures := s.futures ++ [submitted t key raw] } := by
  refine ⟨h.total, h.nodup, fun hi => ?_, fun hi hj => ?_, h.pool.submits key raw haccepts⟩
  · rcases waitsFor_submits.mp hi with hold | ⟨-, rfl⟩
    · exact h.holds hold
    · exact ht
  · rcases waitsFor_submits.mp hi with hold | ⟨rfl, rfl⟩
    · rcases waitsFor_submits.mp hj with hold' | ⟨rfl, rfl⟩
      · exact h.apart hold hold'
      · exact absurd hold (hnone _)
    · rcases waitsFor_submits.mp hj with hold' | ⟨rfl, -⟩
      · exact absurd hold' (hnone _)
      · rfl

/-! ## The discipline -/

/-- A task takes one slot, and submits and returns as its holder. -/
def SlotsPre (t : Nat) : WorkerOp F B → Solver F → Prop
  | .acquire, s => t ∉ s.holders
  | .submit .., s | .release, s => t ∈ s.holders ∧ ∀ i, ¬ WaitsFor s t i
  | _, _ => True

theorem slots_exec {poolSize t : Nat} {choice : Choice} {o : WorkerOp F B} {w w' : Worker F B}
    {r : Except Exn o.Resp} (h : Slots poolSize w.solver) (hpre : SlotsPre t o w.solver)
    (hexec : workerExec choice t o w = some (r, w')) :
    Slots poolSize w'.solver ∧ ∀ t', t' ≠ t → SlotsRely t' w.solver w'.solver := by
  cases o with
  | other o =>
      rw [(exec_other hexec).2]
      exact ⟨h, fun t' _ => .refl t' _⟩
  | acquire =>
      rcases exec_acquire hexec with ⟨-, hvalue, rfl⟩ | ⟨-, rfl⟩
      · refine ⟨h.acquire hvalue hpre, fun t' ht' => ⟨?_, fun i => id⟩⟩
        exact List.mem_cons.trans (or_iff_right ht')
      · exact ⟨h, fun t' _ => .refl t' _⟩
  | submit key raw =>
      rcases exec_submit hexec with ⟨pool, haccepts, -, rfl⟩ | ⟨text, -, rfl⟩
      · refine ⟨h.submits key raw haccepts hpre.1 hpre.2, fun t' ht' => ⟨Iff.rfl, fun i hi => ?_⟩⟩
        rcases waitsFor_submits.mp hi with hold | ⟨-, heq⟩
        · exact hold
        · exact absurd heq ht'
      · exact ⟨h, fun t' _ => .refl t' _⟩
  | result future =>
      rcases exec_result hexec with ⟨result, -, hreceive⟩ | ⟨e, -, -, rfl⟩ | ⟨-, rfl | rfl⟩
      · obtain ⟨-, rfl⟩ := Prod.mk.inj hreceive
        exact ⟨h, fun t' _ => .refl t' _⟩
      · exact ⟨h, fun t' _ => .refl t' _⟩
      · have hshrunk : Slots poolSize (w.solver.abandon future) ∧
            ∀ t, SlotsRely t w.solver (w.solver.abandon future) :=
          h.shrink rfl rfl (fun t i hi => (waitsFor_abandon hi).1) (h.pool.abandons future)
        exact ⟨hshrunk.1, fun t' _ => hshrunk.2 t'⟩
      · have hshrunk : Slots poolSize (w.solver.cancel (· = future)) ∧
            ∀ t, SlotsRely t w.solver (w.solver.cancel (· = future)) :=
          h.shrink rfl rfl (fun t i hi => (waitsFor_complete hi).1) (h.pool.complete _ _)
        exact ⟨hshrunk.1, fun t' _ => hshrunk.2 t'⟩
  | release =>
      obtain ⟨-, rfl⟩ := exec_release hexec
      refine ⟨h.release hpre.1 hpre.2, fun t' ht' => ⟨?_, fun i => id⟩⟩
      exact List.mem_erase_of_ne ht'

variable {lib : Libraries F B L} {simulationId : Nat}

variable (lib simulationId) in
/-- The discipline of the semaphore. -/
def slots (poolSize : Nat) : Discipline (worker lib simulationId) where
  inv := fun w => Slots poolSize w.solver
  rely := fun t w w' => SlotsRely t w.solver w'.solver
  unstarted := fun t w => t ∉ w.solver.holders
  pre := fun t o w => SlotsPre t o w.solver
  rely_refl := fun t w => .refl t w.solver
  rely_trans := .trans
  unstarted_rely := fun h hrely => fun hmem => h (hrely.holders.mp hmem)
  exec_sound := slots_exec
  enter_sound := by
    intro e w w' p hinv henter
    obtain ⟨x, -, heq⟩ := Option.map_eq_some_iff.mp henter
    obtain ⟨rfl, -⟩ := Prod.mk.inj heq
    exact ⟨hinv, fun t => .refl t _⟩
  abort_sound := fun hinv => ⟨hinv, fun t' _ => .refl t' _⟩
  event_sound := by
    intro e w hinv
    cases e with
    | inl crm => exact ⟨hinv, fun t => .refl t _⟩
    | inr e => exact hinv.event e

variable {poolSize t : Nat}

/-- A task that holds no slot. -/
def Free (t : Nat) (w : Worker F B) : Prop := t ∉ w.solver.holders

/-- A task that holds a slot and waits for no solve but `future`. -/
def Holding (t : Nat) (future : Option Nat) (w : Worker F B) : Prop :=
  t ∈ w.solver.holders ∧ ∀ i, WaitsFor w.solver t i → future = some i

theorem free_stable : (slots lib simulationId poolSize).Stable t (Free t) :=
  fun h hrely hmem => h (hrely.holders.mp hmem)

theorem holding_stable {future : Option Nat} :
    (slots lib simulationId poolSize).Stable t (Holding t future) :=
  fun h hrely => ⟨hrely.holders.mpr h.1, fun i hi => h.2 i (hrely.waits i hi)⟩

/-- Who waits for nothing else has nothing to wait for once its solve has ended,
or it no longer waits. -/
theorem holding_of_result {future : Nat} {choice : Choice} {w w' : Worker F B}
    {r : Except Exn (KeySimResult F × Nat)} (hinv : Slots poolSize w.solver)
    (h : Holding t (some future) w)
    (hexec : workerExec choice t (.result future) w = some (r, w')) : Holding t none w' := by
  have hended : ∀ {r}, w.solver.outcomeOf future = some r → ∀ i, ¬ WaitsFor w.solver t i := by
    rintro r houtcome i hi
    obtain rfl := Option.some.inj (h.2 i hi)
    obtain ⟨x, hx, -, hwaits⟩ := hi
    have hnone := (waits_iff.mp hwaits).2
    simp [Solver.outcomeOf, hx, hnone] at houtcome
  rcases exec_result hexec with ⟨result, houtcome, hreceive⟩ | ⟨e, houtcome, -, rfl⟩ |
    ⟨-, rfl | rfl⟩
  · obtain ⟨-, rfl⟩ := Prod.mk.inj hreceive
    exact ⟨h.1, fun i hi => absurd hi (hended houtcome i)⟩
  · exact ⟨h.1, fun i hi => absurd hi (hended houtcome i)⟩
  · refine ⟨h.1, fun i hi => ?_⟩
    obtain ⟨hold, hne⟩ := waitsFor_abandon hi
    exact absurd (Option.some.inj (h.2 i hold)).symm hne
  · refine ⟨h.1, fun i hi => ?_⟩
    obtain ⟨hold, hleft⟩ := waitsFor_complete hi
    obtain rfl := Option.some.inj (h.2 i hold)
    -- an unfinished solve is one of the pool in use, so it was cancelled
    obtain ⟨x, hx, -, hwaits⟩ := hold
    have hpending := (hinv.pool.pending future).mpr ⟨x, hx, (waits_iff.mp hwaits).2⟩
    exact absurd ⟨hpending, by simp⟩ hleft

/-- A solve takes a slot and gives it back, however it ends. -/
theorem safe_solveInPool {w : Worker F B} (key : SimulationKeyInput F) (raw : SimulationRawData F)
    (h : Free t w) :
    (slots lib simulationId poolSize).Safe t (fun _ w => Free t w) (solveInPool key raw) w := by
  refine Safe.bind (safe_perform (d := slots lib simulationId poolSize) free_stable h
    (fun _ _ hfree => hfree) fun choice r w w' hinv hfree hexec => ?_)
  rcases exec_acquire hexec with ⟨rfl, -, rfl⟩ | ⟨rfl, rfl⟩
  · have hholding : Holding t none
        { w with
          solver :=
            { w.solver with
              value := w.solver.value - 1
              holders := t :: w.solver.holders } } :=
      ⟨List.mem_cons_self .., fun i hi => absurd (hinv.holds hi) hfree⟩
    refine Safe.ensuring (Safe.mono (Q := fun _ => Holding t none) ?_ fun outcome w hholding => ?_)
    · refine Safe.bind (safe_perform (d := slots lib simulationId poolSize) holding_stable hholding
        (fun _ _ h => ⟨h.1, fun i hi => by cases h.2 i hi⟩)
        fun choice r w w' _ h hexec => ?_)
      rcases exec_submit hexec with ⟨pool, -, rfl, rfl⟩ | ⟨text, rfl, rfl⟩
      · have hwaiting : Holding t (some w.solver.futures.length)
            { w with
              solver :=
                { w.solver with
                  pool := pool
                  futures := w.solver.futures ++ [submitted t key raw] } } := by
          refine ⟨h.1, fun i hi => ?_⟩
          rcases waitsFor_submits.mp hi with hold | ⟨rfl, -⟩
          · cases h.2 i hold
          · rfl
        exact safe_perform (d := slots lib simulationId poolSize) holding_stable hwaiting
          (fun _ _ _ => trivial) fun _ _ _ _ hinv h hexec => holding_of_result hinv h hexec
      · exact h
    · refine safe_perform (d := slots lib simulationId poolSize) holding_stable hholding
        (fun _ _ h => ⟨h.1, fun i hi => by cases h.2 i hi⟩)
        fun choice r w w' hinv h hexec => ?_
      obtain ⟨rfl, rfl⟩ := exec_release hexec
      exact fun hmem => ((List.Nodup.mem_erase_iff hinv.nodup).mp hmem).1 rfl
  · exact hfree

theorem safe_carryOut {w : Worker F B} (o : Op F B) (h : Free t w) :
    (slots lib simulationId poolSize).Safe t (fun _ w => Free t w) (carryOut o) w := by
  rcases carryOut_cases o with ⟨key, raw, rfl⟩ | hplain
  · exact safe_solveInPool key raw h
  · rw [hplain]
    refine safe_perform (d := slots lib simulationId poolSize) free_stable h
      (fun _ _ _ => trivial) fun choice r w w' _ hfree hexec => ?_
    show t ∉ w'.solver.holders
    rw [(exec_other hexec).2]
    exact hfree

/-- The solves that are waited for are held by different tasks. -/
theorem Slots.waiting_le {s : Solver F} (h : Slots poolSize s) :
    (s.futures.filter waits).length ≤ s.holders.length := by
  have hnodup : ((s.futures.filter waits).map SolveFuture.task).Nodup := by
    rw [List.Nodup, List.pairwise_map, List.pairwise_filter, List.pairwise_iff_getElem]
    intro i j hi hj hij hx hy heq
    have hne := h.apart (i := i) (j := j)
      ⟨_, List.getElem?_eq_getElem hi, rfl, hx⟩ ⟨_, List.getElem?_eq_getElem hj, heq.symm, hy⟩
    omega
  have hsubset : (s.futures.filter waits).map SolveFuture.task ⊆ s.holders := by
    intro t ht
    obtain ⟨x, hx, rfl⟩ := List.mem_map.mp ht
    obtain ⟨hmem, hwaits⟩ := List.mem_filter.mp hx
    obtain ⟨i, hi⟩ := List.mem_iff_getElem?.mp hmem
    exact h.holds ⟨x, hi, rfl, hwaits⟩
  have hle := (hnodup.subperm hsubset).length_le
  simpa using hle

/-- In every run of a worker that starts with `poolSize` free slots: at most
`poolSize` solves are waited for at any time; a handler that has ended holds no slot,
whatever it ended with; and once every handler has, all slots are free. -/
theorem slots_given_back {c c' : System.Config (worker lib simulationId)}
    {allowed : System.Config (worker lib simulationId) → System.Label (worker lib simulationId) →
      Prop} (hidle : ∀ t, c.tasks t = .idle) (hstart : c.world.solver = .start poolSize)
    (hrun : (worker lib simulationId).Reaches allowed c c') :
    (c'.world.solver.futures.filter waits).length ≤ poolSize ∧
    c'.world.solver.value + c'.world.solver.holders.length = poolSize ∧
    (∀ t r, c'.tasks t = .running (.ret r) → t ∉ c'.world.solver.holders) ∧
    ((∀ t, c'.tasks t = .idle ∨ ∃ r, c'.tasks t = .running (.ret r)) →
      c'.world.solver.value = poolSize) := by
  have hbegins : (slots lib simulationId poolSize).Meets (fun t _ => Free t) c := by
    refine ⟨?_, fun t _ => ?_, fun t p htask => ?_⟩
    · show Slots poolSize c.world.solver
      have hnobody : ∀ {t i}, ¬ WaitsFor (Solver.start poolSize : Solver F) t i := by
        rintro t i ⟨x, hx, -⟩
        cases hx
      rw [hstart]
      exact ⟨rfl, List.nodup_nil, fun hi => absurd hi hnobody, fun hi => absurd hi hnobody,
        poolInv_start poolSize⟩
    · show t ∉ c.world.solver.holders
      rw [hstart]
      exact List.not_mem_nil
    · rw [hidle t] at htask
      cases htask
  have hend := reaches_meets hbegins (fun t r => free_stable)
    (fun c t e w p _ _ hunstarted henter => by
      obtain ⟨x, -, heq⟩ := Option.map_eq_some_iff.mp henter
      obtain ⟨rfl, rfl⟩ := Prod.mk.inj heq
      exact Safe.expand (fun o w h => safe_carryOut o h) hunstarted) hrun
  have htotal : c'.world.solver.value + c'.world.solver.holders.length = poolSize := hend.inv.total
  have hwaiting := hend.inv.waiting_le
  refine ⟨by omega, htotal, fun t r hended => hend.ended hended, fun hquiet => ?_⟩
  have hempty : c'.world.solver.holders = [] := by
    refine List.eq_nil_iff_forall_not_mem.mpr fun t => ?_
    rcases hquiet t with hidle | ⟨r, hended⟩
    · exact hend.idle t hidle
    · exact hend.ended hended
  rw [hempty] at htotal
  exact htotal

end Slots

/-- The first delivery has the one slot and waits for its solve; a second one waits
for the slot. -/
theorem slots_given_back_small :
    ∃ c : System.Config (worker smallLib 1),
      (c.world.solver.futures.filter waits).length = 1 ∧ c.world.solver.holders = [1] ∧
      c.world.solver.value + c.world.solver.holders.length = 1 ∧
      ∀ t r, c.tasks t = .running (.ret r) → t ∉ c.world.solver.holders := by
  have hruns : ((System.runAll deliveryOnly
      (.enter 1 (Entry.deliver (some 1)) :: .enter 2 (Entry.deliver (some 2)) ::
        (handlerSteps 1 7 ++ handlerSteps 2 5)) smallWorker).any fun c =>
      (c.world.solver.futures.filter waits).length = 1 && c.world.solver.holders = [1]) = true := by
    decide +kernel
  obtain ⟨c, hc, hend⟩ := (Option.any_eq_true _ _).mp hruns
  obtain ⟨hwaiting, hholders⟩ := Bool.and_eq_true_iff.mp hend
  have hstart : smallWorker.world.solver = .start 1 := rfl
  obtain ⟨-, htotal, hended, -⟩ :=
    slots_given_back (fun _ => rfl) hstart (System.reaches_of_runAll hc)
  exact ⟨c, of_decide_eq_true hwaiting, of_decide_eq_true hholders, htotal, hended⟩

end SimulationKey.Theorems.SolverSlots

 