import SimulationKey.Worker.Pipeline
import SimulationKey.Simulation.Refinement

/-!
# Which participants a run keeps

The solve takes its consumers from the first iteration and each iteration's
percentages through a dictionary by name. A successful run therefore lists, for
every iteration, the first iteration's names with the last percentage each name
has there (`simulated_iterationResult`). That is the key's own list exactly when
every iteration names the first one's consumers, as often, and gives consumers
of one name one percentage (`participants_kept_iff`); any other key it accepts
loses or alters a participant without failing.
-/

namespace SimulationKey.Theorems.Participants

open Kit PyFloat

variable {F : Type}

/-- The participants an iteration of the key lists. -/
def listed (it : IterationModel F) : List (String × F) :=
  it.consumers.map fun c => (c.name, c.energyAllocatedPercentage)

/-- The participants an iteration of the result lists. -/
def simulated (r : IterationSimResult F) : List (String × F) :=
  r.consumers.map fun c => (c.name, c.energyAllocatedPercentage)

/-- The consumers of an iteration that share a name share a percentage. -/
def OnePercentage (it : IterationModel F) : Prop :=
  ∀ c ∈ it.consumers, ∀ c' ∈ it.consumers, c.name = c'.name →
    c.energyAllocatedPercentage = c'.energyAllocatedPercentage

/-- The names of an iteration are the run's names, each as often. -/
def SameNames (consumerNames : List String) (it : IterationModel F) : Prop :=
  (it.consumers.map (·.name)).Perm consumerNames

variable [PyFloat F]

/-! ## One iteration -/

/-- The participants of an iteration's result: the run's names, looked up. -/
theorem simulated_iterationResult {T : Nat} (consumerNames : List String)
    (it : SimulationIterationInput F) (p : Pass F consumerNames.length T) :
    simulated (iterationResult consumerNames it p) =
      consumerNames.map fun name => (name, (nameToPct it name).getD 0) := by
  simp only [simulated, iterationResult, List.map_ofFn]
  rw [← List.ofFn_get (consumerNames.map _)]
  refine List.ext_getElem (by simp) fun i _ _ => ?_
  simp [consumerResult, pcts]

/-- Looking up the names of an iteration gives its list exactly when the names
are the iteration's and its percentages agree by name. -/
theorem lookup_perm_iff {consumerNames : List String} {it : IterationModel F}
    (hlisted : missingConsumer (fromCrmIteration it) consumerNames = none) :
    (consumerNames.map fun name => (name, (nameToPct (fromCrmIteration it) name).getD 0)).Perm
        (listed it) ↔
      SameNames consumerNames it ∧ OnePercentage it := by
  constructor
  · intro hperm
    have hlookup : ∀ c ∈ it.consumers, c.energyAllocatedPercentage =
        (nameToPct (fromCrmIteration it) c.name).getD 0 := by
      intro c hc
      have hmem := hperm.mem_iff.mpr (List.mem_map_of_mem hc)
      obtain ⟨name, -, hpair⟩ := List.mem_map.mp hmem
      obtain ⟨rfl, hpct⟩ := Prod.mk.inj hpair
      exact hpct.symm
    refine ⟨?_, fun c hc c' hc' hname => ?_⟩
    · have hnames := (hperm.map Prod.fst).symm
      simpa [listed, List.map_map, Function.comp_def, SameNames] using hnames
    · rw [hlookup c hc, hlookup c' hc', hname]
  · rintro ⟨hnames, hone⟩
    refine (hnames.symm.map _).trans (List.Perm.of_eq ?_)
    rw [List.map_map, listed]
    refine List.map_congr_left fun c hc => ?_
    have hmem : c.name ∈ consumerNames := hnames.mem_iff.mp (List.mem_map_of_mem hc)
    have hsome : (nameToPct (fromCrmIteration it) c.name).isSome :=
      nameToPct_isSome_iff.mpr (missingConsumer_eq_none_iff.mp hlisted _ hmem)
    obtain ⟨pct, hpct⟩ := Option.isSome_iff_exists.mp hsome
    obtain ⟨s, hs, hname, rfl⟩ := nameToPct_eq_some hpct
    obtain ⟨c', hc', rfl⟩ := List.mem_map.mp hs
    simp only [Function.comp_apply, hpct, Option.getD_some, Prod.mk.injEq, true_and]
    exact hone c' hc' c hc hname

/-! ## The run -/

omit [PyFloat F] in
/-- Two lists with the same images, related element by element as the first
list's elements decide. -/
theorem forall₂_iff_of_map_eq {α β γ : Type} {f : α → γ} {g : β → γ} {R : α → β → Prop}
    {P : α → Prop} {as : List α} {bs : List β} (himages : as.map f = bs.map g)
    (hR : ∀ a ∈ as, ∀ b, f a = g b → (R a b ↔ P a)) :
    List.Forall₂ R as bs ↔ ∀ a ∈ as, P a := by
  induction as generalizing bs with
  | nil =>
      obtain rfl : bs = [] := List.map_eq_nil_iff.mp himages.symm
      simp
  | cons a as ih =>
      cases bs with
      | nil => simp at himages
      | cons b bs =>
          obtain ⟨hhead, htail⟩ := List.cons.inj himages
          have ih := ih htail fun a' ha' => hR a' (List.mem_cons_of_mem _ ha')
          rw [List.forall₂_cons, List.forall_mem_cons, ih, hR a List.mem_cons_self b hhead]

/-- A successful run lists exactly the participants of the key, iteration by
iteration, when every iteration has the first one's names and no name has two
percentages; and only then. -/
theorem participants_kept_iff {L : Type} {str : L → String} {key : AllocationKeyModel F}
    {dataframe : DataFrame L F} {injectionName : String} {raw : SimulationRawData F}
    {res : KeySimResult F}
    (hload : toSimulationRawData str dataframe injectionName
      (consumerNamesOf (fromCrmAllocationKey key)) = .ok raw)
    (hrun : runSimulation (fromCrmAllocationKey key) raw.C raw.VA raw.consumerNames = .ok res) :
    List.Forall₂ (fun it r => (simulated r).Perm (listed it)) (sortedIterations key)
        res.iterations ↔
      ∀ it ∈ key.iterations,
        SameNames (consumerNamesOf (fromCrmAllocationKey key)) it ∧ OnePercentage it := by
  obtain ⟨consumption, production, -, rfl⟩ := toSimulationRawData_ok_iff.mp hload
  obtain ⟨h, first, rest, hres, rfl⟩ := runSimulation_ok_iff.mp hrun
  have hpasses : (sortedIterations key).map fromCrmIteration = h.runPasses.map Prod.fst :=
    h.runPasses_fst.symm
  show List.Forall₂ _ _ (first :: rest) ↔ _
  rw [← hres, Accepted.results, List.forall₂_map_right_iff]
  refine (forall₂_iff_of_map_eq (P := fun it =>
    SameNames (consumerNamesOf (fromCrmAllocationKey key)) it ∧ OnePercentage it) hpasses
      fun it hit x hx => ?_).trans ?_
  · have hlisted := h.listed (fromCrmIteration it) (List.mem_map_of_mem hit)
    rw [simulated_iterationResult, ← hx]
    exact lookup_perm_iff hlisted
  · have hmem := fun it => (sortedIterations_perm key).mem_iff (a := it)
    exact ⟨fun hall it hit => hall it ((hmem it).mpr hit),
      fun hall it hit => hall it ((hmem it).mp hit)⟩

/-- Two consumers in both of two iterations, listed in either order. -/
def twoParticipants : AllocationKeyModel ℚ :=
  { name := "k"
    description := "d"
    iterations :=
      [⟨2, 1 / 2, [⟨"B", 1 / 2⟩, ⟨"A", 1 / 4⟩]⟩, ⟨1, 1 / 2, [⟨"A", 1 / 2⟩, ⟨"B", 1 / 2⟩]⟩] }

/-- An upload of one timestep for consumers `A` and `B`. -/
def twoColumns : DataFrame String ℚ :=
  { timesteps := 1
    columns := [("A", fun _ => .ok 100), ("B", fun _ => .ok 200), ("P", fun _ => .ok 1000)] }

theorem participants_kept_twoParticipants :
    ∃ res, runFile id twoParticipants twoColumns "P" = .ok res ∧
      List.Forall₂ (fun it r => (simulated r).Perm (listed it))
        (sortedIterations twoParticipants) res.iterations := by
  have hok : (runFile id twoParticipants twoColumns "P").map (fun _ => ()) = .ok () := by
    decide +kernel
  obtain ⟨res, hrun, -⟩ := result_of_map hok
  obtain ⟨raw, hload, hsolve⟩ := runFile_ok_iff.mp hrun
  refine ⟨res, hrun, (participants_kept_iff hload (solve_ok_iff.mp hsolve).2).mpr ?_⟩
  unfold SameNames OnePercentage
  decide +kernel

/-- A key whose second iteration adds a consumer. -/
def lateParticipant : AllocationKeyModel ℚ :=
  { name := "k"
    description := "d"
    iterations := [⟨1, 1 / 2, [⟨"A", 1⟩]⟩, ⟨2, 1 / 2, [⟨"A", 1 / 2⟩, ⟨"B", 1 / 2⟩]⟩] }

/-- The added consumer is in no iteration of the result. -/
theorem late_participant_dropped :
    ∃ res, runFile id lateParticipant twoColumns "P" = .ok res ∧
      res.iterations.map simulated = [[("A", 1)], [("A", 1 / 2)]] ∧
      ¬ List.Forall₂ (fun it r => (simulated r).Perm (listed it))
        (sortedIterations lateParticipant) res.iterations := by
  have hrun : (runFile id lateParticipant twoColumns "P").map
      (fun res => (res.iterations.map simulated,
        decide (List.Forall₂ (fun it r => (simulated r).Perm (listed it))
          (sortedIterations lateParticipant) res.iterations))) =
        .ok ([[("A", 1)], [("A", 1 / 2)]], false) := by
    decide +kernel
  obtain ⟨res, hres, hvalues⟩ := result_of_map hrun
  obtain ⟨hsimulated, hnot⟩ := Prod.mk.inj hvalues
  exact ⟨res, hres, hsimulated, of_decide_eq_false hnot⟩

end SimulationKey.Theorems.Participants
