import SimulationKey.Kit.CascadeMost
import SimulationKey.Simulation.Multipliers

/-!
# When the headline rates are rates

The key's `sharing_rate_total` divides the energy self-consumed in all
iterations by the production available to the first one. For a key of
non-negative shares, at most the whole production together, whose iterations
each list FIXED fractions of at most the whole or all PRORATA:

* **self-sufficiency** is always a rate: nobody consumes more than the demand;
* **sharing** is a rate for all non-negative data exactly when the first share
  is 0 (the guard) or no demands of one timestep take more than the first share
  of a unit of production (`UnitCovered`, `headline_rates_iff`).

The most that demands take is what all iterations can hand out: their shares times
the parts they offer (`offeredShare`), attained by abundant demand. A name the run
repeats is handed its fraction each time, so an iteration may offer more than it
has; then what is carried past it is worth less than what is carried to it, and the
most that can be handed out depends on who still takes its offers (`mostHandedOut`),
which some demands attain where no PRORATA iteration is among them. Behind a first
PRORATA iteration nothing is carried.
-/

namespace SimulationKey.Theorems.Rates

open Kit

/-! ## Keys -/

/-- All FIXED with fractions summing to at most 1, or all PRORATA, as the
iteration lists its consumers. -/
def ListedOneMode (it : SimulationIterationInput ℚ) : Prop :=
  ((∀ c ∈ it.consumers, 0 ≤ c.energyAllocatedPercentage) ∧
    (it.consumers.map (·.energyAllocatedPercentage)).sum ≤ 1) ∨
  ∀ c ∈ it.consumers, c.energyAllocatedPercentage = -1

instance (it : SimulationIterationInput ℚ) : Decidable (ListedOneMode it) := instDecidableOr

/-- A key the solve can run for the consumers: non-negative shares of at most
the whole production, iterations of one mode. -/
structure RateKey (key : SimulationKeyInput ℚ) (consumerNames : List String) : Prop where
  iterations : key.iterations ≠ []
  consumers : consumerNames ≠ []
  listed : ∀ it ∈ key.iterations, missingConsumer it consumerNames = none
  shares : ∀ it ∈ key.iterations, 0 ≤ it.energyAllocatedPercentage
  shares_sum : (key.iterations.map (·.energyAllocatedPercentage)).sum ≤ 1
  modes : ∀ it ∈ key.iterations, ListedOneMode it

/-- Both headline rates lie in `[0, 1]`. -/
def RatesInRange (res : KeySimResult ℚ) : Prop :=
  (0 ≤ res.sharingRateTotal ∧ res.sharingRateTotal ≤ 1) ∧
    0 ≤ res.selfSufficiencyRateTotal ∧ res.selfSufficiencyRateTotal ≤ 1

/-- They do for all non-negative data. -/
def AlwaysInRange (key : SimulationKeyInput ℚ) (consumerNames : List String) : Prop :=
  ∀ C VA res, (∀ j t, 0 ≤ C.at j t) → (∀ t, 0 ≤ VA.at 0 t) →
    runSimulation key C VA consumerNames = .ok res → RatesInRange res

/-! ## What a key can hand out -/

/-- An iteration over a unit of production, by the fractions the run reads. -/
def planOf (consumerNames : List String) (it : SimulationIterationInput ℚ) :
    Cascade.Plan (Fin consumerNames.length) ℚ :=
  { injected := it.energyAllocatedPercentage
    offer := if AllProrata (pcts it consumerNames) then .proportional
      else .fixed (pcts it consumerNames) }

def plans (key : SimulationKeyInput ℚ) (consumerNames : List String) :
    List (Cascade.Plan (Fin consumerNames.length) ℚ) :=
  key.iterations.map (planOf consumerNames)

/-- Each share times the part of it that is offered: the fractions' sum, or 1. -/
def offeredShare (key : SimulationKeyInput ℚ) (consumerNames : List String) : ℚ :=
  ((plans key consumerNames).map fun p => p.injected * p.offer.part).sum

/-- The best choice of takers, from one iteration to the next. -/
def mostHandedOut (key : SimulationKeyInput ℚ) (consumerNames : List String) : ℚ :=
  Cascade.most (plans key consumerNames) Finset.univ 0

/-- The first iteration is PRORATA. -/
def ProrataFirst (key : SimulationKeyInput ℚ) (consumerNames : List String) : Prop :=
  ∃ it ∈ key.iterations.head?, AllProrata (pcts it consumerNames)

instance (key : SimulationKeyInput ℚ) (consumerNames : List String) :
    Decidable (ProrataFirst key consumerNames) :=
  inferInstanceAs (Decidable (∃ it ∈ key.iterations.head?, AllProrata (pcts it consumerNames)))

/-- What demands take of a unit of production, over one timestep. -/
def servedOfUnit (key : SimulationKeyInput ℚ) (consumerNames : List String)
    (demand : Fin consumerNames.length → ℚ) : ℚ :=
  Cascade.totalServed ((plans key consumerNames).map
    (Cascade.Plan.round fun j => demand j / ∑ i, demand i)) demand 0

/-- The guard, or a first share of all that any demands take. -/
def UnitCovered (key : SimulationKeyInput ℚ) (consumerNames : List String) : Prop :=
  firstShare key = 0 ∨
    ∀ demand, (∀ j, 0 ≤ demand j) → servedOfUnit key consumerNames demand ≤ firstShare key

/-- What all iterations together can hand out of a unit of production. -/
def handedOut (key : SimulationKeyInput ℚ) (consumerNames : List String) : ℚ :=
  if ProrataFirst key consumerNames then offeredShare key consumerNames
  else mostHandedOut key consumerNames

/-- The guard, or a first share of all that can be handed out. -/
def Covered (key : SimulationKeyInput ℚ) (consumerNames : List String) : Prop :=
  firstShare key = 0 ∨ handedOut key consumerNames ≤ firstShare key

instance (key : SimulationKeyInput ℚ) (consumerNames : List String) :
    Decidable (Covered key consumerNames) := instDecidableOr

/-- No PRORATA iteration is behind a FIXED one while some iteration offers more than
it has. -/
def Unmixed (key : SimulationKeyInput ℚ) (consumerNames : List String) : Prop :=
  ProrataFirst key consumerNames ∨
    (∀ it ∈ key.iterations, AllFixed (pcts it consumerNames)) ∨
    ∀ it ∈ key.iterations, OneMode (pcts it consumerNames)

section Plans

variable {key : SimulationKeyInput ℚ} {consumerNames : List String}

theorem planOf_prorata {it : SimulationIterationInput ℚ}
    (h : AllProrata (pcts it consumerNames)) :
    planOf consumerNames it = ⟨it.energyAllocatedPercentage, .proportional⟩ := by
  rw [planOf, if_pos h]

theorem planOf_fixed {it : SimulationIterationInput ℚ} (hnames : consumerNames ≠ [])
    (h : AllFixed (pcts it consumerNames)) :
    planOf consumerNames it = ⟨it.energyAllocatedPercentage, .fixed (pcts it consumerNames)⟩ := by
  rw [planOf, if_neg (h.not_allProrata (List.length_pos_iff.mpr hnames))]

variable (hkey : RateKey key consumerNames)

include hkey

/-- The run's fractions are of the listed mode, though they may sum to more. -/
theorem RateKey.mode {it : SimulationIterationInput ℚ} (hit : it ∈ key.iterations) :
    AllFixed (pcts it consumerNames) ∨ AllProrata (pcts it consumerNames) := by
  rcases hkey.modes it hit with ⟨hfixed, -⟩ | hprorata
  · exact .inl (pcts_of_listed le_rfl hfixed consumerNames)
  · exact .inr (allProrata_of_listed (hkey.listed it hit) hprorata)

/-- They sum to no more over distinct names. -/
theorem RateKey.oneMode (hnodup : consumerNames.Nodup) :
    ∀ it ∈ key.iterations, OneMode (pcts it consumerNames) := by
  intro it hit
  rcases hkey.modes it hit with ⟨hfixed, hsum⟩ | hprorata
  · exact .inl ⟨pcts_of_listed le_rfl hfixed consumerNames,
      (pcts_sum_le_listed hnodup hfixed).trans hsum⟩
  · exact .inr (allProrata_of_listed (hkey.listed it hit) hprorata)

theorem RateKey.plans_nonneg : ∀ p ∈ plans key consumerNames, p.Nonneg := by
  intro p hp
  obtain ⟨it, hit, rfl⟩ := List.mem_map.mp hp
  refine ⟨hkey.shares it hit, fun share hshare => ?_⟩
  rcases hkey.mode hit with hfixed | hprorata
  · rw [planOf_fixed hkey.consumers hfixed] at hshare
    cases hshare
    exact hfixed
  · rw [planOf_prorata hprorata] at hshare
    cases hshare

theorem RateKey.firstShare_nonneg : 0 ≤ firstShare key := by
  unfold firstShare
  cases hhead : key.iterations.head? with
  | none => exact le_rfl
  | some it => exact hkey.shares it (List.mem_of_mem_head? hhead)

/-- Where no iteration offers more than it has, the offers are all that counts. -/
theorem RateKey.handedOut_eq
    (hmodes : ∀ it ∈ key.iterations, OneMode (pcts it consumerNames)) :
    handedOut key consumerNames = offeredShare key consumerNames := by
  unfold handedOut
  split_ifs
  · rfl
  have hpart : ∀ p ∈ plans key consumerNames, p.offer.part ≤ 1 := by
    intro p hp
    obtain ⟨it, hit, rfl⟩ := List.mem_map.mp hp
    rcases hmodes it hit with ⟨hfixed, hsum⟩ | hprorata
    · rw [planOf_fixed hkey.consumers hfixed]
      exact hsum
    · rw [planOf_prorata hprorata]
      exact le_rfl
  have hmost := Cascade.most_le hkey.plans_nonneg hpart Finset.univ (le_refl (0 : ℚ))
  rw [zero_add] at hmost
  exact le_antisymm hmost (Cascade.offered_le_most _)

/-- Behind a first PRORATA iteration of all that is offered, nothing is offered. -/
theorem RateKey.idle_of_prorataFirst (hfirst : ProrataFirst key consumerNames)
    (hoffered : offeredShare key consumerNames ≤ firstShare key) :
    ∃ ps, plans key consumerNames = ⟨firstShare key, .proportional⟩ :: ps ∧
      ∀ p ∈ ps, p.injected * p.offer.part = 0 := by
  obtain ⟨it, hhead, hprorata⟩ := hfirst
  obtain ⟨rest, hits⟩ := List.head?_eq_some_iff.mp hhead
  have hplans : plans key consumerNames =
      ⟨firstShare key, .proportional⟩ :: rest.map (planOf consumerNames) := by
    rw [plans, hits, List.map_cons, planOf_prorata hprorata, firstShare, hits]
    rfl
  refine ⟨_, hplans, fun p hp => ?_⟩
  have hpart : ∀ p ∈ plans key consumerNames, 0 ≤ p.injected * p.offer.part := by
    intro p hp
    have hnonneg := hkey.plans_nonneg p hp
    refine mul_nonneg hnonneg.injected ?_
    cases hoffer : p.offer with
    | fixed share => exact Finset.sum_nonneg fun j _ => hnonneg.share share hoffer j
    | proportional => exact zero_le_one
  rw [offeredShare, hplans, List.map_cons, List.sum_cons] at hoffered
  have hrest : ∀ x ∈ (rest.map (planOf consumerNames)).map fun p => p.injected * p.offer.part,
      0 ≤ x := by
    intro x hx
    obtain ⟨p, hp, rfl⟩ := List.mem_map.mp hx
    exact hpart p (hplans ▸ List.mem_cons_of_mem _ hp)
  have hone := List.single_le_sum hrest _ (List.mem_map_of_mem hp)
  have hall : firstShare key * (Cascade.Offer.proportional :
      Cascade.Offer (Fin consumerNames.length) ℚ).part = firstShare key := mul_one _
  rw [hall] at hoffered
  exact le_antisymm (by linarith) (hpart p (hplans ▸ List.mem_cons_of_mem _ hp))

end Plans

/-! ## The run's totals -/

section Totals

variable {key : SimulationKeyInput ℚ} {C VA : Mat ℚ} {consumerNames : List String}

/-- The rates of a run in terms of the totals they divide. -/
theorem ratesInRange_of_totals {first : IterationSimResult ℚ}
    {rest : List (IterationSimResult ℚ)}
    (hserved : 0 ≤ (keyResult key first rest).energyAllocatedConsumedTotal)
    (hdemand : (keyResult key first rest).energyAllocatedConsumedTotal ≤
      (keyResult key first rest).consumptionTotal)
    (hsupply : (keyResult key first rest).energyAllocatedTotal = 0 ∨
      (keyResult key first rest).energyAllocatedConsumedTotal ≤
        (keyResult key first rest).energyAllocatedTotal) :
    RatesInRange (keyResult key first rest) := by
  have hguarded : ∀ den : ℚ, (den = 0 ∨
      (keyResult key first rest).energyAllocatedConsumedTotal ≤ den) →
      0 ≤ (if den ≠ 0 then (keyResult key first rest).energyAllocatedConsumedTotal / den else 0) ∧
        (if den ≠ 0 then (keyResult key first rest).energyAllocatedConsumedTotal / den else 0) ≤
          1 := by
    intro den hden
    split_ifs with hzero
    · have hle := hden.resolve_left hzero
      have hpos := lt_of_le_of_ne (hserved.trans hle) (Ne.symm hzero)
      exact ⟨div_nonneg hserved hpos.le, (div_le_one hpos).mpr hle⟩
    · exact ⟨le_rfl, zero_le_one⟩
  exact ⟨hguarded _ hsupply, hguarded _ (.inr hdemand)⟩

end Totals

/-! ## A covered key -/

section Covered

variable {key : SimulationKeyInput ℚ} {C VA : Mat ℚ} {consumerNames : List String}
  (hkey : RateKey key consumerNames)

include hkey

theorem RateKey.nonnegRun (hC : ∀ j t, 0 ≤ C.at j t) (hVA : ∀ t, 0 ≤ VA.at 0 t) :
    NonnegRun key C VA consumerNames :=
  { consumption := hC
    production := hVA
    shares := hkey.shares
    moded := fun _ hit => (hkey.mode hit).elim AllFixed.moded AllProrata.moded }

/-- The run's rounds are the key's plans over its supply. -/
theorem RateKey.rounds_eq (h : Accepted key C VA consumerNames) (t : Fin C.cols) :
    h.rounds t = ((plans key consumerNames).map (Cascade.Plan.scale (h.supply t))).map
      (Cascade.Plan.round fun j => h.demandAt t j / ∑ i, h.demandAt t i) := by
  rw [Accepted.rounds, plans, List.map_map, List.map_map]
  refine List.map_congr_left fun it hit => ?_
  rcases hkey.mode hit with hfixed | hprorata
  · have hshare : ∀ j, multiplier (prorataWeights h.demand) (pcts it consumerNames) j t =
        pcts it consumerNames j := fun j =>
      if_pos (lt_of_lt_of_le neg_one_lt_zero (hfixed j))
    simp only [Function.comp_apply, planOf_fixed hkey.consumers hfixed, roundAt, hshare]
    rfl
  · have hshare : ∀ j, multiplier (prorataWeights h.demand) (pcts it consumerNames) j t =
        h.demandAt t j / ∑ i, h.demandAt t i := fun j =>
      (hprorata.multiplier_eq _ j t).trans (prorataWeights_rat h.demand t j)
    simp only [Function.comp_apply, planOf_prorata hprorata, roundAt, hshare]
    rfl

/-- At each timestep at most the first share of the production is taken, where no demands
take more of a unit. -/
theorem served_le_of_unit (hn : NonnegRun key C VA consumerNames)
    (h : Accepted key C VA consumerNames)
    (hunit : ∀ demand, (∀ j, 0 ≤ demand j) →
      servedOfUnit key consumerNames demand ≤ firstShare key) (t : Fin C.cols) :
    Cascade.totalServed (h.rounds t) (h.demandAt t) 0 ≤ h.supply t * firstShare key := by
  have hd : ∀ j, 0 ≤ h.demandAt t j := fun j => hn.demand h j t
  rw [hkey.rounds_eq h t]
  rcases eq_or_lt_of_le (hn.supply h t) with hzero | hpos
  · have hnone : ∀ r ∈ ((plans key consumerNames).map (Cascade.Plan.scale (h.supply t))).map
        (Cascade.Plan.round fun j => h.demandAt t j / ∑ i, h.demandAt t i), r.injected = 0 := by
      rw [← hzero]
      simp [Cascade.Plan.round, Cascade.Plan.scale]
    rw [Cascade.totalServed_of_noSupply hnone hd, ← hzero, zero_mul]
  · -- in the unit of the production
    have hdemand : ∀ j, h.supply t * (h.demandAt t j / h.supply t) = h.demandAt t j := fun j =>
      mul_div_cancel₀ _ hpos.ne'
    have hweights : ∀ j, h.demandAt t j / h.supply t / ∑ i, h.demandAt t i / h.supply t =
        h.demandAt t j / ∑ i, h.demandAt t i := fun j => by
      rw [← Finset.sum_div, div_div_div_cancel_right₀ hpos.ne']
    have hserved := Cascade.totalServed_scale hpos.le
      (fun j => h.demandAt t j / ∑ i, h.demandAt t i) (fun j => h.demandAt t j / h.supply t) 0
      (plans key consumerNames)
    simp only [hdemand, mul_zero] at hserved
    rw [hserved]
    refine mul_le_mul_of_nonneg_left ?_ hpos.le
    have hle := hunit (fun j => h.demandAt t j / h.supply t) fun j => div_nonneg (hd j) hpos.le
    simpa only [servedOfUnit, hweights] using hle

/-- A first share of 0, or one that covers all that any demands take, keeps both rates in
range. -/
theorem inRange_of_unitCovered (hcovered : UnitCovered key consumerNames) :
    AlwaysInRange key consumerNames := by
  intro C VA res hC hVA hrun
  obtain ⟨h, first, rest, hres, rfl⟩ := runSimulation_ok_iff.mp hrun
  have hn := hkey.nonnegRun hC hVA
  refine ratesInRange_of_totals ?_ ?_ ?_
  · -- what is consumed is not negative
    rw [h.consumedTotal_eq hres]
    refine Finset.sum_nonneg fun t _ => List.sum_nonneg fun x hx => ?_
    obtain ⟨l, hl, rfl⟩ := List.mem_map.mp hx
    have hlevel := Cascade.levels_nonneg (hn.rounds h t) (fun j => hn.demand h j t) le_rfl l hl
    exact Finset.sum_nonneg fun j _ => hlevel.served_nonneg j
  · -- nor more than is demanded
    rw [h.consumedTotal_eq hres, h.consumptionTotal_eq hres]
    refine Finset.sum_le_sum fun t _ => ?_
    rw [← Cascade.totalServed_add_finalUnmet (h.rounds t) (h.demandAt t) 0]
    exact le_add_of_nonneg_right
      (Finset.sum_nonneg fun j _ => Cascade.finalUnmet_nonneg (fun j => hn.demand h j t) j)
  · -- nor more than the first iteration is allocated
    rw [h.energyAllocatedTotal_eq hres]
    refine hcovered.imp (fun hzero => by rw [hzero, mul_zero]) fun hunit => ?_
    rw [h.consumedTotal_eq hres, Finset.sum_mul]
    exact Finset.sum_le_sum fun t _ => served_le_of_unit hkey hn h hunit t

/-- No demands take more of a unit than can be handed out of it. -/
theorem unitCovered_of_covered (hcovered : Covered key consumerNames) :
    UnitCovered key consumerNames := by
  refine hcovered.imp_right fun hhanded demand hd => ?_
  unfold servedOfUnit
  rcases eq_or_lt_of_le (Finset.sum_nonneg fun j _ => hd j) with hzero | hpos
  · -- nobody demands anything
    have hle := Cascade.totalServed_add_finalUnmet ((plans key consumerNames).map
      (Cascade.Plan.round fun j => demand j / ∑ i, demand i)) demand 0
    have hunmet : 0 ≤ ∑ j, Cascade.finalUnmet ((plans key consumerNames).map
        (Cascade.Plan.round fun j => demand j / ∑ i, demand i)) demand 0 j :=
      Finset.sum_nonneg fun j _ => Cascade.finalUnmet_nonneg hd j
    have hfirst := hkey.firstShare_nonneg
    linarith
  unfold handedOut at hhanded
  split_ifs at hhanded with hfirst
  · -- the iterations behind the first offer nothing
    obtain ⟨ps, hplans, hidle⟩ := hkey.idle_of_prorataFirst hfirst hhanded
    have hnonneg := hkey.plans_nonneg
    rw [hplans] at hnonneg ⊢
    exact Cascade.totalServed_le_of_proportional_first hd hpos hkey.firstShare_nonneg
      (fun p hp => hnonneg p (List.mem_cons_of_mem _ hp)) hidle
  · -- no demands take more than the best choice of takers
    have hweights : ∀ j, 0 ≤ demand j / ∑ i, demand i := fun j => div_nonneg (hd j) hpos.le
    have hsum : ∑ j, demand j / ∑ i, demand i = 1 := by
      rw [← Finset.sum_div, div_self hpos.ne']
    exact (Cascade.totalServed_le_most_univ hweights hsum hkey.plans_nonneg hd le_rfl).trans
      hhanded

end Covered

/-! ## A key always in range -/

section InRange

variable {key : SimulationKeyInput ℚ} {consumerNames : List String}

/-- One timestep. -/
def oneTimestep {n : Nat} (d : Fin n → ℚ) : Mat ℚ := ⟨n, 1, fun j _ => d j⟩

theorem sum_oneTimestep {n : Nat} {d : Fin n → ℚ} (f : Fin (oneTimestep d).cols → ℚ) :
    ∑ t, f t = f ⟨0, one_pos⟩ :=
  Fin.sum_univ_one f

variable (hkey : RateKey key consumerNames) (hrange : AlwaysInRange key consumerNames)

include hkey hrange

/-- However much is demanded, a unit of production hands out at most the first share. -/
theorem unitCovered_of_inRange : UnitCovered key consumerNames := by
  refine or_iff_not_imp_left.mpr fun hzero d hd => ?_
  have hVA : ∀ i t, 0 ≤ (oneTimestep fun _ : Fin 1 => (1 : ℚ)).at i t :=
    Mat.at_nonneg fun _ _ => zero_le_one
  have h : Accepted key (oneTimestep d) (oneTimestep fun _ : Fin 1 => 1) consumerNames :=
    ⟨hkey.iterations, hkey.consumers, rfl, ⟨le_rfl, rfl⟩, hkey.listed⟩
  obtain ⟨res, hrun⟩ := h.run_ok
  obtain ⟨⟨-, hsharing⟩, -⟩ :=
    hrange _ _ res (Mat.at_nonneg fun j _ => hd j) (hVA 0) hrun
  obtain ⟨h, first, rest, hres, rfl⟩ := runSimulation_ok_iff.mp hrun
  have hserved : (keyResult key first rest).energyAllocatedConsumedTotal =
      servedOfUnit key consumerNames d := by
    have hunit : (plans key consumerNames).map (Cascade.Plan.scale 1) =
        plans key consumerNames := by
      refine (List.map_congr_left fun p _ => ?_).trans (List.map_id _)
      exact congrArg (Cascade.Plan.mk · p.offer) (one_mul p.injected)
    rw [h.consumedTotal_eq hres, sum_oneTimestep, hkey.rounds_eq h]
    change Cascade.totalServed
      (((plans key consumerNames).map (Cascade.Plan.scale 1)).map _) _ 0 = _
    rw [hunit]
    rfl
  have hallocated : (keyResult key first rest).energyAllocatedTotal = firstShare key := by
    rw [h.energyAllocatedTotal_eq hres, sum_oneTimestep]
    exact one_mul _
  have hrate : (keyResult key first rest).sharingRateTotal =
      (keyResult key first rest).energyAllocatedConsumedTotal / firstShare key := by
    rw [← hallocated]
    exact if_pos fun hnone => hzero (hallocated.symm.trans hnone)
  have hpos := lt_of_le_of_ne hkey.firstShare_nonneg (Ne.symm hzero)
  rw [hrate, div_le_one hpos, hserved] at hsharing
  exact hsharing

/-- Abundant demand takes everything offered. -/
theorem offered_le_of_inRange :
    firstShare key = 0 ∨ offeredShare key consumerNames ≤ firstShare key := by
  have hmax : (0 : ℚ) < max 1 (offeredShare key consumerNames) :=
    lt_max_of_lt_left one_pos
  have hpos : 0 < ∑ _j : Fin consumerNames.length, max 1 (offeredShare key consumerNames) := by
    have : NeZero consumerNames.length := ⟨(List.length_pos_iff.mpr hkey.consumers).ne'⟩
    exact Finset.sum_pos (fun _ _ => hmax) Finset.univ_nonempty
  have habundant : ∀ _j : Fin consumerNames.length,
      offeredShare key consumerNames ≤ max 1 (offeredShare key consumerNames) :=
    fun _ => le_max_right _ _
  refine (unitCovered_of_inRange hkey hrange).imp_right fun hunit => ?_
  have hle := hunit (fun _ => max 1 (offeredShare key consumerNames)) fun _ => hmax.le
  rwa [servedOfUnit, Cascade.totalServed_of_abundant (fun _ => div_nonneg hmax.le hpos.le)
    (by rw [← Finset.sum_div, div_self hpos.ne']) hkey.plans_nonneg habundant] at hle

/-- Some demand takes the most a FIXED key can hand out. -/
theorem most_le_of_inRange (hfixed : ∀ it ∈ key.iterations, AllFixed (pcts it consumerNames)) :
    firstShare key = 0 ∨ mostHandedOut key consumerNames ≤ firstShare key := by
  have hplans : ∀ p ∈ plans key consumerNames, ∃ share, p.offer = .fixed share := by
    intro p hp
    obtain ⟨it, hit, rfl⟩ := List.mem_map.mp hp
    exact ⟨_, congrArg (·.offer) (planOf_fixed hkey.consumers (hfixed it hit))⟩
  obtain ⟨d, hd, -, hserved⟩ := Cascade.exists_totalServed_eq_most hkey.plans_nonneg hplans
    Finset.univ (le_refl (0 : ℚ))
  refine (unitCovered_of_inRange hkey hrange).imp_right fun hunit => ?_
  have hle := hunit d hd
  rwa [servedOfUnit, hserved] at hle

theorem covered_of_inRange (hunmixed : Unmixed key consumerNames) :
    Covered key consumerNames := by
  have hoffered := offered_le_of_inRange hkey hrange
  by_cases hfirst : ProrataFirst key consumerNames
  · exact hoffered.imp_right fun hle => by rwa [handedOut, if_pos hfirst]
  rcases hunmixed with h | hfixed | hmodes
  · exact absurd h hfirst
  · exact (most_le_of_inRange hkey hrange hfixed).imp_right fun hle => by
      rwa [handedOut, if_neg hfirst]
  · exact hoffered.imp_right fun hle => by rwa [hkey.handedOut_eq hmodes]

end InRange

/-- The headline rates are rates for all non-negative data exactly when no demands take
more than the first share of a unit of production. A covered key is one of these keys,
and they are the covered ones unless a PRORATA iteration is behind a FIXED one and some
iteration offers more than it has; their offers are covered in any case. Over distinct
consumers no iteration offers more than it has, and only the offers count. -/
theorem headline_rates_iff {key : SimulationKeyInput ℚ} {consumerNames : List String}
    (hkey : RateKey key consumerNames) :
    (AlwaysInRange key consumerNames ↔ UnitCovered key consumerNames) ∧
      (Unmixed key consumerNames → (AlwaysInRange key consumerNames ↔ Covered key consumerNames)) ∧
      (Covered key consumerNames → AlwaysInRange key consumerNames) ∧
      (AlwaysInRange key consumerNames →
        firstShare key = 0 ∨ offeredShare key consumerNames ≤ firstShare key) ∧
      (consumerNames.Nodup → Unmixed key consumerNames ∧
        handedOut key consumerNames = offeredShare key consumerNames) := by
  have hcovered : Covered key consumerNames → AlwaysInRange key consumerNames := fun h =>
    inRange_of_unitCovered hkey (unitCovered_of_covered hkey h)
  exact ⟨⟨unitCovered_of_inRange hkey, inRange_of_unitCovered hkey⟩,
    fun hunmixed => ⟨fun hrange => covered_of_inRange hkey hrange hunmixed, hcovered⟩,
    hcovered, offered_le_of_inRange hkey,
    fun hnodup => ⟨.inr (.inr (hkey.oneMode hnodup)), hkey.handedOut_eq (hkey.oneMode hnodup)⟩⟩

/-- Two iterations that hand out half of their half each. -/
theorem headline_rates_half_fixed :
    ∃ res, runSimulation (F := ℚ) (keyOfShares [1 / 2, 1 / 2] [⟨"A", 1 / 2⟩])
        ⟨1, 1, fun _ _ => 1000⟩ ⟨1, 1, fun _ _ => 1000⟩ ["A"] = .ok res ∧ RatesInRange res := by
  have h : Accepted (F := ℚ) (keyOfShares [1 / 2, 1 / 2] [⟨"A", 1 / 2⟩]) ⟨1, 1, fun _ _ => 1000⟩
      ⟨1, 1, fun _ _ => 1000⟩ ["A"] :=
    ⟨by decide, by decide, rfl, ⟨le_rfl, rfl⟩, by decide⟩
  have hkey : RateKey (keyOfShares [1 / 2, 1 / 2] [⟨"A", 1 / 2⟩]) ["A"] :=
    { iterations := h.iterations
      consumers := h.consumers
      listed := h.listed
      shares := by decide +kernel
      shares_sum := by decide +kernel
      modes := by decide +kernel }
  obtain ⟨res, hrun⟩ := h.run_ok
  exact ⟨res, hrun, (headline_rates_iff hkey).2.2.1 (by decide +kernel) _ _ res
    (Mat.at_nonneg (by norm_num)) (Mat.at_nonneg (by norm_num) 0) hrun⟩

/-- Two half-share iterations with demand for both halves: twice the production of
the first is shared. And a name the run repeats is handed the fraction its iteration
lists last, each time. -/
theorem sharing_rate_of_two :
    (∃ res, runSimulation (F := ℚ) (keyOfShares [1 / 2, 1 / 2] [⟨"A", 1⟩])
        ⟨1, 1, fun _ _ => 1000⟩ ⟨1, 1, fun _ _ => 1000⟩ ["A"] = .ok res ∧
      RateKey (keyOfShares [1 / 2, 1 / 2] [⟨"A", 1⟩]) ["A"] ∧
      res.sharingRateTotal = 2 ∧ ¬ RatesInRange res) ∧
    ∃ res, runSimulation (F := ℚ) (keyOfShares [1] [⟨"A", 1 / 5⟩, ⟨"A", 4 / 5⟩])
        ⟨2, 1, fun _ _ => 1000⟩ ⟨1, 1, fun _ _ => 1000⟩ ["A", "A"] = .ok res ∧
      RateKey (keyOfShares [1] [⟨"A", 1 / 5⟩, ⟨"A", 4 / 5⟩]) ["A", "A"] ∧
      res.sharingRateTotal = 8 / 5 ∧ ¬ RatesInRange res := by
  have hrun : (runSimulation (F := ℚ) (keyOfShares [1 / 2, 1 / 2] [⟨"A", 1⟩])
      ⟨1, 1, fun _ _ => 1000⟩ ⟨1, 1, fun _ _ => 1000⟩ ["A"]).map (·.sharingRateTotal) =
        .ok 2 := by
    decide +kernel
  have hrun' : (runSimulation (F := ℚ) (keyOfShares [1] [⟨"A", 1 / 5⟩, ⟨"A", 4 / 5⟩])
      ⟨2, 1, fun _ _ => 1000⟩ ⟨1, 1, fun _ _ => 1000⟩ ["A", "A"]).map (·.sharingRateTotal) =
        .ok (8 / 5) := by
    decide +kernel
  have hkey : RateKey (keyOfShares [1 / 2, 1 / 2] [⟨"A", 1⟩]) ["A"] :=
    { iterations := by decide
      consumers := by decide
      listed := by decide
      shares := by decide +kernel
      shares_sum := by decide +kernel
      modes := by decide +kernel }
  have hkey' : RateKey (keyOfShares [1] [⟨"A", 1 / 5⟩, ⟨"A", 4 / 5⟩]) ["A", "A"] :=
    { iterations := by decide
      consumers := by decide
      listed := by decide
      shares := by decide +kernel
      shares_sum := by decide +kernel
      modes := by decide +kernel }
  have hover : ∀ {res : KeySimResult ℚ}, 1 < res.sharingRateTotal → ¬ RatesInRange res :=
    fun hover hrange => absurd hrange.1.2 (not_le.mpr hover)
  obtain ⟨res, hres, htwo⟩ := result_of_map hrun
  obtain ⟨res', hres', hrepeated⟩ := result_of_map hrun'
  exact ⟨⟨res, hres, hkey, htwo, hover (by rw [htwo]; norm_num)⟩,
    ⟨res', hres', hkey', hrepeated, hover (by rw [hrepeated]; norm_num)⟩⟩

end SimulationKey.Theorems.Rates
