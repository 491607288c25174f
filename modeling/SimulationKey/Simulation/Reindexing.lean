import SimulationKey.Simulation.Refinement

/-!
# Runs over reordered rows

Two trees with the same rows in different orders map to inputs whose iterations
correspond one by one, each with its consumers permuted (`SameRows`). Over exact
arithmetic, passes over such inputs are each other's reindexing along the
bijection of the two name lists (`Reindexed`), so their results agree by name
(`results_same`).
-/

namespace SimulationKey

open Kit PyFloat

/-! ## Reordered trees -/

section Trees

variable {F : Type}

/-- The same iteration row with its consumer rows in another order. -/
structure SameRows (it it' : IterationModel F) : Prop where
  number : it'.number = it.number
  share : it'.energyAllocatedPercentage = it.energyAllocatedPercentage
  consumers : it.consumers.Perm it'.consumers

/-- The same key with its iteration rows, and the consumer rows of each, in
another order. -/
structure SameTree (key key' : AllocationKeyModel F) : Prop where
  name : key'.name = key.name
  description : key'.description = key.description
  iterations : ∃ its, key.iterations.Perm its ∧ List.Forall₂ SameRows its key'.iterations

/-- Rows told apart by their unique columns: the numbers of the iterations, the
consumer names of each iteration. -/
structure DistinctRows (key : AllocationKeyModel F) : Prop where
  numbers : (key.iterations.map (·.number)).Nodup
  names : ∀ it ∈ key.iterations, (it.consumers.map (·.name)).Nodup

theorem SameRows.refl (it : IterationModel F) : SameRows it it := ⟨rfl, rfl, .refl _⟩

theorem SameRows.symm {it it' : IterationModel F} (h : SameRows it it') : SameRows it' it :=
  ⟨h.number.symm, h.share.symm, h.consumers.symm⟩

theorem SameTree.refl (key : AllocationKeyModel F) : SameTree key key :=
  ⟨rfl, rfl, key.iterations, .refl _, List.forall₂_same.mpr fun it _ => .refl it⟩

theorem SameTree.symm {key key' : AllocationKeyModel F} (h : SameTree key key') :
    SameTree key' key := by
  obtain ⟨its, hperm, hrows⟩ := h.iterations
  obtain ⟨its', hrows', hperm'⟩ := List.perm_comp_forall₂ hperm hrows
  exact ⟨h.name.symm, h.description.symm, its', hperm'.symm,
    (hrows'.imp fun _ _ hrow => hrow.symm).flip⟩

/-- What the rows of one list give for the rows they stand beside. -/
theorem forall_of_forall₂ {α β : Type} {R : α → β → Prop} {P : β → Prop} {as : List α}
    {bs : List β} (h : List.Forall₂ R as bs) (hP : ∀ a ∈ as, ∀ b, R a b → P b) :
    ∀ b ∈ bs, P b := by
  induction h with
  | nil => intro b hb; cases hb
  | cons hR _ ih =>
      intro b hb
      rcases List.mem_cons.mp hb with rfl | hb
      · exact hP _ List.mem_cons_self _ hR
      · exact ih (fun a ha => hP a (List.mem_cons_of_mem _ ha)) b hb

/-- Reordering keeps the rows distinct. -/
theorem SameTree.distinctRows {key key' : AllocationKeyModel F} (h : SameTree key key')
    (hdistinct : DistinctRows key) : DistinctRows key' := by
  obtain ⟨its, hperm, hrows⟩ := h.iterations
  have hnumbers : List.Forall₂ Eq (its.map (·.number)) (key'.iterations.map (·.number)) := by
    rw [List.forall₂_map_left_iff, List.forall₂_map_right_iff]
    exact hrows.imp fun _ _ hrow => hrow.number.symm
  rw [List.forall₂_eq_eq_eq] at hnumbers
  constructor
  · rw [← hnumbers, ← (hperm.map _).nodup_iff]
    exact hdistinct.numbers
  · refine forall_of_forall₂ hrows fun it hit it' hrow => ?_
    rw [← (hrow.consumers.map _).nodup_iff]
    exact hdistinct.names it (hperm.mem_iff.mpr hit)

theorem orderedInsert_sameRows {it it' : IterationModel F} (hrow : SameRows it it')
    {its its' : List (IterationModel F)} (hrows : List.Forall₂ SameRows its its') :
    List.Forall₂ SameRows (its.orderedInsert (fun a b => a.number ≤ b.number) it)
      (its'.orderedInsert (fun a b => a.number ≤ b.number) it') := by
  induction hrows with
  | nil => exact .cons hrow .nil
  | @cons head head' its its' hhead hrows ih =>
      rw [List.orderedInsert_cons, List.orderedInsert_cons, hrow.number, hhead.number]
      split_ifs
      · exact .cons hrow (.cons hhead hrows)
      · exact .cons hhead ih

theorem insertionSort_sameRows {its its' : List (IterationModel F)}
    (hrows : List.Forall₂ SameRows its its') :
    List.Forall₂ SameRows (its.insertionSort fun a b => a.number ≤ b.number)
      (its'.insertionSort fun a b => a.number ≤ b.number) := by
  induction hrows with
  | nil => exact .nil
  | cons hrow _ ih => exact orderedInsert_sameRows hrow ih

/-- Iterations of distinct numbers sort to one order. -/
theorem insertionSort_perm {its its' : List (IterationModel F)} (hperm : its.Perm its')
    (hnumbers : (its.map (·.number)).Nodup) :
    its.insertionSort (fun a b => a.number ≤ b.number) =
      its'.insertionSort fun a b => a.number ≤ b.number := by
  have : Std.Total fun a b : IterationModel F => a.number ≤ b.number :=
    ⟨fun a b => le_total a.number b.number⟩
  have : IsTrans (IterationModel F) fun a b => a.number ≤ b.number :=
    ⟨fun a b c => le_trans⟩
  refine List.Perm.eq_of_pairwise ?_ (List.pairwise_insertionSort _ its)
    (List.pairwise_insertionSort _ its') ?_
  · intro a b ha hb hab hba
    rw [List.mem_insertionSort] at ha hb
    exact List.inj_on_of_nodup_map hnumbers ha (hperm.mem_iff.mpr hb) (le_antisymm hab hba)
  · exact (List.perm_insertionSort _ its).trans (hperm.trans (List.perm_insertionSort _ its').symm)

/-- However the tree is ordered, the cascade runs its iterations in one order. -/
theorem sortedIterations_sameRows {key key' : AllocationKeyModel F} (h : SameTree key key')
    (hdistinct : DistinctRows key) :
    List.Forall₂ SameRows (sortedIterations key) (sortedIterations key') := by
  obtain ⟨its, hperm, hrows⟩ := h.iterations
  rw [sortedIterations, insertionSort_perm hperm hdistinct.numbers]
  exact insertionSort_sameRows hrows

/-- The names of the reordered tree are those of the tree, reordered. -/
theorem consumerNamesOf_perm {key key' : AllocationKeyModel F} (h : SameTree key key')
    (hdistinct : DistinctRows key) :
    (consumerNamesOf (fromCrmAllocationKey key)).Perm
      (consumerNamesOf (fromCrmAllocationKey key')) := by
  have hrows := sortedIterations_sameRows h hdistinct
  simp only [consumerNamesOf, fromCrmAllocationKey]
  generalize sortedIterations key = its at hrows
  generalize sortedIterations key' = its' at hrows
  cases hrows with
  | nil => exact .refl _
  | cons hrow _ =>
      simp only [List.map_cons, fromCrmIteration, List.map_map]
      exact hrow.consumers.map _

theorem consumerNamesOf_nodup {key : AllocationKeyModel F} (hdistinct : DistinctRows key) :
    (consumerNamesOf (fromCrmAllocationKey key)).Nodup := by
  simp only [consumerNamesOf, fromCrmAllocationKey]
  cases hsorted : sortedIterations key with
  | nil => exact List.nodup_nil
  | cons it rest =>
      have hit : it ∈ key.iterations :=
        (sortedIterations_perm key).mem_iff.mp (by rw [hsorted]; exact List.mem_cons_self)
      have hnames := hdistinct.names it hit
      simpa [fromCrmIteration, fromCrmConsumer, Function.comp_def] using hnames

/-- A name has one percentage in an iteration, wherever its row stands. -/
theorem nameToPct_sameRows {it it' : IterationModel F} (hrow : SameRows it it')
    (hnames : (it.consumers.map (·.name)).Nodup) (name : String) :
    nameToPct (fromCrmIteration it') name = nameToPct (fromCrmIteration it) name := by
  have hperm : (fromCrmIteration it).consumers.Perm (fromCrmIteration it').consumers :=
    hrow.consumers.map _
  have hnodup : ((fromCrmIteration it).consumers.map (·.name)).Nodup := by
    simpa [fromCrmIteration, fromCrmConsumer, Function.comp_def] using hnames
  have hnodup' : ((fromCrmIteration it').consumers.map (·.name)).Nodup :=
    (hperm.map _).nodup_iff.mp hnodup
  cases hpct : nameToPct (fromCrmIteration it) name with
  | none =>
      rw [← Option.not_isSome_iff_eq_none, nameToPct_isSome_iff] at hpct ⊢
      rwa [(hperm.map _).mem_iff] at hpct
  | some pct =>
      obtain ⟨c, hc, rfl, rfl⟩ := nameToPct_eq_some hpct
      exact nameToPct_of_nodup hnodup' (hperm.mem_iff.mp hc)

end Trees

/-! ## Reindexed passes -/

section Passes

variable {n n' T : Nat} (e : Fin n ≃ Fin n')

/-- The same pass with its consumers renumbered. -/
structure Reindexed (p : Pass ℚ n T) (p' : Pass ℚ n' T) : Prop where
  va : p'.va = p.va
  consumption : ∀ j t, p'.consumption (e j) t = p.consumption j t
  allocated : ∀ j t, p'.allocated (e j) t = p.allocated j t

/-- The same carry with its consumers renumbered. -/
def ReindexedCarry : Option (Carry ℚ n T) → Option (Carry ℚ n' T) → Prop
  | none, none => True
  | some prev, some prev' =>
    (∀ j t, prev'.residual (e j) t = prev.residual j t) ∧ prev'.surplus = prev.surplus
  | _, _ => False

variable {e}

/-- A sum over renumbered consumers. -/
theorem axisSum_reindexed {how how' : Summation} {f : Fin n → ℚ} {f' : Fin n' → ℚ}
    (h : ∀ j, f' (e j) = f j) : axisSum how' f' = axisSum how f := by
  rw [axisSum_rat, axisSum_rat, ← Equiv.sum_comp e f']
  exact Finset.sum_congr rfl fun j _ => h j

theorem multiplier_reindexed {weights : Fin n → Fin T → ℚ} {weights' : Fin n' → Fin T → ℚ}
    {pct : Fin n → ℚ} {pct' : Fin n' → ℚ} {j : Fin n} {t : Fin T} (hpct : pct' (e j) = pct j)
    (hweights : weights' (e j) t = weights j t) :
    multiplier weights' pct' (e j) t = multiplier weights pct j t := by
  unfold multiplier
  by_cases hfixed : -1 < pct j
  · rw [if_pos hfixed, if_pos (by rwa [hpct]), hpct]
  · rw [if_neg hfixed, if_neg (by rwa [hpct]), hweights]

namespace Reindexed

variable {p : Pass ℚ n T} {p' : Pass ℚ n' T} (h : Reindexed e p p')

include h

theorem residual (j : Fin n) (t : Fin T) : p'.residual (e j) t = p.residual j t := by
  rw [Pass.residual, Pass.residual, h.consumption, h.allocated]

theorem surplus (j : Fin n) (t : Fin T) : p'.surplus (e j) t = p.surplus j t := by
  rw [Pass.surplus, Pass.surplus, h.consumption, h.allocated]

theorem consumed (j : Fin n) (t : Fin T) : p'.consumed (e j) t = p.consumed j t := by
  rw [Pass.consumed, Pass.consumed, h.consumption, h.allocated]

theorem consumptionSeries : p'.consumptionSeries = p.consumptionSeries :=
  funext fun t => axisSum_reindexed fun j => h.consumption j t

theorem consumedSeries : p'.consumedSeries = p.consumedSeries :=
  funext fun t => axisSum_reindexed fun j => h.consumed j t

theorem residualSeries : p'.residualSeries = p.residualSeries :=
  funext fun t => axisSum_reindexed fun j => h.residual j t

theorem surplusSeries : p'.surplusSeries = p.surplusSeries :=
  funext fun t => axisSum_reindexed fun j => h.surplus j t

theorem carry : ReindexedCarry e (some p.carry) (some p'.carry) :=
  ⟨fun j t => h.residual j t, h.surplusSeries⟩

theorem consumerResult (name : String) (pct : ℚ) (j : Fin n) :
    consumerResult p' name pct (e j) = consumerResult p name pct j := by
  have hconsumption : p'.consumption (e j) = p.consumption j := funext (h.consumption j)
  have hallocated : p'.allocated (e j) = p.allocated j := funext (h.allocated j)
  have hconsumed : p'.consumed (e j) = p.consumed j := funext (h.consumed j)
  have hresidual : p'.residual (e j) = p.residual j := funext (h.residual j)
  have hsurplus : p'.surplus (e j) = p.surplus j := funext (h.surplus j)
  simp only [SimulationKey.consumerResult, hconsumption, hallocated, hconsumed, hresidual, hsurplus]

end Reindexed

end Passes

/-! ## The results of reindexed passes -/

/-- Equal values, and equal results of the consumers of one name. -/
structure SameIteration (it it' : IterationSimResult ℚ) : Prop where
  values : { it' with consumers := [] } = { it with consumers := [] }
  consumers : it.consumers.Perm it'.consumers
  byName : ∀ c ∈ it.consumers, ∀ c' ∈ it'.consumers, c'.name = c.name → c' = c

/-- Equal key-level values and, in the same order, the same iterations. -/
structure SameResult (res res' : KeySimResult ℚ) : Prop where
  values : { res' with iterations := [] } = { res with iterations := [] }
  iterations : List.Forall₂ SameIteration res.iterations res'.iterations

section Results

variable {T : Nat} {consumerNames consumerNames' : List String}
  {e : Fin consumerNames.length ≃ Fin consumerNames'.length}

theorem iterationResult_same (hnodup : consumerNames.Nodup)
    (he : ∀ j, consumerNames'.get (e j) = consumerNames.get j) {it it' : IterationModel ℚ}
    (hrow : SameRows it it') (hnames : (it.consumers.map (·.name)).Nodup)
    {p : Pass ℚ consumerNames.length T} {p' : Pass ℚ consumerNames'.length T}
    (hp : Reindexed e p p') :
    SameIteration (iterationResult consumerNames (fromCrmIteration it) p)
      (iterationResult consumerNames' (fromCrmIteration it') p') := by
  have hpcts : ∀ j, pcts (fromCrmIteration it') consumerNames' (e j) =
      pcts (fromCrmIteration it) consumerNames j := fun j => by
    rw [pcts, pcts, he, nameToPct_sameRows hrow hnames]
  have hresult : ∀ j, consumerResult p' (consumerNames'.get (e j))
      (pcts (fromCrmIteration it') consumerNames' (e j)) (e j) =
        consumerResult p (consumerNames.get j) (pcts (fromCrmIteration it) consumerNames j) j :=
    fun j => by rw [he, hpcts, hp.consumerResult]
  refine { values := ?_, consumers := ?_, byName := ?_ }
  · simp only [iterationResult, fromCrmIteration, hrow.number, hrow.share, hp.va,
      hp.consumptionSeries, hp.consumedSeries, hp.residualSeries, hp.surplusSeries]
  · have hperm : ((List.finRange _).map e).Perm (List.finRange consumerNames'.length) := by
      refine (List.perm_ext_iff_of_nodup ((List.nodup_finRange _).map e.injective)
        (List.nodup_finRange _)).mpr fun j => ?_
      simp only [List.mem_map, List.mem_finRange, true_and, iff_true]
      exact ⟨e.symm j, e.apply_symm_apply j⟩
    simp only [iterationResult, List.ofFn_eq_map]
    refine List.Perm.trans (List.Perm.of_eq ?_) (hperm.map _)
    rw [List.map_map]
    exact List.map_congr_left fun j _ => (hresult j).symm
  · intro c hc c' hc' hname
    obtain ⟨j, rfl⟩ := (List.mem_ofFn' _ _).mp hc
    obtain ⟨j', rfl⟩ := (List.mem_ofFn' _ _).mp hc'
    obtain ⟨i, rfl⟩ := e.surjective j'
    have hname : consumerNames.get i = consumerNames.get j := (he i).symm.trans hname
    obtain rfl : i = j := hnodup.injective_get hname
    exact hresult i

/-- Runs over reordered rows whose iterations inject the same energy have the
same results. -/
theorem results_same (hnodup : consumerNames.Nodup)
    (he : ∀ j, consumerNames'.get (e j) = consumerNames.get j)
    {production production' : Fin T → ℚ} {C : Fin consumerNames.length → Fin T → ℚ}
    {C' : Fin consumerNames'.length → Fin T → ℚ} (hC : ∀ j t, C' (e j) t = C j t)
    {its its' : List (IterationModel ℚ)} (hrows : List.Forall₂ SameRows its its')
    (hnames : ∀ it ∈ its, (it.consumers.map (·.name)).Nodup)
    (hinjected : ∀ it ∈ its, ∀ t,
      production' t * it.energyAllocatedPercentage = production t * it.energyAllocatedPercentage)
    {prev : Option (Carry ℚ consumerNames.length T)}
    {prev' : Option (Carry ℚ consumerNames'.length T)} (hprev : ReindexedCarry e prev prev') :
    List.Forall₂ SameIteration
      ((passes production C (prorataWeights C) (its.map fromCrmIteration) prev).map
        fun x => iterationResult consumerNames x.1 x.2)
      ((passes production' C' (prorataWeights C') (its'.map fromCrmIteration) prev').map
        fun x => iterationResult consumerNames' x.1 x.2) := by
  induction hrows generalizing prev prev' with
  | nil => exact .nil
  | @cons it it' its its' hrow hrows ih =>
      have hit := hnames it List.mem_cons_self
      have hva : vaSeries production' (fromCrmIteration it').energyAllocatedPercentage prev' =
          vaSeries production (fromCrmIteration it).energyAllocatedPercentage prev := by
        have hinj := hinjected it List.mem_cons_self
        funext t
        cases prev <;> cases prev' <;> simp only [ReindexedCarry] at hprev
        · simp only [vaSeries, fromCrmIteration, hrow.share, hinj]
        · simp only [vaSeries, fromCrmIteration, hrow.share, hinj, hprev.2]
      have hconsumption : ∀ j t,
          consumptionMatrix C' prev' (e j) t = consumptionMatrix C prev j t := by
        intro j t
        cases prev <;> cases prev' <;> simp only [ReindexedCarry] at hprev
        · exact hC j t
        · exact hprev.1 j t
      have hweights : ∀ j t, prorataWeights C' (e j) t = prorataWeights C j t := fun j t => by
        rw [prorataWeights, prorataWeights, hC, axisSum_reindexed fun i => hC i t]
      have hp : Reindexed e
          (allocationPass production C (prorataWeights C)
            (fromCrmIteration it).energyAllocatedPercentage
            (pcts (fromCrmIteration it) consumerNames) prev)
          (allocationPass production' C' (prorataWeights C')
            (fromCrmIteration it').energyAllocatedPercentage
            (pcts (fromCrmIteration it') consumerNames') prev') :=
        { va := hva
          consumption := hconsumption
          allocated := fun j t => by
            have hpct : pcts (fromCrmIteration it') consumerNames' (e j) =
                pcts (fromCrmIteration it) consumerNames j := by
              rw [pcts, pcts, he, nameToPct_sameRows hrow hit]
            simp only [allocationPass, hva, multiplier_reindexed hpct (hweights j t)] }
      rw [List.map_cons, List.map_cons, passes, passes, List.map_cons, List.map_cons]
      exact .cons (iterationResult_same hnodup he hrow hit hp)
        (ih (fun it' h => hnames it' (List.mem_cons_of_mem _ h))
          (fun it' h => hinjected it' (List.mem_cons_of_mem _ h)) hp.carry)

/-- Runs of one key over one matrix that hand out the same energy in every
iteration inject the same energy in every iteration. -/
theorem injected_of_same {production production' : Fin T → ℚ}
    {C weights : Fin consumerNames.length → Fin T → ℚ} {its : List (SimulationIterationInput ℚ)}
    {prev : Option (Carry ℚ consumerNames.length T)}
    (h : List.Forall₂ (fun r r' => r'.energyAllocated = r.energyAllocated)
      ((passes production C weights its prev).map fun x => iterationResult consumerNames x.1 x.2)
      ((passes production' C weights its prev).map
        fun x => iterationResult consumerNames x.1 x.2)) :
    ∀ it ∈ its, ∀ t,
      production' t * it.energyAllocatedPercentage = production t * it.energyAllocatedPercentage := by
  induction its generalizing prev with
  | nil => intro it hit; cases hit
  | cons it its ih =>
      rw [passes, passes, List.map_cons, List.map_cons, List.forall₂_cons] at h
      obtain ⟨hhead, htail⟩ := h
      have hva : vaSeries production' it.energyAllocatedPercentage prev =
          vaSeries production it.energyAllocatedPercentage prev := List.ofFn_injective hhead
      have hinjected : ∀ t, production' t * it.energyAllocatedPercentage =
          production t * it.energyAllocatedPercentage := by
        intro t
        have hat := congrFun hva t
        cases prev with
        | none => exact hat
        | some prev => exact add_right_cancel hat
      -- equal supply, equal demand: the passes are one, and so is what they carry on
      have hpass : allocationPass production' C weights it.energyAllocatedPercentage
          (pcts it consumerNames) prev = allocationPass production C weights
            it.energyAllocatedPercentage (pcts it consumerNames) prev := by
        simp only [allocationPass, hva]
      rw [hpass] at htail
      intro it' hit'
      rcases List.mem_cons.mp hit' with rfl | hit'
      · exact hinjected
      · exact ih htail it' hit'

/-- The last rows of lists that correspond row by row correspond. -/
theorem forall₂_getLast {α β : Type} {R : α → β → Prop} {a : α} {as : List α} {b : β} {bs : List β}
    (h : List.Forall₂ R (a :: as) (b :: bs)) :
    R ((a :: as).getLast (List.cons_ne_nil _ _)) ((b :: bs).getLast (List.cons_ne_nil _ _)) := by
  induction as generalizing a b bs with
  | nil =>
      cases h with
      | cons hab hrest =>
          cases hrest
          exact hab
  | cons a' as ih =>
      cases h with
      | cons _ hrest =>
          cases bs with
          | nil => cases hrest
          | cons b' bs => exact ih (b := b') hrest

/-- The roll-up of the same iterations is the same. -/
theorem keyResult_same {key key' : SimulationKeyInput ℚ} (hname : key'.name = key.name)
    (hdescription : key'.description = key.description) {first first' : IterationSimResult ℚ}
    {rest rest' : List (IterationSimResult ℚ)}
    (h : List.Forall₂ SameIteration (first :: rest) (first' :: rest')) :
    SameResult (keyResult key first rest) (keyResult key' first' rest') := by
  have hconsumed : List.Forall₂ Eq ((first :: rest).map (·.energyAllocatedConsumedTotal))
      ((first' :: rest').map (·.energyAllocatedConsumedTotal)) := by
    rw [List.forall₂_map_left_iff, List.forall₂_map_right_iff]
    refine h.imp fun r r' hr => ?_
    have htotal := congrArg IterationSimResult.energyAllocatedConsumedTotal hr.values
    exact htotal.symm
  rw [List.forall₂_eq_eq_eq] at hconsumed
  have hfirst : SameIteration first first' := (List.forall₂_cons.mp h).1
  have hlast := forall₂_getLast h
  have hconsumption : first'.consumptionTotal = first.consumptionTotal := by
    have htotal := congrArg IterationSimResult.consumptionTotal hfirst.values
    exact htotal
  have hallocated : first'.energyAllocatedTotal = first.energyAllocatedTotal := by
    have htotal := congrArg IterationSimResult.energyAllocatedTotal hfirst.values
    exact htotal
  have hresidual : ((first' :: rest').getLast (List.cons_ne_nil _ _)).residualVolumeTotal =
      ((first :: rest).getLast (List.cons_ne_nil _ _)).residualVolumeTotal := by
    have htotal := congrArg IterationSimResult.residualVolumeTotal hlast.values
    exact htotal
  have hsurplus : ((first' :: rest').getLast (List.cons_ne_nil _ _)).surplusTotal =
      ((first :: rest).getLast (List.cons_ne_nil _ _)).surplusTotal := by
    have htotal := congrArg IterationSimResult.surplusTotal hlast.values
    exact htotal
  refine ⟨?_, h⟩
  simp only [keyResult, hname, hdescription, ← hconsumed, hresidual, hsurplus, hconsumption,
    hallocated]

end Results

end SimulationKey
