import SimulationKey.Simulation.Readings

/-!
# What the multipliers hand out

A consumer is FIXED (a non-negative fraction) or PRORATA (`-1`). An iteration's
multipliers at a timestep sum to its FIXED fractions plus the part of the total
consumption that its PRORATA consumers account for (`multiplier_sum`); for an
iteration of one mode this is its fractions' sum, or 1 where somebody consumes
and 0 where nobody does.

The fractions are read over the run's consumers (`pcts`). Where these are distinct,
their sum is at most the sum over the iteration's list (`pcts_sum_le_listed`); a
consumer the run names twice is handed its fraction twice.
-/

namespace SimulationKey

open Kit PyFloat

/-! ## Modes -/

section Modes

variable {n : Nat}

/-- Each consumer is FIXED or PRORATA. -/
def Moded (pct : Fin n → ℚ) : Prop := ∀ j, 0 ≤ pct j ∨ pct j = -1

/-- Every consumer is FIXED. -/
def AllFixed (pct : Fin n → ℚ) : Prop := ∀ j, 0 ≤ pct j

/-- Every consumer is PRORATA. -/
def AllProrata (pct : Fin n → ℚ) : Prop := ∀ j, pct j = -1

instance (pct : Fin n → ℚ) : Decidable (Moded pct) := Nat.decidableForallFin _

instance (pct : Fin n → ℚ) : Decidable (AllFixed pct) := Nat.decidableForallFin _

instance (pct : Fin n → ℚ) : Decidable (AllProrata pct) := Nat.decidableForallFin _

theorem AllFixed.moded {pct : Fin n → ℚ} (h : AllFixed pct) : Moded pct := fun j => .inl (h j)

theorem AllProrata.moded {pct : Fin n → ℚ} (h : AllProrata pct) : Moded pct := fun j => .inr (h j)

/-- PRORATA consumers are handed their weights. -/
theorem AllProrata.multiplier_eq {T : Nat} {pct : Fin n → ℚ} (h : AllProrata pct)
    (weights : Fin n → Fin T → ℚ) (j : Fin n) (t : Fin T) :
    multiplier weights pct j t = weights j t := by
  rw [multiplier, if_neg (by rw [h j]; exact lt_irrefl _)]

theorem AllFixed.not_allProrata {pct : Fin n → ℚ} (hn : 0 < n) (h : AllFixed pct) :
    ¬ AllProrata pct := fun hpro => by
  have hfixed := h ⟨0, hn⟩
  rw [hpro ⟨0, hn⟩] at hfixed
  norm_num at hfixed

/-- All FIXED with fractions summing to at most 1, or all PRORATA. -/
def OneMode (pct : Fin n → ℚ) : Prop :=
  (AllFixed pct ∧ ∑ j, pct j ≤ 1) ∨ AllProrata pct

instance (pct : Fin n → ℚ) : Decidable (OneMode pct) := instDecidableOr

/-- The sum of the FIXED fractions. -/
def fixedFraction (pct : Fin n → ℚ) : ℚ := ∑ j, if -1 < pct j then pct j else 0

end Modes

/-! ## Weights -/

section Weights

variable {n T : Nat} (C : Fin n → Fin T → ℚ) (t : Fin T)

theorem prorataWeights_rat (j : Fin n) : prorataWeights C j t = C j t / ∑ i, C i t := by
  rw [prorataWeights, safeDivide_rat, axisSum_rat]

theorem prorataWeights_nonneg (hC : ∀ j t, 0 ≤ C j t) (j : Fin n) : 0 ≤ prorataWeights C j t := by
  rw [prorataWeights_rat]
  exact div_nonneg (hC j t) (Finset.sum_nonneg fun i _ => hC i t)

/-- The part of the total consumption `c` that the PRORATA consumers account for
(0 where nobody consumes). -/
def prorataFraction (c : Fin n → ℚ) (pct : Fin n → ℚ) : ℚ :=
  (∑ j, if -1 < pct j then 0 else c j) / ∑ i, c i

theorem multiplier_sum (pct : Fin n → ℚ) :
    ∑ j, multiplier (prorataWeights C) pct j t =
      fixedFraction pct + prorataFraction (fun j => C j t) pct := by
  rw [fixedFraction, prorataFraction, Finset.sum_div, ← Finset.sum_add_distrib]
  refine Finset.sum_congr rfl fun j _ => ?_
  rw [multiplier, prorataWeights_rat]
  split_ifs <;> simp

theorem multiplier_nonneg (hC : ∀ j t, 0 ≤ C j t) {pct : Fin n → ℚ} (hpct : Moded pct)
    (j : Fin n) : 0 ≤ multiplier (prorataWeights C) pct j t := by
  rw [multiplier]
  split_ifs with hfixed
  · rcases hpct j with h | h
    · exact h
    · rw [h] at hfixed
      exact absurd hfixed (lt_irrefl _)
  · exact prorataWeights_nonneg C t hC j

/-! ### Iterations of one mode -/

theorem AllFixed.fixedFraction_eq {pct : Fin n → ℚ} (h : AllFixed pct) :
    fixedFraction pct = ∑ j, pct j :=
  Finset.sum_congr rfl fun j _ => if_pos (lt_of_lt_of_le neg_one_lt_zero (h j))

theorem AllFixed.prorataFraction_eq (c : Fin n → ℚ) {pct : Fin n → ℚ} (h : AllFixed pct) :
    prorataFraction c pct = 0 := by
  rw [prorataFraction, Finset.sum_eq_zero fun j _ =>
    if_pos (lt_of_lt_of_le neg_one_lt_zero (h j)), zero_div]

theorem AllProrata.fixedFraction_eq {pct : Fin n → ℚ} (h : AllProrata pct) :
    fixedFraction pct = 0 :=
  Finset.sum_eq_zero fun j _ => if_neg (by rw [h j]; exact lt_irrefl _)

theorem AllProrata.prorataFraction_eq (c : Fin n → ℚ) {pct : Fin n → ℚ} (h : AllProrata pct) :
    prorataFraction c pct = if ∑ i, c i = 0 then 0 else 1 := by
  have hsum : (∑ j, if -1 < pct j then 0 else c j) = ∑ j, c j :=
    Finset.sum_congr rfl fun j _ => if_neg (by rw [h j]; exact lt_irrefl _)
  rw [prorataFraction, hsum]
  split_ifs with hzero
  · rw [hzero, div_zero]
  · exact div_self hzero

theorem AllFixed.multiplier_sum {pct : Fin n → ℚ} (h : AllFixed pct) :
    ∑ j, multiplier (prorataWeights C) pct j t = ∑ j, pct j := by
  rw [SimulationKey.multiplier_sum, h.fixedFraction_eq, h.prorataFraction_eq, add_zero]

theorem AllProrata.multiplier_sum {pct : Fin n → ℚ} (h : AllProrata pct) :
    ∑ j, multiplier (prorataWeights C) pct j t = if ∑ i, C i t = 0 then 0 else 1 := by
  rw [SimulationKey.multiplier_sum, h.fixedFraction_eq, h.prorataFraction_eq, zero_add]

/-- An iteration of one mode hands out at most what it has. -/
theorem OneMode.handed_le_one {pct : Fin n → ℚ} (h : OneMode pct) (c : Fin n → ℚ) :
    fixedFraction pct + prorataFraction c pct ≤ 1 := by
  rcases h with ⟨hfixed, hsum⟩ | hprorata
  · rw [hfixed.fixedFraction_eq, hfixed.prorataFraction_eq, add_zero]
    exact hsum
  · rw [hprorata.fixedFraction_eq, hprorata.prorataFraction_eq, zero_add]
    split_ifs
    · exact zero_le_one
    · exact le_rfl

theorem OneMode.multiplier_sum_le {pct : Fin n → ℚ} (h : OneMode pct) :
    ∑ j, multiplier (prorataWeights C) pct j t ≤ 1 :=
  (SimulationKey.multiplier_sum C t pct).trans_le (h.handed_le_one _)

end Weights

/-! ## Percentages as the key lists them -/

/-- What holds of every percentage an iteration lists, and of 0, holds of every
percentage of the run. -/
theorem pcts_of_listed {it : SimulationIterationInput ℚ} {P : ℚ → Prop} (hzero : P 0)
    (hP : ∀ c ∈ it.consumers, P c.energyAllocatedPercentage) (consumerNames : List String)
    (j : Fin consumerNames.length) : P (pcts it consumerNames j) := by
  unfold pcts
  cases hpct : nameToPct it (consumerNames.get j) with
  | none => exact hzero
  | some pct =>
      obtain ⟨c, hc, -, rfl⟩ := nameToPct_eq_some hpct
      exact hP c hc

/-- An iteration that lists all of the run's consumers, each PRORATA. -/
theorem allProrata_of_listed {it : SimulationIterationInput ℚ} {consumerNames : List String}
    (hlisted : missingConsumer it consumerNames = none)
    (hprorata : ∀ c ∈ it.consumers, c.energyAllocatedPercentage = -1) :
    AllProrata (pcts it consumerNames) := by
  intro j
  have hname := missingConsumer_eq_none_iff.mp hlisted _ (List.get_mem consumerNames j)
  obtain ⟨pct, hpct⟩ := Option.isSome_iff_exists.mp (nameToPct_isSome_iff.mpr hname)
  obtain ⟨c, hc, -, rfl⟩ := nameToPct_eq_some hpct
  show (nameToPct it (consumerNames.get j)).getD 0 = -1
  rw [hpct]
  exact hprorata c hc

/-- A consumer listed first counts at most once among distinct names. -/
theorem sum_first_listed_le {names : List String} (hnodup : names.Nodup) (name : String) {pct : ℚ}
    (hpct : 0 ≤ pct) : (names.map fun other => if other = name then pct else 0).sum ≤ pct := by
  rw [List.sum_map_ite_eq, sub_zero, List.map_const', List.sum_replicate, smul_zero, add_zero,
    nsmul_eq_mul]
  have hcount : (names.count name : ℚ) ≤ 1 := by
    exact_mod_cast List.nodup_iff_count_le_one.mp hnodup name
  exact mul_le_of_le_one_left hpct hcount

/-- Over distinct names, the run's fractions sum to at most the listed ones. -/
theorem pcts_sum_le_listed {it : SimulationIterationInput ℚ} {consumerNames : List String}
    (hnodup : consumerNames.Nodup) (hfixed : ∀ c ∈ it.consumers, 0 ≤ c.energyAllocatedPercentage) :
    ∑ j, pcts it consumerNames j ≤ (it.consumers.map (·.energyAllocatedPercentage)).sum := by
  have hlast : ∀ l : List (SimulationConsumerInput ℚ), (∀ c ∈ l, 0 ≤ c.energyAllocatedPercentage) →
      (consumerNames.map fun name =>
        ((l.find? (·.name == name)).map (·.energyAllocatedPercentage)).getD 0).sum ≤
          (l.map (·.energyAllocatedPercentage)).sum := by
    intro l hl
    induction l with
    | nil => simp
    | cons c l ih =>
        have hc := hl c List.mem_cons_self
        have hrest := ih fun c' hc' => hl c' (List.mem_cons_of_mem _ hc')
        have hfirst := sum_first_listed_le hnodup c.name hc
        have hsplit : ∀ name ∈ consumerNames,
            (((c :: l).find? (·.name == name)).map (·.energyAllocatedPercentage)).getD 0 ≤
              (if name = c.name then c.energyAllocatedPercentage else 0) +
                ((l.find? (·.name == name)).map (·.energyAllocatedPercentage)).getD 0 := by
          intro name _
          by_cases hname : name = c.name
          · have hlater : 0 ≤
                ((l.find? (·.name == name)).map (·.energyAllocatedPercentage)).getD 0 := by
              cases hfind : l.find? (·.name == name) with
              | none => exact le_rfl
              | some c' => exact hl c' (List.mem_cons_of_mem _ (List.mem_of_find?_eq_some hfind))
            rw [List.find?_cons_of_pos (by simp [hname]), if_pos hname]
            exact le_add_of_nonneg_right hlater
          · rw [List.find?_cons_of_neg (by simpa using Ne.symm hname), if_neg hname, zero_add]
        refine (List.sum_le_sum hsplit).trans ?_
        rw [List.sum_map_add, List.map_cons, List.sum_cons]
        exact add_le_add hfirst hrest
  have hlist : ∑ j, pcts it consumerNames j =
      (consumerNames.map fun name => (nameToPct it name).getD 0).sum := by
    rw [← List.sum_ofFn]
    congr 1
    rw [← List.ofFn_get consumerNames, List.map_ofFn, List.ofFn_get]
    rfl
  have hle := hlast it.consumers.reverse fun c hc => hfixed c (List.mem_reverse.mp hc)
  rw [List.map_reverse, List.sum_reverse] at hle
  rw [hlist]
  exact hle

/-! ## Non-negative runs -/

theorem Mat.at_nonneg {m : Mat ℚ} (hm : ∀ i t, 0 ≤ m.get i t) (i t : Nat) : 0 ≤ m.at i t :=
  Mat.at_of_get (P := fun x : ℚ => 0 ≤ x) le_rfl hm i t

/-- Data and key of a run over non-negative quantities. -/
structure NonnegRun (key : SimulationKeyInput ℚ) (C VA : Mat ℚ) (consumerNames : List String) :
    Prop where
  consumption : ∀ j t, 0 ≤ C.at j t
  production : ∀ t, 0 ≤ VA.at 0 t
  shares : ∀ it ∈ key.iterations, 0 ≤ it.energyAllocatedPercentage
  moded : ∀ it ∈ key.iterations, Moded (pcts it consumerNames)

namespace NonnegRun

variable {key : SimulationKeyInput ℚ} {C VA : Mat ℚ} {consumerNames : List String}
  (hn : NonnegRun key C VA consumerNames) (h : Accepted key C VA consumerNames)

include hn

theorem demand (j : Fin consumerNames.length) (t : Fin C.cols) : 0 ≤ h.demand j t := by
  have hat := hn.consumption j t
  rwa [h.demand_eq j.isLt t.isLt] at hat

theorem supply (t : Fin C.cols) : 0 ≤ h.supply t := by
  have hat := hn.production t
  rwa [h.supply_eq t.isLt] at hat

theorem rounds (t : Fin C.cols) : ∀ r ∈ h.rounds t, r.Nonneg := by
  intro r hr
  obtain ⟨it, hit, rfl⟩ := List.mem_map.mp hr
  exact
    { injected := mul_nonneg (hn.supply h t) (hn.shares it hit)
      share := multiplier_nonneg h.demand t (hn.demand h) (hn.moded it hit) }

/-- Every level of every pass is non-negative. -/
theorem levels {x : SimulationIterationInput ℚ × Pass ℚ consumerNames.length C.cols}
    (hx : x ∈ h.runPasses) (t : Fin C.cols) : (x.2.levelAt t).Nonneg := by
  refine Cascade.levels_nonneg (hn.rounds h t) (fun j => hn.demand h j t) le_rfl _ ?_
  rw [show (fun j => h.demand j t) = h.demandAt t from rfl, ← h.levels_runPasses t]
  exact List.mem_map_of_mem hx

end NonnegRun

end SimulationKey
