import SimulationKey.Kit.Cascade

/-!
# Comparing cascades

Two cascades with the same shares, round by round: with more supply injected and no
demand larger, no demand is left with more unmet and no level has less to carry on
(`levels_below`), so a consumer of unchanged demand takes at least as much over all
rounds (`taken_below`).
-/

namespace SimulationKey.Kit.Cascade

variable {ι K : Type} [Field K] [LinearOrder K]

/-- The same non-negative shares of no less supply. -/
structure Round.Below (r r' : Round ι K) : Prop where
  injected : r.injected ≤ r'.injected
  share : ∀ j, r'.share j = r.share j
  nonneg : ∀ j, 0 ≤ r.share j

/-- No demand is larger, and no offer smaller. -/
structure Level.Below (l l' : Level ι K) : Prop where
  supply : l.supply ≤ l'.supply
  demand : ∀ j, l'.demand j ≤ l.demand j
  offered : ∀ j, l.offered j ≤ l'.offered j

variable [IsStrictOrderedRing K]

theorem pour_below {r r' : Round ι K} (hr : r.Below r') {d d' : ι → K} (hd : ∀ j, d' j ≤ d j)
    {c c' : K} (hc : c ≤ c') : (pour r d c).Below (pour r' d' c') := by
  have hsupply : r.injected + c ≤ r'.injected + c' := add_le_add hr.injected hc
  refine ⟨hsupply, hd, fun j => ?_⟩
  show (r.injected + c) * r.share j ≤ (r'.injected + c') * r'.share j
  rw [hr.share j]
  exact mul_le_mul_of_nonneg_right hsupply (hr.nonneg j)

section Level

variable {l l' : Level ι K} (h : l.Below l') (j : ι)

include h

theorem Level.Below.unmet_le : l'.unmet j ≤ l.unmet j :=
  max_le_max le_rfl (sub_le_sub (h.demand j) (h.offered j))

theorem Level.Below.excess_le : l.excess j ≤ l'.excess j :=
  max_le_max le_rfl (sub_le_sub (h.offered j) (h.demand j))

theorem Level.Below.excess_sum_le [Fintype ι] : ∑ j, l.excess j ≤ ∑ j, l'.excess j :=
  Finset.sum_le_sum fun j _ => h.excess_le j

end Level

variable [Fintype ι] {rs rs' : List (Round ι K)} (hrs : List.Forall₂ Round.Below rs rs')
  {d d' : ι → K} (hd : ∀ j, d' j ≤ d j) {c c' : K} (hc : c ≤ c')

include hrs hd hc

theorem levels_below : List.Forall₂ Level.Below (levels rs d c) (levels rs' d' c') := by
  induction hrs generalizing d d' c c' with
  | nil => exact .nil
  | cons hr _ ih =>
      have hlevel := pour_below hr hd hc
      exact .cons hlevel (ih hlevel.unmet_le hlevel.excess_sum_le)

theorem finalUnmet_below (j : ι) : finalUnmet rs' d' c' j ≤ finalUnmet rs d c j := by
  induction hrs generalizing d d' c c' with
  | nil => exact hd j
  | cons hr _ ih =>
      have hlevel := pour_below hr hd hc
      exact ih hlevel.unmet_le hlevel.excess_sum_le

theorem leftover_below : leftover rs d c ≤ leftover rs' d' c' := by
  induction hrs generalizing d d' c c' with
  | nil => exact hc
  | cons hr _ ih =>
      have hlevel := pour_below hr hd hc
      exact ih hlevel.unmet_le hlevel.excess_sum_le

/-- A consumer of unchanged demand takes at least as much: what it does not take it is
left with. -/
theorem taken_below {j : ι} (hj : d' j = d j) :
    ((levels rs d c).map fun l => l.served j).sum ≤
      ((levels rs' d' c').map fun l => l.served j).sum := by
  have hunmet := finalUnmet_below hrs hd hc j
  have hbalance := taken_add_finalUnmet rs d c j
  have hbalance' := taken_add_finalUnmet rs' d' c' j
  linarith

end SimulationKey.Kit.Cascade
