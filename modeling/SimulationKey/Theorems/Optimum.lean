import SimulationKey.Theorems.Conservation
import SimulationKey.Theorems.Prorata

/-!
# PRORATA sharing is optimal

Over exact arithmetic and non-negative data, a key whose iterations are all
PRORATA self-consumes, at every timestep, the smaller of the whole consumption and
of the production that its iterations share out (`prorata_optimal`):

* **closed form** — only the sum of the iterations' shares matters, not how many
  iterations it is split over; each consumer gets the same part of its consumption;
* **optimality** — no key of FIXED and PRORATA iterations that shares out at most
  as much self-consumes more, at any timestep.
-/

namespace SimulationKey.Theorems.Optimum

open Kit PyFloat
open Conservation (consumedAt consumptionAt shareSum consumedAt_eq consumptionAt_eq injected_sum)
open Prorata (IsProrata share_of_prorata)

/-- What consumer `j` self-consumes at timestep `t`, over all iterations. -/
def consumerConsumedAt (res : KeySimResult ℚ) (j t : Nat) : ℚ :=
  (res.iterations.map fun it => it.consumerAt (·.energyAllocatedConsumed) j t).sum

section Run

variable {key : SimulationKeyInput ℚ} {C VA : Mat ℚ} {consumerNames : List String}
  {first : IterationSimResult ℚ} {rest : List (IterationSimResult ℚ)}

theorem consumerConsumedAt_eq (h : Accepted key C VA consumerNames)
    (hres : h.results = first :: rest) (j : Fin consumerNames.length) (t : Fin C.cols) :
    consumerConsumedAt (keyResult key first rest) j t =
      ((Cascade.levels (h.rounds t) (h.demandAt t) 0).map fun l => l.served j).sum := by
  rw [← h.consumed_sum j t]
  show ((first :: rest).map _).sum = _
  rw [← hres, Accepted.results, List.map_map]
  refine congrArg List.sum (List.map_congr_left fun x _ => ?_)
  exact consumerAt_iterationResult x.1 x.2 (fun _ _ _ => rfl) j.isLt t.isLt

/-- The rounds of a PRORATA key share in proportion to the consumption. -/
theorem share_of_allProrata (h : Accepted key C VA consumerNames)
    (hprorata : ∀ it ∈ key.iterations, IsProrata it) (t : Fin C.cols) :
    ∀ r ∈ h.rounds t, ∀ j, r.share j = h.demandAt t j / ∑ i, h.demandAt t i := by
  intro r hr
  refine share_of_prorata (k := key.iterations.length) h (fun it hit => ?_) t r ?_
  · exact hprorata it (List.mem_of_mem_take hit)
  · have hlength : (h.rounds t).length = key.iterations.length := List.length_map _
    rw [← hlength, List.take_length]
    exact hr

/-- A PRORATA key serves the smaller of the demand and of the production it shares
out, to every consumer in proportion to its demand. -/
theorem served_of_allProrata (h : Accepted key C VA consumerNames)
    (hn : NonnegRun key C VA consumerNames) (hprorata : ∀ it ∈ key.iterations, IsProrata it)
    (t : Fin C.cols) :
    Cascade.totalServed (h.rounds t) (h.demandAt t) 0 =
        min (∑ j, h.demandAt t j) (VA.at 0 t * shareSum key.iterations) ∧
      ∀ j, ((Cascade.levels (h.rounds t) (h.demandAt t) 0).map fun l => l.served j).sum *
          ∑ i, h.demandAt t i =
        h.demandAt t j * Cascade.totalServed (h.rounds t) (h.demandAt t) 0 := by
  have hdemand : ∀ j, 0 ≤ h.demandAt t j := fun j => hn.demand h j t
  have hshare := share_of_allProrata h hprorata t
  have hone : h.demandAt t = fun j => 1 * h.demandAt t j := by
    funext j
    rw [one_mul]
  constructor
  · have htotal := Cascade.totalServed_of_proportional hdemand
      (fun r hr => (hn.rounds h t r hr).injected) hshare zero_le_one le_rfl (.inr rfl)
    rw [← hone, one_mul, zero_add, injected_sum] at htotal
    exact htotal
  · intro j
    obtain ⟨σ, hσ⟩ := Cascade.taken_of_proportional hdemand hshare 1 0
    rw [← hone] at hσ
    rw [Cascade.totalServed, Cascade.list_sum_comm, hσ j, Finset.sum_congr rfl fun i _ => hσ i,
      ← Finset.mul_sum]
    ring

/-- No key whose iterations share out at most what they have serves more. -/
theorem served_le (h : Accepted key C VA consumerNames) (hn : NonnegRun key C VA consumerNames)
    (hmodes : ∀ it ∈ key.iterations, OneMode (pcts it consumerNames)) (t : Fin C.cols) :
    Cascade.totalServed (h.rounds t) (h.demandAt t) 0 ≤
      min (∑ j, h.demandAt t j) (VA.at 0 t * shareSum key.iterations) := by
  have hshare : ∀ r ∈ h.rounds t, ∑ j, r.share j ≤ 1 := by
    intro r hr
    obtain ⟨it, hit, rfl⟩ := List.mem_map.mp hr
    exact (hmodes it hit).multiplier_sum_le h.demand t
  have hbound := Cascade.totalServed_le (hn.rounds h t) hshare (fun j => hn.demand h j t)
    (le_refl (0 : ℚ))
  rw [zero_add, injected_sum] at hbound
  exact hbound

end Run

/-- At every timestep a PRORATA key self-consumes the smaller of the consumption and
of the production its shares cover, every consumer in proportion to its consumption;
and no key over the same data whose iterations are each all FIXED, with fractions
summing to at most 1, or all PRORATA, and whose shares sum to no more, self-consumes
more at any timestep. -/
theorem prorata_optimal {key : SimulationKeyInput ℚ} {C VA : Mat ℚ} {consumerNames : List String}
    {res : KeySimResult ℚ} (hrun : runSimulation key C VA consumerNames = .ok res)
    (hn : NonnegRun key C VA consumerNames) (hprorata : ∀ it ∈ key.iterations, IsProrata it) :
    ∀ t < C.cols,
      consumedAt res t = min (consumptionAt C t) (VA.at 0 t * shareSum key.iterations) ∧
      (∀ j < consumerNames.length,
        consumerConsumedAt res j t * consumptionAt C t = C.at j t * consumedAt res t) ∧
      ∀ (key' : SimulationKeyInput ℚ) (consumerNames' : List String) (res' : KeySimResult ℚ),
        runSimulation key' C VA consumerNames' = .ok res' → NonnegRun key' C VA consumerNames' →
        (∀ it ∈ key'.iterations, OneMode (pcts it consumerNames')) →
        shareSum key'.iterations ≤ shareSum key.iterations →
        consumedAt res' t ≤ consumedAt res t := by
  obtain ⟨h, first, rest, hres, rfl⟩ := runSimulation_ok_iff.mp hrun
  intro t ht
  obtain ⟨htotal, hconsumers⟩ := served_of_allProrata h hn hprorata ⟨t, ht⟩
  have hconsumption : consumptionAt C t = ∑ j, h.demandAt ⟨t, ht⟩ j := consumptionAt_eq h ⟨t, ht⟩
  have hconsumed := consumedAt_eq h hres ⟨t, ht⟩
  simp only at hconsumed htotal
  refine ⟨by rw [hconsumed, htotal, hconsumption], fun j hj => ?_, ?_⟩
  · have hconsumer := consumerConsumedAt_eq h hres ⟨j, hj⟩ ⟨t, ht⟩
    simp only at hconsumer
    rw [hconsumer, hconsumption, hconsumers ⟨j, hj⟩, hconsumed, h.demand_eq hj ht]
    rfl
  · intro key' consumerNames' res' hrun' hn' hmodes hshares
    obtain ⟨h', first', rest', hres', rfl⟩ := runSimulation_ok_iff.mp hrun'
    have hbound := served_le h' hn' hmodes ⟨t, ht⟩
    have hconsumption' : consumptionAt C t = ∑ j, h'.demandAt ⟨t, ht⟩ j :=
      consumptionAt_eq h' ⟨t, ht⟩
    have hconsumed' := consumedAt_eq h' hres' ⟨t, ht⟩
    simp only at hconsumed' hbound
    rw [hconsumed', hconsumed, htotal]
    rw [← hconsumption'] at hbound
    rw [← hconsumption]
    refine hbound.trans (min_le_min_left _ ?_)
    exact mul_le_mul_of_nonneg_left hshares (hn.production t)

/-- 400 over demands of 200 and 300, in two PRORATA iterations; FIXED fractions offer
the first consumer more than it demands. -/
theorem prorata_optimal_two :
    ∃ res res', runSimulation (F := ℚ) (keyOfShares [7 / 16, 9 / 16] [⟨"A", -1⟩, ⟨"B", -1⟩])
        ⟨2, 1, fun j _ => if j = 0 then 200 else 300⟩ ⟨1, 1, fun _ _ => 400⟩ ["A", "B"] = .ok res ∧
      runSimulation (F := ℚ) (keyOfShares [1] [⟨"A", 3 / 4⟩, ⟨"B", 1 / 4⟩])
        ⟨2, 1, fun j _ => if j = 0 then 200 else 300⟩ ⟨1, 1, fun _ _ => 400⟩ ["A", "B"] = .ok res' ∧
      consumedAt res 0 = 400 ∧ consumerConsumedAt res 0 0 = 160 ∧
      consumedAt res' 0 ≤ consumedAt res 0 := by
  have hprorata : Accepted (F := ℚ) (keyOfShares [7 / 16, 9 / 16] [⟨"A", -1⟩, ⟨"B", -1⟩])
      ⟨2, 1, fun j _ => if j = 0 then 200 else 300⟩ ⟨1, 1, fun _ _ => 400⟩ ["A", "B"] :=
    ⟨by decide, by decide, rfl, ⟨le_rfl, rfl⟩, by decide⟩
  have hfixed : Accepted (F := ℚ) (keyOfShares [1] [⟨"A", 3 / 4⟩, ⟨"B", 1 / 4⟩])
      ⟨2, 1, fun j _ => if j = 0 then 200 else 300⟩ ⟨1, 1, fun _ _ => 400⟩ ["A", "B"] :=
    ⟨by decide, by decide, rfl, ⟨le_rfl, rfl⟩, by decide⟩
  obtain ⟨res, hres⟩ := hprorata.run_ok
  obtain ⟨res', hres'⟩ := hfixed.run_ok
  have hdata : ∀ j t, (0 : ℚ) ≤ Mat.at ⟨2, 1, fun j _ => if j = 0 then 200 else 300⟩ j t :=
    Mat.at_nonneg fun j _ => by
      show (0 : ℚ) ≤ if j = 0 then 200 else 300
      split <;> norm_num
  have hsupply : ∀ t, (0 : ℚ) ≤ Mat.at ⟨1, 1, fun _ _ => 400⟩ 0 t :=
    Mat.at_nonneg (fun _ _ => by norm_num) 0
  obtain ⟨hconsumed, hconsumers, hbest⟩ := prorata_optimal hres
    ⟨hdata, hsupply, by decide +kernel, by decide +kernel⟩
    (by unfold IsProrata; decide +kernel) 0 one_pos
  have htotal : consumedAt res 0 = 400 := by
    rw [hconsumed]
    decide +kernel
  have hall : consumptionAt ⟨2, 1, fun j _ => if j = 0 then 200 else 300⟩ 0 = 500 := by
    decide +kernel
  have hfirst : Mat.at (F := ℚ) ⟨2, 1, fun j _ => if j = 0 then 200 else 300⟩ 0 0 = 200 := by
    decide +kernel
  refine ⟨res, res', hres, hres', htotal, ?_, ?_⟩
  · have hpart := hconsumers 0 (by decide)
    rw [hall, hfirst, htotal] at hpart
    linarith
  · exact hbest _ _ res' hres' ⟨hdata, hsupply, by decide +kernel, by decide +kernel⟩
      (by decide +kernel) (by decide +kernel)

end SimulationKey.Theorems.Optimum
