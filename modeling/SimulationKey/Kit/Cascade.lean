import Mathlib

/-!
# Cascades of supply over demand

A supply is offered to a family of demands in rounds. A round injects new
supply, adds what the round before left unused, and offers consumer `j` the
fraction `share j` of the sum. Each consumer takes the smaller of its remaining
demand and the offer; the rest of its demand goes to the next round, and the
untaken part of its offer becomes supply again.

The quantities:

* **balance** — what a consumer takes over all rounds plus its final unmet
  demand is its original demand, for any signs (`taken_add_finalUnmet`);
* **supply accounting** — what all consumers take plus the final leftover is
  the supply that went in, corrected at each round by the part of it the
  shares do not cover (`served_add_leftover`);
* **bounds** — with non-negative data and shares summing to at most 1, every
  level stays non-negative and the total taken is at most the injected supply
  weighted by the shares (`levels_nonneg`, `served_add_leftover_le`);
* **abundant demand** — when no demand is ever exhausted, everything offered is
  taken, so that bound is attained (`served_of_abundant`);
* **proportional shares** — shares in proportion to the original demands leave
  demands in that proportion, so no round has both unmet demand and unused
  supply (`frugal_of_proportional`), and all rounds together serve as much as any
  rounds of that supply can (`totalServed_le`, `totalServed_of_proportional`).
-/

namespace SimulationKey.Kit.Cascade

/-- One round: new supply and the fraction of the supply offered to each
consumer. -/
structure Round (ι K : Type) where
  injected : K
  share : ι → K

/-- A round under way: its supply, the demands it starts from, its offers. -/
structure Level (ι K : Type) where
  supply : K
  demand : ι → K
  offered : ι → K

variable {ι K : Type} [Field K] [LinearOrder K]

namespace Level

variable (l : Level ι K) (j : ι)

def served : K := min (l.demand j) (l.offered j)

def unmet : K := max 0 (l.demand j - l.offered j)

def excess : K := max 0 (l.offered j - l.demand j)

end Level

/-- A round run against a demand, with the supply carried in. -/
def pour (r : Round ι K) (demand : ι → K) (carried : K) : Level ι K :=
  { supply := r.injected + carried
    demand := demand
    offered := fun j => (r.injected + carried) * r.share j }

variable [Fintype ι]

/-- The levels of the rounds, each fed by the one before. -/
def levels : List (Round ι K) → (ι → K) → K → List (Level ι K)
  | [], _, _ => []
  | r :: rs, demand, carried =>
    let l := pour r demand carried
    l :: levels rs l.unmet (∑ j, l.excess j)

/-- Demand left after the last round. -/
def finalUnmet : List (Round ι K) → (ι → K) → K → ι → K
  | [], demand, _ => demand
  | r :: rs, demand, carried =>
    let l := pour r demand carried
    finalUnmet rs l.unmet (∑ j, l.excess j)

/-- Supply left after the last round. -/
def leftover : List (Round ι K) → (ι → K) → K → K
  | [], _, carried => carried
  | r :: rs, demand, carried =>
    let l := pour r demand carried
    leftover rs l.unmet (∑ j, l.excess j)

/-- A list sum of finite sums, summed the other way round. -/
theorem list_sum_comm {α β M : Type} [AddCommMonoid M] [Fintype β] (l : List α) (f : α → β → M) :
    (l.map fun x => ∑ b, f x b).sum = ∑ b, (l.map fun x => f x b).sum := by
  induction l with
  | nil => simp
  | cons x l ih => simp only [List.map_cons, List.sum_cons, ih, Finset.sum_add_distrib]

/-- The first levels are those of the first rounds. -/
theorem levels_take (rs : List (Round ι K)) (demand : ι → K) (carried : K) (k : Nat) :
    (levels rs demand carried).take k = levels (rs.take k) demand carried := by
  induction rs generalizing demand carried k with
  | nil => simp [levels]
  | cons r rs ih =>
      cases k with
      | zero => rfl
      | succ k => rw [levels, List.take_succ_cons, ih, List.take_succ_cons, levels]

/-- What all consumers take in all rounds. -/
def totalServed (rs : List (Round ι K)) (demand : ι → K) (carried : K) : K :=
  ((levels rs demand carried).map fun l => ∑ j, l.served j).sum

theorem totalServed_cons (r : Round ι K) (rs : List (Round ι K)) (demand : ι → K) (carried : K) :
    totalServed (r :: rs) demand carried =
      ∑ j, (pour r demand carried).served j +
        totalServed rs (pour r demand carried).unmet
          (∑ j, (pour r demand carried).excess j) := by
  simp [totalServed, levels]

/-- What the last level leaves is what the cascade leaves. -/
theorem final_of_getLast? {rs : List (Round ι K)} {demand : ι → K} {carried : K} {l : Level ι K}
    (hl : (levels rs demand carried).getLast? = some l) :
    finalUnmet rs demand carried = l.unmet ∧ leftover rs demand carried = ∑ j, l.excess j := by
  induction rs generalizing demand carried with
  | nil => simp [levels] at hl
  | cons r rs ih =>
      cases rs with
      | nil =>
          obtain rfl : pour r demand carried = l := by simpa [levels] using hl
          exact ⟨rfl, rfl⟩
      | cons r' rs =>
          refine ih ?_
          rw [levels] at hl
          simpa [levels, List.getLast?_cons_cons] using hl

section Accounting

variable [IsStrictOrderedRing K]

omit [Fintype ι] in
theorem Level.served_add_unmet (l : Level ι K) (j : ι) : l.served j + l.unmet j = l.demand j := by
  unfold Level.served Level.unmet
  rcases le_total (l.demand j) (l.offered j) with h | h
  · rw [min_eq_left h, max_eq_left (sub_nonpos.mpr h), add_zero]
  · rw [min_eq_right h, max_eq_right (sub_nonneg.mpr h), add_sub_cancel]

omit [Fintype ι] in
theorem Level.served_add_excess (l : Level ι K) (j : ι) :
    l.served j + l.excess j = l.offered j := by
  unfold Level.served Level.excess
  rcases le_total (l.demand j) (l.offered j) with h | h
  · rw [min_eq_left h, max_eq_right (sub_nonneg.mpr h), add_sub_cancel]
  · rw [min_eq_right h, max_eq_left (sub_nonpos.mpr h), add_zero]

/-- Every consumer's demand is accounted for: taken in some round, or unmet. -/
theorem taken_add_finalUnmet (rs : List (Round ι K)) (demand : ι → K) (carried : K) (j : ι) :
    ((levels rs demand carried).map fun l => l.served j).sum + finalUnmet rs demand carried j =
      demand j := by
  induction rs generalizing demand carried with
  | nil => simp [levels, finalUnmet]
  | cons r rs ih =>
      have hround := (pour r demand carried).served_add_unmet j
      rw [levels, List.map_cons, List.sum_cons, add_assoc, finalUnmet, ih, hround]
      rfl

/-- The demands together: taken, or unmet. -/
theorem totalServed_add_finalUnmet (rs : List (Round ι K)) (demand : ι → K) (carried : K) :
    totalServed rs demand carried + ∑ j, finalUnmet rs demand carried j = ∑ j, demand j := by
  rw [totalServed, list_sum_comm, ← Finset.sum_add_distrib]
  exact Finset.sum_congr rfl fun j _ => taken_add_finalUnmet rs demand carried j

/-- A round's offers: taken or carried on. -/
theorem served_add_excess_sum (r : Round ι K) (demand : ι → K) (carried : K) :
    ∑ j, (pour r demand carried).served j + ∑ j, (pour r demand carried).excess j =
      (r.injected + carried) * ∑ j, r.share j := by
  rw [← Finset.sum_add_distrib, Finset.mul_sum]
  exact Finset.sum_congr rfl fun j _ => (pour r demand carried).served_add_excess j

/-- When every round's shares cover its supply exactly, nothing is lost. -/
theorem served_add_leftover (rs : List (Round ι K)) (demand : ι → K) (carried : K)
    (hcover : ∀ r ∈ rs, ∑ j, r.share j = 1) :
    totalServed rs demand carried + leftover rs demand carried =
      carried + (rs.map (·.injected)).sum := by
  induction rs generalizing demand carried with
  | nil => simp [totalServed, levels, leftover]
  | cons r rs ih =>
      have hround := served_add_excess_sum r demand carried
      rw [hcover r List.mem_cons_self, mul_one] at hround
      have hrest := ih (pour r demand carried).unmet (∑ j, (pour r demand carried).excess j)
        fun r' hr' => hcover r' (List.mem_cons_of_mem _ hr')
      rw [totalServed_cons, leftover, List.map_cons, List.sum_cons]
      linear_combination hround + hrest

end Accounting

/-! ## Non-negative cascades -/

section Bounds

/-- Every quantity that enters a round is non-negative. -/
structure Round.Nonneg (r : Round ι K) : Prop where
  injected : 0 ≤ r.injected
  share : ∀ j, 0 ≤ r.share j

/-- Every quantity of a level is non-negative. -/
structure Level.Nonneg (l : Level ι K) : Prop where
  supply : 0 ≤ l.supply
  demand : ∀ j, 0 ≤ l.demand j
  offered : ∀ j, 0 ≤ l.offered j

omit [Fintype ι] in
theorem Level.unmet_nonneg (l : Level ι K) (j : ι) : 0 ≤ l.unmet j := le_max_left _ _

omit [Fintype ι] in
theorem Level.excess_nonneg (l : Level ι K) (j : ι) : 0 ≤ l.excess j := le_max_left _ _

omit [Fintype ι] in
theorem Level.Nonneg.served_nonneg {l : Level ι K} (h : l.Nonneg) (j : ι) : 0 ≤ l.served j :=
  le_min (h.demand j) (h.offered j)

theorem finalUnmet_nonneg {rs : List (Round ι K)} {demand : ι → K} (hd : ∀ j, 0 ≤ demand j)
    {carried : K} (j : ι) : 0 ≤ finalUnmet rs demand carried j := by
  induction rs generalizing demand carried with
  | nil => exact hd j
  | cons r rs ih => exact ih (pour r demand carried).unmet_nonneg

variable [IsStrictOrderedRing K]

omit [Fintype ι] in
/-- A consumer is never left both short and with energy it did not take. -/
theorem Level.unmet_eq_zero_or (l : Level ι K) (j : ι) : l.unmet j = 0 ∨ l.excess j = 0 := by
  unfold Level.unmet Level.excess
  rcases le_total (l.demand j) (l.offered j) with h | h
  · exact .inl (max_eq_left (sub_nonpos.mpr h))
  · exact .inr (max_eq_left (sub_nonpos.mpr h))

omit [Fintype ι] in
theorem Level.Nonneg.unmet_le {l : Level ι K} (h : l.Nonneg) (j : ι) : l.unmet j ≤ l.demand j :=
  max_le (h.demand j) (sub_le_self _ (h.offered j))

omit [Fintype ι] in
theorem pour_nonneg {r : Round ι K} (hr : r.Nonneg) {demand : ι → K} (hd : ∀ j, 0 ≤ demand j)
    {carried : K} (hc : 0 ≤ carried) : (pour r demand carried).Nonneg :=
  { supply := add_nonneg hr.injected hc
    demand := hd
    offered := fun j => mul_nonneg (add_nonneg hr.injected hc) (hr.share j) }

theorem Level.excess_sum_nonneg (l : Level ι K) : 0 ≤ ∑ j, l.excess j :=
  Finset.sum_nonneg fun j _ => l.excess_nonneg j

/-- Non-negative rounds over non-negative demand keep every level non-negative. -/
theorem levels_nonneg {rs : List (Round ι K)} (hrs : ∀ r ∈ rs, r.Nonneg) {demand : ι → K}
    (hd : ∀ j, 0 ≤ demand j) {carried : K} (hc : 0 ≤ carried) :
    ∀ l ∈ levels rs demand carried, l.Nonneg := by
  induction rs generalizing demand carried with
  | nil => intro l hl; cases hl
  | cons r rs ih =>
      intro l hl
      rcases List.mem_cons.mp hl with rfl | hl
      · exact pour_nonneg (hrs r List.mem_cons_self) hd hc
      · exact ih (fun r' hr' => hrs r' (List.mem_cons_of_mem _ hr'))
          (pour r demand carried).unmet_nonneg (pour r demand carried).excess_sum_nonneg l hl

theorem leftover_nonneg {rs : List (Round ι K)} {demand : ι → K} {carried : K}
    (hc : 0 ≤ carried) : 0 ≤ leftover rs demand carried := by
  induction rs generalizing demand carried with
  | nil => exact hc
  | cons r rs ih => exact ih (pour r demand carried).excess_sum_nonneg

/-- The total taken never exceeds the supply carried in plus, for each round,
the offered part of what it injects: supply passes at least one round's shares
before it can be taken, and later rounds only shrink what was carried on. -/
theorem served_add_leftover_le {rs : List (Round ι K)} (hrs : ∀ r ∈ rs, r.Nonneg)
    (hshare : ∀ r ∈ rs, ∑ j, r.share j ≤ 1) {demand : ι → K} {carried : K} (hc : 0 ≤ carried) :
    totalServed rs demand carried + leftover rs demand carried ≤
      carried + (rs.map fun r => r.injected * ∑ j, r.share j).sum := by
  induction rs generalizing demand carried with
  | nil => simp [totalServed, levels, leftover]
  | cons r rs ih =>
      have hround := served_add_excess_sum r demand carried
      have hkept : carried * ∑ j, r.share j ≤ carried :=
        mul_le_of_le_one_right hc (hshare r List.mem_cons_self)
      have hrest : totalServed rs (pour r demand carried).unmet
            (∑ j, (pour r demand carried).excess j) +
          leftover rs (pour r demand carried).unmet (∑ j, (pour r demand carried).excess j) ≤
            ∑ j, (pour r demand carried).excess j +
              (rs.map fun r => r.injected * ∑ j, r.share j).sum :=
        ih (fun r' hr' => hrs r' (List.mem_cons_of_mem _ hr'))
          (fun r' hr' => hshare r' (List.mem_cons_of_mem _ hr'))
          (pour r demand carried).excess_sum_nonneg
      rw [totalServed_cons, leftover, List.map_cons, List.sum_cons]
      linarith

/-- With demand that covers every offer, each round's injected supply is taken
in full by the consumers it is offered to. -/
theorem served_of_abundant {rs : List (Round ι K)} (hrs : ∀ r ∈ rs, r.Nonneg) {demand : ι → K}
    (hd : ∀ j, (rs.map fun r => r.injected * r.share j).sum ≤ demand j) :
    totalServed rs demand 0 = (rs.map fun r => r.injected * ∑ j, r.share j).sum := by
  induction rs generalizing demand with
  | nil => simp [totalServed, levels]
  | cons r rs ih =>
      have htail : ∀ j, 0 ≤ (rs.map fun r => r.injected * r.share j).sum := fun j =>
        List.sum_nonneg fun x hx => by
          obtain ⟨r', hr', rfl⟩ := List.mem_map.mp hx
          have hr' := hrs r' (List.mem_cons_of_mem _ hr')
          exact mul_nonneg hr'.injected (hr'.share j)
      have hoffer : ∀ j, (pour r demand 0).offered j ≤ demand j := fun j => by
        have := hd j
        have := htail j
        simp only [List.map_cons, List.sum_cons] at *
        simp only [pour, add_zero]
        linarith
      have hexcess : ∀ j, (pour r demand 0).excess j = 0 := fun j =>
        max_eq_left (sub_nonpos.mpr (hoffer j))
      have hsum : ∑ j, (pour r demand 0).excess j = 0 :=
        Finset.sum_eq_zero fun j _ => hexcess j
      have hunmet : ∀ j, (rs.map fun r => r.injected * r.share j).sum ≤
          (pour r demand 0).unmet j := fun j => by
        refine le_trans ?_ (le_max_right _ _)
        have := hd j
        simp only [List.map_cons, List.sum_cons] at this
        simp only [pour, add_zero]
        linarith
      have hround := served_add_excess_sum r demand 0
      rw [hsum, add_zero, add_zero] at hround
      rw [totalServed_cons, hsum, ih (fun r' hr' => hrs r' (List.mem_cons_of_mem _ hr')) hunmet,
        hround, List.map_cons, List.sum_cons]

/-- What is taken was demanded, and was injected. -/
theorem totalServed_le {rs : List (Round ι K)} (hrs : ∀ r ∈ rs, r.Nonneg)
    (hshare : ∀ r ∈ rs, ∑ j, r.share j ≤ 1) {demand : ι → K} (hd : ∀ j, 0 ≤ demand j)
    {carried : K} (hc : 0 ≤ carried) :
    totalServed rs demand carried ≤
      min (∑ j, demand j) (carried + (rs.map (·.injected)).sum) := by
  apply le_min
  · have hunmet : 0 ≤ ∑ j, finalUnmet rs demand carried j :=
      Finset.sum_nonneg fun j _ => finalUnmet_nonneg hd j
    have hbalance := totalServed_add_finalUnmet rs demand carried
    linarith
  · have hleft : 0 ≤ leftover rs demand carried := leftover_nonneg hc
    have hbound : totalServed rs demand carried + leftover rs demand carried ≤
        carried + (rs.map fun r => r.injected * ∑ j, r.share j).sum :=
      served_add_leftover_le hrs hshare hc
    have hinjected : (rs.map fun r => r.injected * ∑ j, r.share j).sum ≤
        (rs.map (·.injected)).sum :=
      List.sum_le_sum fun r hr => mul_le_of_le_one_right (hrs r hr).injected (hshare r hr)
    linarith

/-! ## Idle demand -/

omit [Fintype ι] in
theorem unmet_of_idle {r : Round ι K} (hr : r.Nonneg) {carried : K} (hc : 0 ≤ carried) :
    (pour r (fun _ => 0) carried).unmet = fun _ => 0 := by
  funext j
  have hoffer := (pour_nonneg hr (fun _ => le_rfl) hc).offered j
  exact max_eq_left (sub_nonpos.mpr hoffer)

theorem excess_sum_of_idle {r : Round ι K} (hr : r.Nonneg) {carried : K} (hc : 0 ≤ carried) :
    ∑ j, (pour r (fun _ => 0) carried).excess j = (r.injected + carried) * ∑ j, r.share j := by
  rw [Finset.mul_sum]
  refine Finset.sum_congr rfl fun j _ => ?_
  have hoffer := (pour_nonneg hr (fun _ => le_rfl) hc).offered j
  show max 0 ((pour r (fun _ => 0) carried).offered j - 0) = _
  rw [sub_zero, max_eq_right hoffer]
  rfl

/-- With nothing demanded, nothing is taken. -/
theorem totalServed_of_idle {rs : List (Round ι K)} (hrs : ∀ r ∈ rs, r.Nonneg) {carried : K}
    (hc : 0 ≤ carried) : totalServed rs (fun _ => 0) carried = 0 := by
  induction rs generalizing carried with
  | nil => simp [totalServed, levels]
  | cons r rs ih =>
      have hr := hrs r List.mem_cons_self
      have hserved : ∀ j, (pour r (fun _ => 0) carried).served j = 0 := fun j =>
        min_eq_left ((pour_nonneg hr (fun _ => le_rfl) hc).offered j)
      rw [totalServed_cons, unmet_of_idle hr hc, Finset.sum_eq_zero fun j _ => hserved j, zero_add]
      exact ih (fun r' hr' => hrs r' (List.mem_cons_of_mem _ hr'))
        (pour r (fun _ => 0) carried).excess_sum_nonneg

/-- With nothing demanded, what is left is the supply that passed the shares of
every round from the one that injected it on. -/
theorem leftover_of_idle {rs : List (Round ι K)} (hrs : ∀ r ∈ rs, r.Nonneg) {carried : K}
    (hc : 0 ≤ carried) :
    leftover rs (fun _ => 0) carried =
      rs.foldl (fun left r => (r.injected + left) * ∑ j, r.share j) carried := by
  induction rs generalizing carried with
  | nil => rfl
  | cons r rs ih =>
      have hr := hrs r List.mem_cons_self
      rw [leftover, unmet_of_idle hr hc, List.foldl_cons,
        ih (fun r' hr' => hrs r' (List.mem_cons_of_mem _ hr'))
          (pour r (fun _ => 0) carried).excess_sum_nonneg,
        excess_sum_of_idle hr hc]

end Bounds

/-! ## Proportional shares -/

section Proportional

/-- A level that takes as much as its demands and its supply allow. -/
def Level.Frugal (l : Level ι K) : Prop := ∑ j, l.served j = min (∑ j, l.demand j) l.supply

variable [IsStrictOrderedRing K] {c : ι → K} {r : Round ι K}

/-- Demands in proportion to `c`, offered in that proportion, are all served to
the same degree. -/
theorem served_of_proportional (hc : ∀ j, 0 ≤ c j) (hshare : ∀ j, r.share j = c j / ∑ i, c i)
    (ρ carried : K) (j : ι) :
    (pour r (fun j => ρ * c j) carried).served j =
      min ρ ((r.injected + carried) / ∑ i, c i) * c j := by
  show min (ρ * c j) ((r.injected + carried) * r.share j) = _
  rw [hshare, min_mul_of_nonneg _ _ (hc j), div_mul_eq_mul_div, mul_div_assoc]

/-- What is left of such demands is again in proportion to `c`. -/
theorem unmet_of_proportional (hc : ∀ j, 0 ≤ c j) (hshare : ∀ j, r.share j = c j / ∑ i, c i)
    (ρ carried : K) :
    (pour r (fun j => ρ * c j) carried).unmet =
      fun j => max 0 (ρ - (r.injected + carried) / ∑ i, c i) * c j := by
  funext j
  show max 0 (ρ * c j - (r.injected + carried) * r.share j) = _
  rw [hshare, max_mul_of_nonneg _ _ (hc j), zero_mul, sub_mul, div_mul_eq_mul_div, mul_div_assoc]

theorem pour_frugal (hc : ∀ j, 0 ≤ c j) (hshare : ∀ j, r.share j = c j / ∑ i, c i)
    {ρ carried : K} (hsupply : 0 ≤ r.injected + carried) :
    (pour r (fun j => ρ * c j) carried).Frugal := by
  show ∑ j, (pour r (fun j => ρ * c j) carried).served j =
    min (∑ j, ρ * c j) (r.injected + carried)
  rw [Finset.sum_congr rfl fun j _ => served_of_proportional hc hshare ρ carried j,
    ← Finset.mul_sum, ← Finset.mul_sum]
  by_cases hnone : ∑ i, c i = 0
  · -- nobody demands anything: nothing is taken
    rw [hnone, mul_zero, mul_zero, min_eq_left hsupply]
  · have hpos : 0 ≤ ∑ i, c i := Finset.sum_nonneg fun j _ => hc j
    rw [min_mul_of_nonneg _ _ hpos, div_mul_cancel₀ _ hnone]

/-- While every round shares in proportion to `c`, no level leaves both unmet
demand and unused supply. -/
theorem frugal_of_proportional (hc : ∀ j, 0 ≤ c j) {rs : List (Round ι K)}
    (hinjected : ∀ r ∈ rs, 0 ≤ r.injected)
    (hshare : ∀ r ∈ rs, ∀ j, r.share j = c j / ∑ i, c i) (ρ : K) {carried : K}
    (hcarried : 0 ≤ carried) :
    ∀ l ∈ levels rs (fun j => ρ * c j) carried, l.Frugal := by
  induction rs generalizing ρ carried with
  | nil => intro l hl; cases hl
  | cons r rs ih =>
      intro l hl
      have hr := hshare r List.mem_cons_self
      rcases List.mem_cons.mp hl with rfl | hl
      · exact pour_frugal hc hr (add_nonneg (hinjected r List.mem_cons_self) hcarried)
      · -- the demands handed on are proportional again, by another factor
        rw [unmet_of_proportional hc hr] at hl
        exact ih (fun r' hr' => hinjected r' (List.mem_cons_of_mem _ hr'))
          (fun r' hr' => hshare r' (List.mem_cons_of_mem _ hr')) _
          (Level.excess_sum_nonneg _) l hl

/-- All rounds together serve such demands to the same degree. -/
theorem taken_of_proportional (hc : ∀ j, 0 ≤ c j) {rs : List (Round ι K)}
    (hshare : ∀ r ∈ rs, ∀ j, r.share j = c j / ∑ i, c i) (ρ carried : K) :
    ∃ σ, ∀ j, ((levels rs (fun j => ρ * c j) carried).map fun l => l.served j).sum = σ * c j := by
  induction rs generalizing ρ carried with
  | nil => exact ⟨0, fun j => by simp [levels]⟩
  | cons r rs ih =>
      have hr := hshare r List.mem_cons_self
      obtain ⟨σ, hrest⟩ := ih (fun r' hr' => hshare r' (List.mem_cons_of_mem _ hr'))
        (max 0 (ρ - (r.injected + carried) / ∑ i, c i))
        (∑ j, (pour r (fun j => ρ * c j) carried).excess j)
      refine ⟨min ρ ((r.injected + carried) / ∑ i, c i) + σ, fun j => ?_⟩
      rw [levels, List.map_cons, List.sum_cons, served_of_proportional hc hr,
        unmet_of_proportional hc hr, hrest, add_mul]

/-- While every round shares in proportion to the demands, and nothing is carried
past an unmet one, all rounds together serve as much as demands and supply allow. -/
theorem totalServed_of_proportional (hc : ∀ j, 0 ≤ c j) {rs : List (Round ι K)}
    (hinjected : ∀ r ∈ rs, 0 ≤ r.injected)
    (hshare : ∀ r ∈ rs, ∀ j, r.share j = c j / ∑ i, c i) {ρ carried : K} (hρ : 0 ≤ ρ)
    (hcarried : 0 ≤ carried) (hmet : ρ * ∑ j, c j = 0 ∨ carried = 0) :
    totalServed rs (fun j => ρ * c j) carried =
      min (ρ * ∑ j, c j) (carried + (rs.map (·.injected)).sum) := by
  have hsum : 0 ≤ ∑ j, c j := Finset.sum_nonneg fun j _ => hc j
  induction rs generalizing ρ carried with
  | nil =>
      have hdemand : 0 ≤ ρ * ∑ j, c j := mul_nonneg hρ hsum
      rw [List.map_nil, List.sum_nil, add_zero]
      rcases hmet with hnone | hnone
      · rw [hnone, min_eq_left hcarried]
        rfl
      · rw [hnone, min_eq_right hdemand]
        rfl
  | cons r rs ih =>
      have hr := hshare r List.mem_cons_self
      have hsupply : 0 ≤ r.injected + carried :=
        add_nonneg (hinjected r List.mem_cons_self) hcarried
      have hlater : 0 ≤ (rs.map (·.injected)).sum := List.sum_nonneg fun x hx => by
        obtain ⟨r', hr', rfl⟩ := List.mem_map.mp hx
        exact hinjected r' (List.mem_cons_of_mem _ hr')
      have hfrugal : ∑ j, (pour r (fun j => ρ * c j) carried).served j =
          min (ρ * ∑ j, c j) (r.injected + carried) := by
        rw [Finset.mul_sum]
        exact pour_frugal hc hr hsupply
      have hexcess := (pour r (fun j => ρ * c j) carried).excess_sum_nonneg
      have hoffered := served_add_excess_sum r (fun j => ρ * c j) carried
      have hleft : max 0 (ρ - (r.injected + carried) / ∑ i, c i) * ∑ j, c j =
          ρ * ∑ j, c j - min (ρ * ∑ j, c j) (r.injected + carried) := by
        have hunmet := Finset.sum_congr rfl fun j (_ : j ∈ Finset.univ) =>
          (pour r (fun j => ρ * c j) carried).served_add_unmet j
        rw [Finset.sum_add_distrib, hfrugal, unmet_of_proportional hc hr, ← Finset.mul_sum] at hunmet
        have hdemand : ∑ j, (pour r (fun j => ρ * c j) carried).demand j = ρ * ∑ j, c j :=
          (Finset.mul_sum ..).symm
        linarith
      have hrest := ih (fun r' hr' => hinjected r' (List.mem_cons_of_mem _ hr'))
        (fun r' hr' => hshare r' (List.mem_cons_of_mem _ hr'))
        (le_max_left 0 (ρ - (r.injected + carried) / ∑ i, c i)) hexcess
      rw [hleft] at hrest
      rw [totalServed_cons, unmet_of_proportional hc hr, List.map_cons, List.sum_cons, hfrugal]
      rw [hfrugal] at hoffered
      rcases le_total (ρ * ∑ j, c j) (r.injected + carried) with henough | hshort
      · rw [min_eq_left henough, sub_self] at hrest
        rw [hrest (.inl rfl), min_eq_left henough, min_eq_left (by linarith),
          min_eq_left (by linarith), add_zero]
      · -- the supply is short of the demands, so nothing of it is left
        have hshares : ∑ j, r.share j ≤ 1 := by
          rw [Finset.sum_congr rfl fun j _ => hr j, ← Finset.sum_div]
          exact div_self_le_one _
        rw [min_eq_right hshort] at hrest hoffered
        have hused : (r.injected + carried) * ∑ j, r.share j ≤ r.injected + carried :=
          mul_le_of_le_one_right hsupply hshares
        have hzero : ∑ j, (pour r (fun j => ρ * c j) carried).excess j = 0 := by linarith
        rw [hrest (.inr hzero), hzero, min_eq_right hshort, zero_add, ← min_add_add_left]
        congr 1
        · ring
        · ring

end Proportional

end SimulationKey.Kit.Cascade
