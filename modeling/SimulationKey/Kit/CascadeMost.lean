import SimulationKey.Kit.Cascade

/-!
# The most a cascade can hand out

Over all non-negative demands. A consumer that leaves part of an offer has its demand
met for good, so all that matters of the demands is who still takes its offers at
which round: `most` chooses the takers of each round among those of the round before,
and what the others are offered is carried on.

* **bound** — no demands are served more (`totalServed_le_most`): what is served is
  affine in what a round's leavers took, so it is at most what it would be had they
  taken nothing or all;
* **attained** — some demands are served that much, where all shares are fixed
  (`exists_totalServed_eq_most`). Shares in proportion to the demands cannot be chosen
  apart from them; such a round counts as the better of handing everything out and of
  carrying everything on;
* **no round beyond its supply** — where the shares of each round sum to at most 1,
  carrying on never pays (`most_le`, `offered_le_most`);
* **proportional first** — a first round in proportion to the demands meets them all or
  carries nothing on (`totalServed_le_of_proportional_first`);
* **another unit** — demands and supply `a` times as large are served `a` times as much
  (`totalServed_scale`).
-/

namespace SimulationKey.Kit.Cascade

/-- How a round shares its supply: by fixed fractions, or in proportion to demands. -/
inductive Offer (ι K : Type) where
  | fixed (share : ι → K)
  | proportional

/-- A round before the demands are known. -/
structure Plan (ι K : Type) where
  injected : K
  offer : Offer ι K

variable {ι K : Type}

def Offer.share (weights : ι → K) : Offer ι K → ι → K
  | fixed share => share
  | proportional => weights

def Plan.round (weights : ι → K) (p : Plan ι K) : Round ι K :=
  { injected := p.injected, share := p.offer.share weights }

variable [Field K]

/-- The plan of a supply `a` times as large. -/
def Plan.scale (a : K) (p : Plan ι K) : Plan ι K :=
  { injected := a * p.injected, offer := p.offer }

variable [LinearOrder K] [Fintype ι]

/-- The part of its supply a round offers. -/
def Offer.part : Offer ι K → K
  | fixed share => ∑ j, share j
  | proportional => 1

variable [DecidableEq ι]

/-- The most that rounds hand out when only the consumers `still` take anything. -/
def most : List (Plan ι K) → Finset ι → K → K
  | [], _, _ => 0
  | p :: ps, still, carried =>
    let supply := p.injected + carried
    match p.offer with
    | .fixed share =>
      still.powerset.sup' ⟨∅, Finset.empty_mem_powerset still⟩ fun taking =>
        supply * ∑ j ∈ taking, share j + most ps taking (supply * ∑ j ∈ takingᶜ, share j)
    | .proportional => max (supply + most ps still 0) (most ps still supply)

section Most

variable {ps : List (Plan ι K)} {injected carried : K} {share : ι → K} {still taking : Finset ι}

theorem most_fixed :
    most (⟨injected, .fixed share⟩ :: ps) still carried =
      still.powerset.sup' ⟨∅, Finset.empty_mem_powerset still⟩ fun taking =>
        (injected + carried) * ∑ j ∈ taking, share j +
          most ps taking ((injected + carried) * ∑ j ∈ takingᶜ, share j) := rfl

theorem most_proportional :
    most (⟨injected, .proportional⟩ :: ps) still carried =
      max (injected + carried + most ps still 0) (most ps still (injected + carried)) := rfl

/-- Any takers will do for a lower bound. -/
theorem le_most_fixed (h : taking ⊆ still) :
    (injected + carried) * ∑ j ∈ taking, share j +
        most ps taking ((injected + carried) * ∑ j ∈ takingᶜ, share j) ≤
      most (⟨injected, .fixed share⟩ :: ps) still carried := by
  rw [most_fixed]
  exact Finset.le_sup' (fun taking => (injected + carried) * ∑ j ∈ taking, share j +
    most ps taking ((injected + carried) * ∑ j ∈ takingᶜ, share j)) (Finset.mem_powerset.mpr h)

/-- Some takers attain it. -/
theorem exists_taking (ps : List (Plan ι K)) (injected carried : K) (share : ι → K)
    (still : Finset ι) :
    ∃ taking ⊆ still, most (⟨injected, .fixed share⟩ :: ps) still carried =
      (injected + carried) * ∑ j ∈ taking, share j +
        most ps taking ((injected + carried) * ∑ j ∈ takingᶜ, share j) := by
  obtain ⟨taking, hmem, heq⟩ := Finset.exists_mem_eq_sup' (s := still.powerset)
    ⟨∅, Finset.empty_mem_powerset still⟩ fun taking =>
      (injected + carried) * ∑ j ∈ taking, share j +
        most ps taking ((injected + carried) * ∑ j ∈ takingᶜ, share j)
  exact ⟨taking, Finset.mem_powerset.mp hmem, heq⟩

theorem most_mono [IsStrictOrderedRing K] (ps : List (Plan ι K)) {still still' : Finset ι}
    (h : still ⊆ still') (carried : K) : most ps still carried ≤ most ps still' carried := by
  induction ps generalizing carried with
  | nil => exact le_rfl
  | cons p ps ih =>
      obtain ⟨injected, share | -⟩ := p
      · obtain ⟨taking, htaking, heq⟩ := exists_taking ps injected carried share still
        rw [heq]
        exact le_most_fixed (htaking.trans h)
      · rw [most_proportional, most_proportional]
        exact max_le_max (add_le_add_right (ih 0) _) (ih _)

end Most

variable [IsStrictOrderedRing K]

/-- A line from below that touches `most` at what is carried in. -/
theorem most_line (ps : List (Plan ι K)) (still : Finset ι) (carried : K) :
    ∃ m b : K, b + m * carried = most ps still carried ∧
      ∀ x, b + m * x ≤ most ps still x := by
  induction ps generalizing still carried with
  | nil => exact ⟨0, 0, by simp [most], fun x => by simp [most]⟩
  | cons p ps ih =>
      obtain ⟨injected, share | -⟩ := p
      · obtain ⟨taking, htaking, heq⟩ := exists_taking ps injected carried share still
        obtain ⟨m, b, htouch, hbelow⟩ :=
          ih taking ((injected + carried) * ∑ j ∈ takingᶜ, share j)
        refine ⟨∑ j ∈ taking, share j + m * ∑ j ∈ takingᶜ, share j,
          injected * ∑ j ∈ taking, share j + b + m * (injected * ∑ j ∈ takingᶜ, share j),
          ?_, fun x => ?_⟩
        · rw [heq, ← htouch]
          ring
        · have hrest := hbelow ((injected + x) * ∑ j ∈ takingᶜ, share j)
          refine le_trans (le_of_eq ?_) ((add_le_add_right hrest _).trans (le_most_fixed htaking))
          ring
      · rcases le_total (most ps still (injected + carried))
          (injected + carried + most ps still 0) with h | h
        · refine ⟨1, injected + most ps still 0, ?_, fun x => ?_⟩
          · rw [most_proportional, max_eq_left h]
            ring
          · refine le_trans (le_of_eq ?_) (le_max_left _ _)
            ring
        · obtain ⟨m, b, htouch, hbelow⟩ := ih still (injected + carried)
          refine ⟨m, b + m * injected, ?_, fun x => ?_⟩
          · rw [most_proportional, max_eq_right h, ← htouch]
            ring
          · refine le_trans (le_of_eq ?_) ((hbelow (injected + x)).trans (le_max_right _ _))
            ring

/-! ## No demands are served more -/

omit [DecidableEq ι] in
/-- What is affine in `x` is at most what it is at the ends. -/
theorem affine_le {m b r x y : K} (hx : 0 ≤ x) (hxy : x ≤ y) :
    x + (b + m * (r - x)) ≤ b + m * r ∨ x + (b + m * (r - x)) ≤ y + (b + m * (r - y)) := by
  rcases le_total m 1 with hm | hm
  · have := mul_le_mul_of_nonneg_left hxy (sub_nonneg.mpr hm)
    exact Or.inr (by linarith)
  · have := mul_nonneg (sub_nonneg.mpr hm) hx
    exact Or.inl (by linarith)

section Level

variable (l : Level ι K)

/-- Who is offered less than it demands. -/
def Level.short : Finset ι := Finset.univ.filter fun j => l.offered j < l.demand j

variable {l}

omit [Field K] [DecidableEq ι] [IsStrictOrderedRing K] in
theorem Level.mem_short {j : ι} : j ∈ l.short ↔ l.offered j < l.demand j := by
  simp [Level.short]

omit [DecidableEq ι] in
theorem Level.unmet_of_not_short {j : ι} (h : j ∉ l.short) : l.unmet j = 0 :=
  max_eq_left (sub_nonpos.mpr (not_lt.mp (mt Level.mem_short.mpr h)))

omit [DecidableEq ι] [IsStrictOrderedRing K] in
theorem Level.Nonneg.short_subset (hl : l.Nonneg) {still : Finset ι}
    (hstill : ∀ j ∉ still, l.demand j = 0) : l.short ⊆ still := by
  intro j hj
  by_contra hnot
  have hlt := Level.mem_short.mp hj
  rw [hstill j hnot] at hlt
  exact absurd (hl.offered j) (not_le.mpr hlt)

/-- The short take their offers, the others some part of theirs. -/
theorem Level.Nonneg.served_split (hl : l.Nonneg) {still : Finset ι}
    (hstill : ∀ j ∉ still, l.demand j = 0) :
    ∃ x, 0 ≤ x ∧ x ≤ ∑ j ∈ still \ l.short, l.offered j ∧
      ∑ j, l.served j = ∑ j ∈ l.short, l.offered j + x := by
  refine ⟨∑ j ∈ still \ l.short, l.served j,
    Finset.sum_nonneg fun j _ => hl.served_nonneg j,
    Finset.sum_le_sum fun j _ => min_le_right _ _, ?_⟩
  have hshort : ∑ j ∈ l.short, l.offered j = ∑ j ∈ l.short, l.served j :=
    Finset.sum_congr rfl fun j hj => (min_eq_right (Level.mem_short.mp hj).le).symm
  rw [hshort, add_comm, Finset.sum_sdiff (hl.short_subset hstill)]
  refine (Finset.sum_subset (Finset.subset_univ still) fun j _ hj => ?_).symm
  show min (l.demand j) (l.offered j) = 0
  rw [hstill j hj, min_eq_left (hl.offered j)]

end Level

/-- A plan of a non-negative supply and non-negative shares. -/
structure Plan.Nonneg (p : Plan ι K) : Prop where
  injected : 0 ≤ p.injected
  share : ∀ share, p.offer = .fixed share → ∀ j, 0 ≤ share j

omit [Fintype ι] [DecidableEq ι] [IsStrictOrderedRing K] in
theorem Plan.Nonneg.round {p : Plan ι K} (h : p.Nonneg) {weights : ι → K}
    (hweights : ∀ j, 0 ≤ weights j) : (p.round weights).Nonneg := by
  obtain ⟨injected, share | -⟩ := p
  · exact ⟨h.injected, h.share share rfl⟩
  · exact ⟨h.injected, hweights⟩

section Step

variable {l : Level ι K} (hl : l.Nonneg) {still : Finset ι} (hstill : ∀ j ∉ still, l.demand j = 0)
  {ps : List (Plan ι K)} {m b : K} (hbelow : ∀ x, b + m * x ≤ most ps l.short x)
  {injected carried : K}

include hl hstill hbelow

/-- What a round of fixed shares serves, and then a line below `most`. -/
theorem served_add_line_le_fixed {share : ι → K}
    (hoffer : ∀ j, l.offered j = (injected + carried) * share j) :
    ∑ j, l.served j + (b + m * ∑ j, l.excess j) ≤
      most (⟨injected, .fixed share⟩ :: ps) still carried := by
  have hsubset := hl.short_subset hstill
  have hoffered : ∀ s : Finset ι, ∑ j ∈ s, l.offered j =
      (injected + carried) * ∑ j ∈ s, share j := fun s => by
    rw [Finset.mul_sum]
    exact Finset.sum_congr rfl fun j _ => hoffer j
  have hshort := Finset.sum_add_sum_compl l.short share
  have hleavers := Finset.sum_sdiff (f := share) hsubset
  have htakers := Finset.sum_add_sum_compl still share
  obtain ⟨x, hx, hxy, hserved⟩ := hl.served_split hstill
  rw [hoffered] at hxy hserved
  -- what is left of the offers is what the short were not offered, less `x`
  have hexcess : ∑ j, l.excess j = (injected + carried) * ∑ j ∈ l.shortᶜ, share j - x := by
    have hall : ∑ j, l.served j + ∑ j, l.excess j = (injected + carried) * ∑ j, share j := by
      rw [← hoffered, ← Finset.sum_add_distrib]
      exact Finset.sum_congr rfl fun j _ => l.served_add_excess j
    rw [hserved, ← hshort, mul_add] at hall
    linarith
  rw [hserved, hexcess]
  rcases affine_le (m := m) (b := b)
    (r := (injected + carried) * ∑ j ∈ l.shortᶜ, share j) hx hxy with hnone | hall
  · -- the leavers take nothing of their offers
    have hline := hbelow ((injected + carried) * ∑ j ∈ l.shortᶜ, share j)
    have hstep : (injected + carried) * ∑ j ∈ l.short, share j +
        most ps l.short ((injected + carried) * ∑ j ∈ l.shortᶜ, share j) ≤
          most (⟨injected, .fixed share⟩ :: ps) still carried := le_most_fixed hsubset
    linarith
  · -- they take all of them
    have hline := (hbelow ((injected + carried) * ∑ j ∈ stillᶜ, share j)).trans
      (most_mono ps hsubset _)
    have hstep : (injected + carried) * ∑ j ∈ still, share j +
        most ps still ((injected + carried) * ∑ j ∈ stillᶜ, share j) ≤
          most (⟨injected, .fixed share⟩ :: ps) still carried :=
      le_most_fixed (Finset.Subset.refl still)
    have hleft : (injected + carried) * ∑ j ∈ l.shortᶜ, share j -
        (injected + carried) * ∑ j ∈ still \ l.short, share j =
          (injected + carried) * ∑ j ∈ stillᶜ, share j := by
      rw [← mul_sub]
      congr 1
      linarith
    have htaken : (injected + carried) * ∑ j ∈ l.short, share j +
        (injected + carried) * ∑ j ∈ still \ l.short, share j =
          (injected + carried) * ∑ j ∈ still, share j := by
      rw [← mul_add]
      congr 1
      linarith
    rw [hleft] at hall
    linarith

/-- What a round whose offers sum to its supply serves, and then a line below `most`. -/
theorem served_add_line_le_proportional
    (hsupply : ∑ j, l.served j + ∑ j, l.excess j = injected + carried) :
    ∑ j, l.served j + (b + m * ∑ j, l.excess j) ≤
      most (⟨injected, .proportional⟩ :: ps) still carried := by
  have hsubset := hl.short_subset hstill
  have hexcess : ∑ j, l.excess j = injected + carried - ∑ j, l.served j := by linarith
  have htaken : ∑ j, l.served j ≤ injected + carried := by
    have := l.excess_sum_nonneg
    linarith
  rw [hexcess]
  rcases affine_le (m := m) (b := b) (r := injected + carried)
    (Finset.sum_nonneg fun j _ => hl.served_nonneg j) htaken with hnone | hall
  · -- all of it is carried on
    exact hnone.trans ((hbelow _).trans ((most_mono ps hsubset _).trans (le_max_right _ _)))
  · -- all of it is taken
    rw [sub_self] at hall
    have hstep := (hbelow 0).trans (most_mono ps hsubset 0)
    exact hall.trans ((add_le_add_right hstep _).trans (le_max_left _ _))

end Step

/-- However much is demanded, no more is served than by the best choice of takers. -/
theorem totalServed_le_most {weights : ι → K} (hweights : ∀ j, 0 ≤ weights j)
    (hsum : ∑ j, weights j = 1) {ps : List (Plan ι K)} (hps : ∀ p ∈ ps, p.Nonneg)
    {demand : ι → K} (hd : ∀ j, 0 ≤ demand j) {still : Finset ι}
    (hstill : ∀ j ∉ still, demand j = 0) {carried : K} (hc : 0 ≤ carried) :
    totalServed (ps.map (Plan.round weights)) demand carried ≤ most ps still carried := by
  induction ps generalizing demand still carried with
  | nil => simp [totalServed, levels, most]
  | cons p ps ih =>
      have hl := pour_nonneg ((hps p List.mem_cons_self).round hweights) hd hc
      have hround := served_add_excess_sum (p.round weights) demand carried
      set l := pour (p.round weights) demand carried with hl_def
      -- later rounds serve the short at most what a line says that is below `most`
      have hrest := ih (fun p' hp' => hps p' (List.mem_cons_of_mem _ hp')) l.unmet_nonneg
        (fun j hj => Level.unmet_of_not_short hj) l.excess_sum_nonneg
      obtain ⟨m, b, htouch, hbelow⟩ := most_line ps l.short (∑ j, l.excess j)
      rw [List.map_cons, totalServed_cons, ← hl_def]
      refine (add_le_add_right (hrest.trans htouch.ge) _).trans ?_
      obtain ⟨injected, share | -⟩ := p
      · exact served_add_line_le_fixed hl hstill hbelow fun _ => rfl
      · refine served_add_line_le_proportional hl hstill hbelow ?_
        have hshares : ∑ j, (Plan.round weights ⟨injected, .proportional⟩).share j = 1 := hsum
        rw [hshares, mul_one] at hround
        exact hround

/-- Whoever demands anything. -/
theorem totalServed_le_most_univ {weights : ι → K} (hweights : ∀ j, 0 ≤ weights j)
    (hsum : ∑ j, weights j = 1) {ps : List (Plan ι K)} (hps : ∀ p ∈ ps, p.Nonneg)
    {demand : ι → K} (hd : ∀ j, 0 ≤ demand j) {carried : K} (hc : 0 ≤ carried) :
    totalServed (ps.map (Plan.round weights)) demand carried ≤ most ps Finset.univ carried :=
  totalServed_le_most hweights hsum hps hd (fun j hj => absurd (Finset.mem_univ j) hj) hc

/-! ## Some demands are served that much -/

theorem exists_totalServed_eq_most {ps : List (Plan ι K)} (hps : ∀ p ∈ ps, p.Nonneg)
    (hfixed : ∀ p ∈ ps, ∃ share, p.offer = .fixed share) (still : Finset ι) {carried : K}
    (hc : 0 ≤ carried) :
    ∃ demand : ι → K, (∀ j, 0 ≤ demand j) ∧ (∀ j ∉ still, demand j = 0) ∧ ∀ weights,
      totalServed (ps.map (Plan.round weights)) demand carried = most ps still carried := by
  induction ps generalizing still carried with
  | nil =>
      exact ⟨fun _ => 0, fun _ => le_rfl, fun _ _ => rfl,
        fun _ => by simp [totalServed, levels, most]⟩
  | cons p ps ih =>
      have hp := hps p List.mem_cons_self
      obtain ⟨share, hshare⟩ := hfixed p List.mem_cons_self
      obtain ⟨injected, offer⟩ := p
      obtain rfl : offer = .fixed share := hshare
      obtain ⟨taking, htaking, heq⟩ := exists_taking ps injected carried share still
      have hoffer : ∀ j, 0 ≤ (injected + carried) * share j := fun j =>
        mul_nonneg (add_nonneg hp.injected hc) (hp.share share rfl j)
      have hcarry : 0 ≤ (injected + carried) * ∑ j ∈ takingᶜ, share j := by
        rw [Finset.mul_sum]
        exact Finset.sum_nonneg fun j _ => hoffer j
      obtain ⟨later, hlater, houtside, hserved⟩ := ih
        (fun p' hp' => hps p' (List.mem_cons_of_mem _ hp'))
        (fun p' hp' => hfixed p' (List.mem_cons_of_mem _ hp')) taking hcarry
      -- the takers demand what they are offered now and what they demand later
      let demand : ι → K := fun j =>
        if j ∈ taking then (injected + carried) * share j + later j else 0
      refine ⟨demand, fun j => ?_, fun j hj => if_neg fun hmem => hj (htaking hmem),
        fun weights => ?_⟩
      · show 0 ≤ if j ∈ taking then (injected + carried) * share j + later j else 0
        split_ifs
        · exact add_nonneg (hoffer j) (hlater j)
        · exact le_rfl
      set l := pour (Plan.round weights ⟨injected, .fixed share⟩) demand carried with hl
      have hoffered : ∀ j, l.offered j = (injected + carried) * share j := fun _ => rfl
      have htakes : ∀ j ∈ taking, l.demand j = (injected + carried) * share j + later j :=
        fun j hj => if_pos hj
      have hidles : ∀ j ∉ taking, l.demand j = 0 := fun j hj => if_neg hj
      have htaken : ∑ j, l.served j = (injected + carried) * ∑ j ∈ taking, share j := by
        rw [Finset.mul_sum, ← Finset.sum_subset (Finset.subset_univ taking)]
        · refine Finset.sum_congr rfl fun j hj => min_eq_right ?_
          rw [htakes j hj, hoffered]
          exact le_add_of_nonneg_right (hlater j)
        · intro j _ hj
          show min (l.demand j) (l.offered j) = 0
          rw [hidles j hj]
          exact min_eq_left (hoffer j)
      have hunmet : l.unmet = later := by
        funext j
        show max 0 (l.demand j - l.offered j) = later j
        by_cases hj : j ∈ taking
        · rw [htakes j hj, hoffered, add_sub_cancel_left, max_eq_right (hlater j)]
        · rw [hidles j hj, hoffered, zero_sub, houtside j hj]
          exact max_eq_left (neg_nonpos.mpr (hoffer j))
      have hexcess : ∑ j, l.excess j = (injected + carried) * ∑ j ∈ takingᶜ, share j := by
        have hround : ∑ j, l.served j + ∑ j, l.excess j = (injected + carried) * ∑ j, share j :=
          served_add_excess_sum _ demand carried
        rw [htaken, ← Finset.sum_add_sum_compl taking share, mul_add] at hround
        linarith
      rw [List.map_cons, totalServed_cons, ← hl, htaken, hunmet, hexcess, hserved, heq]

/-! ## Rounds that offer no more than their supply -/

/-- Everything offered and taken at once is one choice. -/
theorem offered_le_most (ps : List (Plan ι K)) :
    (ps.map fun p => p.injected * p.offer.part).sum ≤ most ps Finset.univ 0 := by
  induction ps with
  | nil => exact le_rfl
  | cons p ps ih =>
      obtain ⟨injected, share | -⟩ := p
      · have hall : (injected + 0) * ∑ j, share j + most ps Finset.univ
            ((injected + 0) * ∑ j ∈ Finset.univᶜ, share j) ≤
              most (⟨injected, .fixed share⟩ :: ps) Finset.univ 0 :=
          le_most_fixed (Finset.Subset.refl _)
        rw [Finset.compl_univ, Finset.sum_empty, mul_zero, add_zero] at hall
        exact (add_le_add_right ih _).trans hall
      · rw [most_proportional, add_zero]
        refine le_trans ?_ (le_max_left _ _)
        show injected * 1 + _ ≤ _
        rw [mul_one]
        exact add_le_add_right ih _

/-- Where no round offers more than its supply, it is the best. -/
theorem most_le {ps : List (Plan ι K)} (hps : ∀ p ∈ ps, p.Nonneg)
    (hpart : ∀ p ∈ ps, p.offer.part ≤ 1) (still : Finset ι) {carried : K} (hc : 0 ≤ carried) :
    most ps still carried ≤ carried + (ps.map fun p => p.injected * p.offer.part).sum := by
  induction ps generalizing still carried with
  | nil => simpa [most] using hc
  | cons p ps ih =>
      have hp := hps p List.mem_cons_self
      have hone := hpart p List.mem_cons_self
      have hrest : ∀ (still : Finset ι) {carried : K}, 0 ≤ carried → most ps still carried ≤
          carried + (ps.map fun p => p.injected * p.offer.part).sum :=
        ih (fun p' hp' => hps p' (List.mem_cons_of_mem _ hp'))
          fun p' hp' => hpart p' (List.mem_cons_of_mem _ hp')
      rw [List.map_cons, List.sum_cons]
      obtain ⟨injected, share | -⟩ := p
      · have hpart : ∑ j, share j ≤ 1 := hone
        obtain ⟨taking, -, heq⟩ := exists_taking ps injected carried share still
        have hcarry : 0 ≤ (injected + carried) * ∑ j ∈ takingᶜ, share j :=
          mul_nonneg (add_nonneg hp.injected hc)
            (Finset.sum_nonneg fun j _ => hp.share share rfl j)
        have hsplit : (injected + carried) * ∑ j ∈ taking, share j +
            (injected + carried) * ∑ j ∈ takingᶜ, share j =
              (injected + carried) * ∑ j, share j := by
          rw [← mul_add, Finset.sum_add_sum_compl]
        have hkept : carried * ∑ j, share j ≤ carried := mul_le_of_le_one_right hc hpart
        have hlater := hrest taking hcarry
        rw [heq]
        show _ ≤ carried + (injected * ∑ j, share j + _)
        linarith
      · have hnow := hrest still (le_refl (0 : K))
        have hlater := hrest still (add_nonneg hp.injected hc)
        show max _ _ ≤ carried + (injected * 1 + _)
        exact max_le (by linarith) (by linarith)

/-! ## Abundant demand -/

omit [LinearOrder K] [DecidableEq ι] [IsStrictOrderedRing K] in
theorem Plan.share_sum {weights : ι → K} (hsum : ∑ j, weights j = 1) (p : Plan ι K) :
    ∑ j, (p.round weights).share j = p.offer.part := by
  obtain ⟨injected, share | -⟩ := p
  · rfl
  · exact hsum

omit [DecidableEq ι] in
/-- Whoever could take all the offers takes its part of each. -/
theorem totalServed_of_abundant {weights : ι → K} (hweights : ∀ j, 0 ≤ weights j)
    (hsum : ∑ j, weights j = 1) {ps : List (Plan ι K)} (hps : ∀ p ∈ ps, p.Nonneg)
    {demand : ι → K} (hd : ∀ j, (ps.map fun p => p.injected * p.offer.part).sum ≤ demand j) :
    totalServed (ps.map (Plan.round weights)) demand 0 =
      (ps.map fun p => p.injected * p.offer.part).sum := by
  have hrounds : ∀ r ∈ ps.map (Plan.round weights), r.Nonneg := by
    intro r hr
    obtain ⟨p, hp, rfl⟩ := List.mem_map.mp hr
    exact (hps p hp).round hweights
  have hoffered : ∀ p ∈ ps, (p.round weights).injected * ∑ j, (p.round weights).share j =
      p.injected * p.offer.part := fun p _ => by rw [p.share_sum hsum]; rfl
  rw [served_of_abundant hrounds, List.map_map]
  · exact congrArg List.sum (List.map_congr_left hoffered)
  · intro j
    refine le_trans ?_ (hd j)
    rw [List.map_map]
    refine List.sum_le_sum fun p hp => ?_
    have hround := (hps p hp).round hweights
    rw [← hoffered p hp]
    exact mul_le_mul_of_nonneg_left
      (Finset.single_le_sum (fun i _ => hround.share i) (Finset.mem_univ j)) hround.injected

/-! ## A proportional round first -/

/-- Rounds without supply, or without shares of it, hand out nothing. -/
theorem most_of_idle {ps : List (Plan ι K)} (hps : ∀ p ∈ ps, p.Nonneg)
    (hidle : ∀ p ∈ ps, p.injected * p.offer.part = 0) (still : Finset ι) :
    most ps still 0 ≤ 0 := by
  induction ps generalizing still with
  | nil => exact le_rfl
  | cons p ps ih =>
      have hp := hps p List.mem_cons_self
      have hnone := hidle p List.mem_cons_self
      have hrest : ∀ still : Finset ι, most ps still 0 ≤ 0 :=
        ih (fun p' hp' => hps p' (List.mem_cons_of_mem _ hp'))
          fun p' hp' => hidle p' (List.mem_cons_of_mem _ hp')
      obtain ⟨injected, share | -⟩ := p
      · have hshare := hp.share share rfl
        have hoffered : ∀ s : Finset ι, (injected + 0) * ∑ j ∈ s, share j = 0 := fun s => by
          rw [add_zero]
          refine le_antisymm (le_trans ?_ hnone.le)
            (mul_nonneg hp.injected (Finset.sum_nonneg fun j _ => hshare j))
          exact mul_le_mul_of_nonneg_left (Finset.sum_le_sum_of_subset_of_nonneg
            (Finset.subset_univ s) fun j _ _ => hshare j) hp.injected
        obtain ⟨taking, -, heq⟩ := exists_taking ps injected 0 share still
        rw [heq, hoffered, hoffered, zero_add]
        exact hrest taking
      · obtain rfl : injected = 0 := (mul_one injected).symm.trans hnone
        rw [most_proportional, add_zero, zero_add, max_self]
        exact hrest still

/-- Behind a first round in proportion to the demands, idle rounds hand out nothing: that
round meets all demands or hands out all it has. -/
theorem totalServed_le_of_proportional_first {demand : ι → K} (hd : ∀ j, 0 ≤ demand j)
    (hpos : 0 < ∑ i, demand i) {injected : K} (hinjected : 0 ≤ injected)
    {ps : List (Plan ι K)} (hps : ∀ p ∈ ps, p.Nonneg)
    (hidle : ∀ p ∈ ps, p.injected * p.offer.part = 0) :
    totalServed ((⟨injected, .proportional⟩ :: ps).map
      (Plan.round fun j => demand j / ∑ i, demand i)) demand 0 ≤ injected := by
  set weights : ι → K := fun j => demand j / ∑ i, demand i with hw
  have hweights : ∀ j, 0 ≤ weights j := fun j => div_nonneg (hd j) hpos.le
  have hsum : ∑ j, weights j = 1 := by rw [hw, ← Finset.sum_div, div_self hpos.ne']
  rcases le_total (∑ i, demand i) injected with hle | hle
  · -- all demands together are no more than the first supply
    have hbalance := totalServed_add_finalUnmet
      ((⟨injected, .proportional⟩ :: ps).map (Plan.round weights)) demand 0
    have hunmet : 0 ≤ ∑ j, finalUnmet
        ((⟨injected, .proportional⟩ :: ps).map (Plan.round weights)) demand 0 j :=
      Finset.sum_nonneg fun j _ => finalUnmet_nonneg hd j
    linarith
  · -- the first round hands out all it has, and the others have nothing
    set l := pour (Plan.round weights ⟨injected, .proportional⟩) demand 0 with hl
    have hpour : l.Nonneg :=
      pour_nonneg (Plan.Nonneg.round ⟨hinjected, fun _ h => by cases h⟩ hweights) hd le_rfl
    have htakes : ∀ j, l.offered j ≤ l.demand j := by
      intro j
      show (injected + 0) * (demand j / ∑ i, demand i) ≤ demand j
      rw [add_zero, mul_div_assoc', div_le_iff₀ hpos, mul_comm]
      exact mul_le_mul_of_nonneg_left hle (hd j)
    have hexcess : ∑ j, l.excess j = 0 :=
      Finset.sum_eq_zero fun j _ => max_eq_left (sub_nonpos.mpr (htakes j))
    have hround : ∑ j, l.served j + ∑ j, l.excess j = injected := by
      have hall := served_add_excess_sum (Plan.round weights ⟨injected, .proportional⟩) demand 0
      rw [Plan.share_sum hsum] at hall
      exact hall.trans ((mul_one _).trans (add_zero injected))
    have hrest := totalServed_le_most_univ hweights hsum hps l.unmet_nonneg (le_refl (0 : K))
    have hnone := hrest.trans (most_of_idle hps hidle Finset.univ)
    rw [List.map_cons, totalServed_cons, ← hl, hexcess]
    linarith

/-! ## Another unit -/

section Scale

variable {a : K} (ha : 0 ≤ a) (weights demand : ι → K) (carried : K)

omit [LinearOrder K] [Fintype ι] [DecidableEq ι] [IsStrictOrderedRing K] in
theorem offered_scale (p : Plan ι K) (j : ι) :
    (pour ((p.scale a).round weights) (fun j => a * demand j) (a * carried)).offered j =
      a * (pour (p.round weights) demand carried).offered j := by
  show (a * p.injected + a * carried) * _ = a * ((p.injected + carried) * _)
  rw [← mul_add, mul_assoc]
  rfl

include ha

omit [DecidableEq ι] in
/-- Demands and supply `a` times as large are served `a` times as much. -/
theorem totalServed_scale (ps : List (Plan ι K)) :
    totalServed ((ps.map (Plan.scale a)).map (Plan.round weights)) (fun j => a * demand j)
      (a * carried) = a * totalServed (ps.map (Plan.round weights)) demand carried := by
  induction ps generalizing demand carried with
  | nil => simp [totalServed, levels]
  | cons p ps ih =>
      simp only [List.map_cons, totalServed_cons]
      set l := pour (p.round weights) demand carried with hl
      set l' := pour ((p.scale a).round weights) (fun j => a * demand j) (a * carried) with hl'
      have hoffered : ∀ j, l'.offered j = a * l.offered j :=
        offered_scale weights demand carried p
      have hserved : ∀ j, l'.served j = a * l.served j := fun j => by
        rw [Level.served, hoffered]
        exact (mul_min_of_nonneg _ _ ha).symm
      have hunmet : l'.unmet = fun j => a * l.unmet j := by
        funext j
        rw [Level.unmet, Level.unmet, hoffered, mul_max_of_nonneg _ _ ha, mul_zero, mul_sub]
        rfl
      have hexcess : ∑ j, l'.excess j = a * ∑ j, l.excess j := by
        rw [Finset.mul_sum]
        refine Finset.sum_congr rfl fun j _ => ?_
        rw [Level.excess, Level.excess, hoffered, mul_max_of_nonneg _ _ ha, mul_zero, mul_sub]
        rfl
      rw [hunmet, hexcess, ih, mul_add, Finset.mul_sum]
      exact congrArg (· + _) (Finset.sum_congr rfl fun j _ => hserved j)

end Scale

omit [DecidableEq ι] in
/-- Without a supply nothing is served. -/
theorem totalServed_of_noSupply {rs : List (Round ι K)} (hrs : ∀ r ∈ rs, r.injected = 0)
    {demand : ι → K} (hd : ∀ j, 0 ≤ demand j) : totalServed rs demand 0 = 0 := by
  induction rs with
  | nil => simp [totalServed, levels]
  | cons r rs ih =>
      have hoffered : ∀ j, (pour r demand 0).offered j = 0 := fun j => by
        show (r.injected + 0) * r.share j = 0
        rw [hrs r List.mem_cons_self, add_zero, zero_mul]
      have hserved : ∀ j, (pour r demand 0).served j = 0 := fun j => by
        rw [Level.served, hoffered]
        exact min_eq_right (hd j)
      have hunmet : (pour r demand 0).unmet = demand := by
        funext j
        rw [Level.unmet, hoffered, sub_zero]
        exact max_eq_right (hd j)
      have hexcess : ∀ j, (pour r demand 0).excess j = 0 := fun j => by
        rw [Level.excess, hoffered, zero_sub]
        exact max_eq_left (neg_nonpos.mpr (hd j))
      rw [totalServed_cons, hunmet, Finset.sum_eq_zero fun j _ => hexcess j,
        Finset.sum_eq_zero fun j _ => hserved j, zero_add]
      exact ih fun r' hr' => hrs r' (List.mem_cons_of_mem _ hr')

end SimulationKey.Kit.Cascade
