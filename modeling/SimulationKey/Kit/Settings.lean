import Mathlib.Data.List.Basic

/-!
# Declared settings

Some settings of a record are declared, and a stored record may differ from them.
What differs is the drift; the stored record evolved by its drift has the declared
values, and every other value is its own.
-/

namespace SimulationKey.Kit.Settings

variable {ι V : Type} [DecidableEq ι] [DecidableEq V]

/-- The settings of the names at which a record differs from the defaults. -/
def declaredOf (names : List ι) (defaults record : ι → V) : List (ι × V) :=
  (names.filter fun name => record name ≠ defaults name).map fun name => (name, record name)

/-- The declared values that the current record does not have. -/
def driftOf (declared : List (ι × V)) (current : ι → V) : List (ι × V) :=
  declared.filter fun x => current x.1 ≠ x.2

/-- A record with some values replaced. -/
def evolve (current : ι → V) (changes : List (ι × V)) : ι → V :=
  fun name => (changes.lookup name).getD (current name)

variable {names : List ι} {defaults record current : ι → V} {declared : List (ι × V)} {name : ι}

omit [DecidableEq ι] in
theorem mem_declaredOf {x : ι × V} : x ∈ declaredOf names defaults record ↔
    (x.1 ∈ names ∧ record x.1 ≠ defaults x.1) ∧ x.2 = record x.1 := by
  simp only [declaredOf, List.mem_map, List.mem_filter, decide_eq_true_eq]
  constructor
  · rintro ⟨name, h, rfl⟩
    exact ⟨h, rfl⟩
  · rintro ⟨h, hvalue⟩
    exact ⟨x.1, h, by rw [← hvalue]⟩

omit [DecidableEq ι] in
theorem driftOf_eq_nil_iff :
    driftOf declared current = [] ↔ ∀ x ∈ declared, current x.1 = x.2 := by
  simp [driftOf]

/-- The drift changes no name that is not declared. -/
theorem evolve_driftOf_other (h : ∀ x ∈ declared, x.1 ≠ name) :
    evolve current (driftOf declared current) name = current name := by
  have hnone : (driftOf declared current).lookup name = none := by
    rw [List.lookup_eq_none_iff]
    intro x hx
    simpa using (h x (List.mem_of_mem_filter hx)).symm
  rw [evolve, hnone, Option.getD_none]

/-- After the drift, a declared name has its value. -/
theorem evolve_driftOf_declared (hvalues : ∀ x ∈ declared, x.2 = record x.1)
    (hname : ∃ x ∈ declared, x.1 = name) :
    evolve current (driftOf declared current) name = record name := by
  obtain ⟨x, hx, rfl⟩ := hname
  rw [evolve]
  cases hlookup : (driftOf declared current).lookup x.1 with
  | some value =>
      obtain ⟨before, after, hsplit, -⟩ := List.lookup_eq_some_iff.mp hlookup
      have hmem : (x.1, value) ∈ driftOf declared current := by
        rw [hsplit]
        exact List.mem_append_right _ (List.mem_cons_self ..)
      exact hvalues _ (List.mem_of_mem_filter hmem)
  | none =>
      -- without drift the current value is the declared one
      rw [Option.getD_none]
      by_contra hne
      have hmem : x ∈ driftOf declared current := by
        refine List.mem_filter.mpr ⟨hx, ?_⟩
        rw [hvalues x hx]
        simpa using hne
      have := List.lookup_eq_none_iff.mp hlookup x hmem
      simp at this

end SimulationKey.Kit.Settings
