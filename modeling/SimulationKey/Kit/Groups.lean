import Mathlib.Algebra.BigOperators.Group.List.Basic
import Mathlib.Data.List.Dedup
import Mathlib.Data.List.Sort

/-!
# Groups of a list by key

A table laid out by key loses and repeats nothing when the keys are distinct and
all there: the groups' sums add up to the whole (`sum_groups`), and the keys a
part of the table leaves empty are those it does not have (`length_filter_notMem`).
-/

namespace SimulationKey.Kit

variable {α κ : Type}

section Sums

variable {M : Type} [AddCommMonoid M] [DecidableEq κ] (key : α → κ) (value : α → M)

/-- The sum of one key's entries. -/
def groupSum (l : List α) (k : κ) : M := ((l.filter (key · = k)).map value).sum

theorem groupSum_cons (a : α) (l : List α) (k : κ) :
    groupSum key value (a :: l) k =
      (if key a = k then value a else 0) + groupSum key value l k := by
  by_cases h : key a = k
  · simp [groupSum, h]
  · simp [groupSum, h]

/-- Among distinct keys, one is a given one. -/
theorem sum_single {keys : List κ} (hnodup : keys.Nodup) {k : κ} (hk : k ∈ keys) (x : M) :
    (keys.map fun k' => if k = k' then x else 0).sum = x := by
  induction keys with
  | nil => cases hk
  | cons head tail ih =>
      obtain ⟨hhead, htail⟩ := List.nodup_cons.mp hnodup
      rw [List.map_cons, List.sum_cons]
      by_cases heq : k = head
      · have hzero : (tail.map fun k' => if k = k' then x else 0) = tail.map fun _ => 0 :=
          List.map_congr_left fun k' hk' => if_neg fun h =>
            hhead (by rw [← heq, h]; exact hk')
        rw [if_pos heq, hzero]
        simp
      · rw [if_neg heq, zero_add]
        exact ih htail ((List.mem_cons.mp hk).resolve_left heq)

/-- Over distinct keys that leave no entry out, the groups add up to the whole. -/
theorem sum_groups {keys : List κ} (hnodup : keys.Nodup) {l : List α}
    (hkeys : ∀ a ∈ l, key a ∈ keys) :
    (keys.map (groupSum key value l)).sum = (l.map value).sum := by
  induction l with
  | nil =>
      have hnil : groupSum key value [] = fun _ => 0 := rfl
      simp [hnil]
  | cons a l ih =>
      have hsplit : keys.map (groupSum key value (a :: l)) =
          keys.map fun k => (if key a = k then value a else 0) + groupSum key value l k :=
        List.map_congr_left fun k _ => groupSum_cons key value a l k
      rw [hsplit, List.sum_map_add, sum_single hnodup (hkeys a List.mem_cons_self),
        ih fun b hb => hkeys b (List.mem_cons_of_mem _ hb), List.map_cons, List.sum_cons]

/-- A group of one. -/
theorem groupSum_of_unique {l : List α} (hnodup : (l.map key).Nodup) {a : α} (ha : a ∈ l) :
    groupSum key value l (key a) = value a := by
  induction l with
  | nil => cases ha
  | cons b l ih =>
      obtain ⟨hhead, htail⟩ := List.nodup_cons.mp hnodup
      rw [groupSum_cons]
      rcases List.mem_cons.mp ha with rfl | ha
      · have hnone : l.filter (fun b => key b = key a) = [] :=
          List.filter_eq_nil_iff.mpr fun b hb heq =>
            hhead (of_decide_eq_true heq ▸ List.mem_map_of_mem hb)
        simp [groupSum, hnone]
      · have hne : key b ≠ key a := fun heq => hhead (heq ▸ List.mem_map_of_mem ha)
        rw [if_neg hne, zero_add, ih htail ha]

theorem groupSum_of_notMem {l : List α} {k : κ} (h : ∀ a ∈ l, key a ≠ k) :
    groupSum key value l k = 0 := by
  have hnone : l.filter (fun a => key a = k) = [] :=
    List.filter_eq_nil_iff.mpr fun a ha heq => h a ha (of_decide_eq_true heq)
  simp [groupSum, hnone]

end Sums

/-- The distinct keys that are not among some of them. -/
theorem length_filter_notMem [DecidableEq κ] {keys some : List κ} (hnodup : keys.Nodup)
    (hsub : ∀ k ∈ some, k ∈ keys) :
    (keys.filter (· ∉ some)).length = keys.length - some.dedup.length := by
  have hperm : (keys.filter (· ∈ some)).Perm some.dedup := by
    refine (List.perm_ext_iff_of_nodup (hnodup.filter _) some.nodup_dedup).mpr fun k => ?_
    rw [List.mem_filter, List.mem_dedup, decide_eq_true_eq]
    exact ⟨fun h => h.2, fun h => ⟨hsub k h, h⟩⟩
  have hsplit := List.length_eq_length_filter_add (l := keys) fun k => decide (k ∈ some)
  have hsame : (keys.filter fun k => !decide (k ∈ some)) = keys.filter (· ∉ some) :=
    List.filter_congr fun k _ => by simp
  rw [hsame, hperm.length_eq] at hsplit
  omega

end SimulationKey.Kit
