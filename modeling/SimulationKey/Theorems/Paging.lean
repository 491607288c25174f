import SimulationKey.Api.SimulationRepository

/-!
# Paging through the simulations

The pages of a list are separate queries. Their slices fit together when the
ORDER BY leaves no tie, or no tie at a page's end; otherwise the database may
answer a row twice and leave another out.

* **exactly when** — every page sequence visits every matching row once if and
  only if no group of tied rows goes over a page's end (`paging_iff`);
* **by id** — a sort by id, or no sort, leaves no tie (`whole_of_byId`).
-/

namespace SimulationKey.Theorems.Paging

open Kit Kit.Paging

variable {db : Collation} {query : QueryParams}

/-! ## The order -/

theorem clause_preorder (clause : SortClause) :
    TotalPreorder fun a b => clause.le db a b = true := by
  have hcolumn : TotalPreorder fun a b => clause.column.le db a b = true := by
    cases clause.column with
    | id =>
        simp only [SortColumn.le, decide_eq_true_eq]
        exact ⟨fun a b => le_total a.id b.id, fun h h' => le_trans h h'⟩
    | name =>
        simp only [SortColumn.le, decide_eq_true_eq]
        exact ⟨fun a b => le_total (db.key a.name) (db.key b.name), fun h h' => le_trans h h'⟩
    | status =>
        simp only [SortColumn.le, decide_eq_true_eq]
        exact ⟨fun a b => le_total a.status.number b.status.number, fun h h' => le_trans h h'⟩
  cases hdesc : clause.descending with
  | false => simpa only [SortClause.le, hdesc, Bool.false_eq_true, if_false] using hcolumn
  | true =>
      simp only [SortClause.le, hdesc, if_true]
      exact ⟨fun a b => hcolumn.total b a, fun h h' => hcolumn.trans h' h⟩

theorem order_preorder : TotalPreorder fun a b => orderLe db query a b = true := by
  refine TotalPreorder.orderBy fun le hle => ?_
  obtain ⟨clause, -, rfl⟩ := List.mem_map.mp hle
  exact clause_preorder clause

/-- Sorting by id first, or by nothing. -/
def ById (query : QueryParams) : Prop :=
  sortClause query "sort_id" .id ≠ [] ∨
    sortClause query "sort_name" .name = [] ∧ sortClause query "sort_status" .status = []

theorem sortClauses_of_byId (h : ById query) :
    ∃ descending rest, sortClauses query = ⟨.id, descending⟩ :: rest := by
  have hid : sortClause query "sort_id" .id = [] ∨
      ∃ descending, sortClause query "sort_id" .id = [⟨.id, descending⟩] := by
    unfold sortClause
    split
    · exact .inl rfl
    · split_ifs
      · exact .inr ⟨true, rfl⟩
      · exact .inr ⟨false, rfl⟩
      · exact .inl rfl
  unfold sortClauses
  rcases hid with hnone | ⟨descending, hid⟩
  · obtain ⟨hname, hstatus⟩ := h.resolve_left (not_not.mpr hnone)
    exact ⟨true, [], by simp [hnone, hname, hstatus]⟩
  · exact ⟨descending, _, by rw [hid, List.append_assoc]; rfl⟩

/-! ## The rows -/

section Rows

variable {internalId : Option Nat} {rows matching : List SimulationModel}

theorem scope_sublist : (withCommunityScope internalId rows).Sublist rows := by
  cases internalId with
  | none => exact List.nil_sublist _
  | some c => exact List.filter_sublist

theorem named_sublist : (named db query rows).Sublist rows := by
  unfold named
  split
  · exact List.Sublist.refl _
  · exact List.filter_sublist

theorem matching_sublist (h : matchingRows db internalId rows query = .ok matching) :
    matching.Sublist rows := by
  have hown : (named db query (withCommunityScope internalId rows)).Sublist rows :=
    named_sublist.trans scope_sublist
  simp only [matchingRows] at h
  split at h
  · rw [← Except.ok.inj h]
    exact hown
  · split at h
    · cases h
    · rw [← Except.ok.inj h]
      exact List.filter_sublist.trans hown

/-- The slice of a page is the library's. -/
theorem pageSlice_eq (arranged : List SimulationModel) (k : Nat) {pageSize : Int}
    (hsize : 1 ≤ pageSize) :
    pageSlice arranged (k + 1) pageSize = .ok (pageOf arranged pageSize.toNat k) := by
  obtain ⟨size, rfl⟩ := Int.eq_ofNat_of_zero_le (by omega : 0 ≤ pageSize)
  have hoffset : ((k : Int) + 1 - 1) * (size : Int) = ((k * size : Nat) : Int) := by
    push_cast
    ring
  rw [pageSlice, hoffset, if_neg (by omega), if_neg (by omega)]
  rfl

/-- `-(-total // page_size)` is the number of pages. -/
theorem totalPages_eq (total : Nat) {pageSize : Int} (hsize : 1 ≤ pageSize) :
    -(-(total : Int) / pageSize) = (pageCount total pageSize.toNat : Nat) := by
  obtain ⟨size, rfl⟩ := Int.eq_ofNat_of_zero_le (by omega : 0 ≤ pageSize)
  have hpos : 0 < size := by omega
  obtain ⟨hlow, hhigh⟩ := (Nat.div_eq_iff hpos).mp (rfl : pageCount total size = _)
  have hdiv : -(total : Int) / (size : Int) = -(pageCount total size : Nat) := by
    rw [Int.ediv_eq_iff_of_pos (by omega), Int.neg_mul]
    have hcast : ((pageCount total size * size : Nat) : Int) = pageCount total size * size :=
      Nat.cast_mul _ _
    omega
  rw [Int.toNat_natCast]
  show -(-(total : Int) / (size : Int)) = _
  rw [hdiv, Int.neg_neg]

/-- A successful answer, spelled out. -/
theorem mayList_ok_iff (hmatching : matchingRows db internalId rows query = .ok matching) (k : Nat)
    {pageSize : Int} (hsize : 1 ≤ pageSize) {answer : List Simulation × Pagination} :
    MayList db internalId rows query (k + 1) pageSize (.ok answer) ↔
      ∃ arranged, Arranges (fun a b => orderLe db query a b = true) matching arranged ∧
        answer = ((pageOf arranged pageSize.toNat k).map toSimulationSchema,
          ⟨k + 1, pageSize, matching.length, (pageCount matching.length pageSize.toNat : Nat)⟩) := by
  have hanswer : ∀ arranged, getSimulations db internalId rows query arranged (k + 1) pageSize =
      .ok ((pageOf arranged pageSize.toNat k).map toSimulationSchema,
        ⟨k + 1, pageSize, matching.length, (pageCount matching.length pageSize.toNat : Nat)⟩) := by
    intro arranged
    rw [getSimulations, getListSimulations, hmatching, pageSlice_eq arranged k hsize]
    have hne : pageSize ≠ 0 := by omega
    simp only [bind, Except.bind, pure, Except.pure, hne, if_false, totalPages_eq _ hsize]
  constructor
  · rintro ⟨arranged, harranged, heq⟩
    rw [hanswer arranged] at heq
    exact ⟨arranged, harranged matching hmatching, Except.ok.inj heq⟩
  · rintro ⟨arranged, harranged, rfl⟩
    refine ⟨arranged, fun matching' h' => ?_, (hanswer arranged).symm⟩
    rw [← Except.ok.inj (hmatching.symm.trans h')]
    exact harranged

end Rows

/-! ## The exact condition -/

/-- Pages one to the last one give the matching rows once each, and count them. -/
structure VisitsOnce (matching : List SimulationModel)
    (responses : Nat → List Simulation × Pagination) : Prop where
  total : ∀ k, (responses k).2.total = matching.length
  visited : ((List.range (responses 0).2.totalPages.toNat).flatMap fun k =>
    (responses k).1).Perm (matching.map toSimulationSchema)

/-- No group of rows that the ORDER BY ties goes over a page's end. -/
def TiesOnOnePage (db : Collation) (query : QueryParams) (matching : List SimulationModel)
    (pageSize : Int) : Prop :=
  Whole (fun a b => orderLe db query a b = true) matching pageSize.toNat

/-- Requesting every page visits every matching row once, whatever order the
database picks among tied rows in each query, exactly when no group of tied rows
goes over a page's end. -/
theorem paging_iff (db : Collation) (internalId : Option Nat) {rows : List SimulationModel}
    (hunique : (rows.map (·.id)).Nodup) (query : QueryParams) {pageSize : Int}
    (hsize : 1 ≤ pageSize) {matching : List SimulationModel}
    (hmatching : matchingRows db internalId rows query = .ok matching) :
    (∀ responses : Nat → List Simulation × Pagination,
        (∀ k : Nat, MayList db internalId rows query (k + 1) pageSize (.ok (responses k))) →
          VisitsOnce matching responses) ↔
      TiesOnOnePage db query matching pageSize := by
  have hpos : 0 < pageSize.toNat := by omega
  have hids : (matching.map (·.id)).Nodup :=
    ((matching_sublist hmatching).map _).nodup hunique
  have hschema : (matching.map toSimulationSchema).Nodup :=
    .of_map (·.id) (by rw [List.map_map]; exact hids)
  constructor
  · intro hall
    refine whole_of_nodup order_preorder hpos fun arrangement harranged => ?_
    have hvisits := hall (fun k => ((pageOf (arrangement k) pageSize.toNat k).map
      toSimulationSchema, ⟨k + 1, pageSize, matching.length,
        (pageCount matching.length pageSize.toNat : Nat)⟩)) fun k =>
          (mayList_ok_iff hmatching k hsize).mpr ⟨arrangement k, harranged k, rfl⟩
    have hmapped : ((visited arrangement matching.length pageSize.toNat).map
        toSimulationSchema).Nodup := by
      rw [visited, List.map_flatMap]
      exact hvisits.visited.nodup_iff.mpr hschema
    exact hmapped.of_map _
  · intro hwhole responses hresponses
    choose arrangement harranged hresponse using fun k =>
      (mayList_ok_iff hmatching k hsize).mp (hresponses k)
    have hvisited := (visited_perm order_preorder (hids.of_map _) hpos hwhole harranged).map
      toSimulationSchema
    constructor
    · intro k
      rw [hresponse k]
    · rw [visited, List.map_flatMap] at hvisited
      rw [hresponse 0, Int.toNat_natCast]
      refine (List.Perm.of_eq (List.flatMap_congr fun k _ => ?_)).trans hvisited
      rw [hresponse k]

/-- A sort by id, or by nothing, ties no rows. -/
theorem whole_of_byId (h : ById query) {matching : List SimulationModel}
    (hids : (matching.map (·.id)).Nodup) (pageSize : Int) :
    TiesOnOnePage db query matching pageSize := by
  obtain ⟨descending, rest, hclauses⟩ := sortClauses_of_byId h
  refine whole_of_antisymm order_preorder (hids.of_map _) (fun a ha b hb hab hba => ?_) _
  refine List.inj_on_of_nodup_map hids ha hb ?_
  rw [orderLe, hclauses, List.map_cons, orderBy_cons] at hab hba
  have hle := hab.1
  have hge := hba.1
  cases descending with
  | false =>
      simp only [SortClause.le, SortColumn.le, Bool.false_eq_true, if_false,
        decide_eq_true_eq] at hle hge
      exact le_antisymm hle hge
  | true =>
      simp only [SortClause.le, SortColumn.le, if_true, decide_eq_true_eq] at hle hge
      exact le_antisymm hge hle

/-! ## Two rows of one status -/

/-- A database that compares names as texts. -/
def plainCollation : Collation where
  ilike name pattern := name = pattern
  Key := String
  order := inferInstance
  key := id

def pendingRow (number : Nat) : SimulationModel :=
  { id := number
    name := "run"
    idCommunity := 1
    source := .crm
    fileStorageKey := none
    fileName := none
    injectionName := none
    idSharingOperation := some 1
    periodStart := some 1
    periodEnd := some 1
    idKey := 1
    keyName := "key"
    status := .pending
    errorMessage := none
    resultStorageKey := none
    dataWarnings := none }

def twoPending : List SimulationModel := [pendingRow 1, pendingRow 2]

def byStatus : QueryParams := [("sort_status", "asc")]

theorem twoPending_tied (a b : SimulationModel) (ha : a ∈ twoPending) (hb : b ∈ twoPending) :
    orderLe plainCollation byStatus a b = true := by
  rcases List.mem_pair.mp ha with rfl | rfl <;> rcases List.mem_pair.mp hb with rfl | rfl <;>
    decide +kernel

theorem twoPending_matching :
    matchingRows plainCollation (some 1) twoPending byStatus = .ok twoPending := by
  decide +kernel

/-- And a third, of another status. -/
def twoAndFailed : List SimulationModel := twoPending ++ [{ pendingRow 3 with status := .failed }]

theorem twoAndFailed_matching :
    matchingRows plainCollation (some 1) twoAndFailed byStatus = .ok twoAndFailed := by
  decide +kernel

/-- The tied rows share the first of the two pages, so all three are answered once. -/
theorem paging_twoAndFailed :
    VisitsOnce twoAndFailed fun k =>
      ((pageOf twoAndFailed 2 k).map toSimulationSchema, ⟨k + 1, 2, 3, 2⟩) := by
  refine (paging_iff plainCollation (some 1) (by decide +kernel) byStatus
    (one_le_two : (1 : Int) ≤ 2) twoAndFailed_matching).mpr (fun a ha k => ?_) _ fun k => ?_
  · have hcounts : ∀ a ∈ twoAndFailed,
        before (fun a b => orderLe plainCollation byStatus a b = true) twoAndFailed a = 0 ∧
            upTo (fun a b => orderLe plainCollation byStatus a b = true) twoAndFailed a = 2 ∨
          before (fun a b => orderLe plainCollation byStatus a b = true) twoAndFailed a = 2 ∧
            upTo (fun a b => orderLe plainCollation byStatus a b = true) twoAndFailed a = 3 := by
      decide +kernel
    show k * 2 ≤ _ ∨ _ ≤ k * 2
    rcases hcounts a ha with ⟨hbefore, hupTo⟩ | ⟨hbefore, hupTo⟩ <;> rw [hbefore, hupTo] <;> omega
  · exact (mayList_ok_iff twoAndFailed_matching k one_le_two).mpr
      ⟨twoAndFailed, ⟨.refl _, by decide +kernel⟩, rfl⟩

/-- On pages of one row, the database may answer the first row on both. -/
theorem twoPending_repeated :
    ∃ responses : Nat → List Simulation × Pagination,
      (∀ k : Nat, MayList plainCollation (some 1) twoPending byStatus (k + 1) 1
        (.ok (responses k))) ∧ ¬ VisitsOnce twoPending responses := by
  have harranged : ∀ k : Nat, Arranges (fun a b => orderLe plainCollation byStatus a b = true)
      twoPending (if k = 0 then twoPending else twoPending.reverse) := by
    intro k
    split_ifs
    · exact ⟨.refl _, List.pairwise_of_forall_mem_list fun a ha b hb => twoPending_tied a b ha hb⟩
    · exact ⟨List.reverse_perm _, List.pairwise_of_forall_mem_list fun a ha b hb =>
        twoPending_tied a b (List.mem_reverse.mp ha) (List.mem_reverse.mp hb)⟩
  refine ⟨fun k => ((pageOf (if k = 0 then twoPending else twoPending.reverse) 1 k).map
    toSimulationSchema, ⟨k + 1, 1, 2, 2⟩), fun k =>
      (mayList_ok_iff twoPending_matching k le_rfl).mpr ⟨_, harranged k, rfl⟩, fun hvisits => ?_⟩
  have hrepeat := hvisits.visited.count_eq (toSimulationSchema (pendingRow 1))
  revert hrepeat
  decide +kernel

end SimulationKey.Theorems.Paging
