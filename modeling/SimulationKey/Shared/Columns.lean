import SimulationKey.Shared.DataLoading

/-!
# What a requested label selects

A label selects all the columns that carry it as text, in table order. The
selection has one row for each requested name exactly when each of them is the
text of one column only (`length_flatMap_eq_iff`); it is then known by name,
whatever the order of the table (`valuesOf_perm`).
-/

namespace SimulationKey

open Kit PyFloat

variable {F : Type} [PyFloat F] {T : Nat}
  {columns columns' : List (String × (Fin T → Except String F))}

/-! ## Selection -/

omit [PyFloat F] in
theorem columnsNamed_eq_nil_iff {name : String} :
    columnsNamed columns name = [] ↔ name ∉ columns.map Prod.fst := by
  simp only [columnsNamed, List.map_eq_nil_iff, List.filter_eq_nil_iff, decide_eq_true_eq,
    List.mem_map, not_exists, not_and]

omit [PyFloat F] in
theorem columnsNamed_perm (h : columns.Perm columns') (name : String) :
    (columnsNamed columns name).Perm (columnsNamed columns' name) :=
  (h.filter _).map _

/-- One column of the table carries the label. -/
def Sole (columns : List (String × (Fin T → Except String F))) (name : String) : Prop :=
  (columnsNamed columns name).length = 1

omit [PyFloat F] in
theorem sole_perm (h : columns.Perm columns') {name : String} :
    Sole columns name ↔ Sole columns' name := by
  rw [Sole, Sole, (columnsNamed_perm h name).length_eq]

omit [PyFloat F] in
/-- Labels that occur select a row for each of the names exactly when each of
them is on one column. -/
theorem length_flatMap_eq_iff {names : List String}
    (hnames : ∀ name ∈ names, name ∈ columns.map Prod.fst) :
    (names.flatMap (columnsNamed columns)).length = names.length ↔
      ∀ name ∈ names, Sole columns name := by
  have hpos : ∀ name ∈ names, 0 < (columnsNamed columns name).length := fun name hname => by
    refine List.length_pos_iff.mpr fun hnil => ?_
    exact columnsNamed_eq_nil_iff.mp hnil (hnames name hname)
  have hle : ∀ names' : List String, (∀ name ∈ names', 0 < (columnsNamed columns name).length) →
      names'.length ≤ (names'.flatMap (columnsNamed columns)).length := by
    intro names' hpos'
    induction names' with
    | nil => simp
    | cons name names' ih =>
        have hhead := hpos' name List.mem_cons_self
        have htail := ih fun name' h => hpos' name' (List.mem_cons_of_mem _ h)
        rw [List.flatMap_cons, List.length_append, List.length_cons]
        omega
  clear hnames
  induction names with
  | nil => simp
  | cons name names ih =>
      have hhead := hpos name List.mem_cons_self
      have hpos' : ∀ name' ∈ names, 0 < (columnsNamed columns name').length :=
        fun name' h => hpos name' (List.mem_cons_of_mem _ h)
      have htail := hle names hpos'
      rw [List.flatMap_cons, List.length_append, List.length_cons, List.forall_mem_cons]
      constructor
      · intro hlength
        exact ⟨show (columnsNamed columns name).length = 1 by omega, (ih hpos').mp (by omega)⟩
      · rintro ⟨hsole, hsoles⟩
        have hrest := (ih hpos').mpr hsoles
        have hone : (columnsNamed columns name).length = 1 := hsole
        omega

/-! ## Values -/

/-- The values of the first column of a label (0 where there is none). -/
def valuesOf (columns : List (String × (Fin T → Except String F))) (name : String) : Fin T → F :=
  match columnsNamed columns name with
  | column :: _ => fun t => cellValue (column t)
  | [] => fun _ => 0

theorem valuesOf_eq {name : String} {column : Fin T → Except String F}
    (h : columnsNamed columns name = [column]) :
    valuesOf columns name = fun t => cellValue (column t) := by
  rw [valuesOf, h]

theorem map_cellValue_of_sole {name : String} (h : Sole columns name) :
    (columnsNamed columns name).map (fun column t => cellValue (column t)) =
      [valuesOf columns name] := by
  obtain ⟨column, hcolumn⟩ := List.length_eq_one_iff.mp h
  rw [hcolumn, valuesOf_eq hcolumn]
  rfl

/-- The order of the table does not matter to a label that is on one column. -/
theorem valuesOf_perm (hperm : columns.Perm columns') {name : String} (h : Sole columns name) :
    valuesOf columns' name = valuesOf columns name := by
  obtain ⟨column, hcolumn⟩ := List.length_eq_one_iff.mp h
  have hnamed := columnsNamed_perm hperm name
  rw [hcolumn] at hnamed
  rw [valuesOf_eq hcolumn, valuesOf_eq (List.perm_singleton.mp hnamed.symm)]

theorem flatMap_valuesOf {names : List String} (h : ∀ name ∈ names, Sole columns name) :
    (names.flatMap (columnsNamed columns)).map (fun column t => cellValue (column t)) =
      names.map (valuesOf columns) := by
  induction names with
  | nil => rfl
  | cons name names ih =>
      rw [List.flatMap_cons, List.map_append, List.map_cons,
        map_cellValue_of_sole (h name List.mem_cons_self),
        ih fun name' h' => h name' (List.mem_cons_of_mem _ h')]
      rfl

/-! ## Conversion -/

/-- Every cell of the column is a number. -/
def Numeric (column : Fin T → Except String F) : Prop := ∀ t, ∃ x, column t = .ok x

theorem cellError_eq_none_iff {column : Fin T → Except String F} :
    cellError column = none ↔ Numeric column := by
  simp only [cellError, List.findSome?_eq_none_iff, List.mem_finRange, true_imp_iff, Numeric]
  refine forall_congr' fun t => ?_
  cases column t with
  | error text => simp
  | ok x => simp

theorem toNumpy_ok_iff {selected : List (Fin T → Except String F)} {rows : List (Fin T → F)} :
    toNumpy selected = .ok rows ↔
      (∀ column ∈ selected, Numeric column) ∧
        rows = selected.map fun column t => cellValue (column t) := by
  have hnone : selected.findSome? cellError = none ↔ ∀ column ∈ selected, Numeric column := by
    rw [List.findSome?_eq_none_iff]
    exact forall₂_congr fun column _ => cellError_eq_none_iff
  rw [← hnone]
  unfold toNumpy
  cases selected.findSome? cellError with
  | some text => simp
  | none => simp [eq_comm]

/-! ## Labels as read -/

/-- A header cell: text, or a number a spreadsheet stores as such. -/
inductive HeaderLabel where
  | text (s : String)
  | number (n : Int)
  deriving DecidableEq, Repr

def HeaderLabel.str : HeaderLabel → String
  | .text s => s
  | .number n => toString n

end SimulationKey
