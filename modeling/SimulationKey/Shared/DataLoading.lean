import SimulationKey.Simulation.Compute

/-!
# `shared/data_loading.py`

A parsed table becomes the matrices of the solve. Columns are found by label, so
a label the table repeats selects all of its columns and a name requested twice
selects them twice (`columnsNamed`). Cells keep what converting them gives: a
value, or the text of the conversion's error.
-/

namespace SimulationKey

open Kit PyFloat Kit.Text

variable {F L : Type} [PyFloat F]

/-- A table of labelled columns over `timesteps` rows. -/
structure DataFrame (L F : Type) where
  timesteps : Nat
  columns : List (L × (Fin timesteps → Except String F))

/-- The matrices of the solve and the consumers their rows belong to. -/
structure SimulationRawData (F : Type) where
  C : Mat F
  VA : Mat F
  consumerNames : List String

/-- A table that cannot be loaded. The first four are the module's own errors;
the others come from numpy and `zip`. -/
inductive DataLoadError where
  | noConsumersRequested
  | invalidInjectionColumn (name : String)
  | missingConsumerColumns (names : List String)
  | nonFinite (column : String) (cells row : Nat)
  | notConvertible (text : String)
  | moreRowsThanColumns
  | moreColumnsThanRows
  deriving DecidableEq, Repr

namespace DataLoadError

/-- Errors the module raises itself. -/
def isOwn : DataLoadError → Bool
  | noConsumersRequested | invalidInjectionColumn _ | missingConsumerColumns _
  | nonFinite _ _ _ => true
  | notConvertible _ | moreRowsThanColumns | moreColumnsThanRows => false

def message : DataLoadError → String
  | noConsumersRequested => "no consumer columns requested"
  | invalidInjectionColumn name => s!"Injection column {pyRepr name} not found in file"
  | missingConsumerColumns names => s!"file is missing consumer column(s): {reprList names}"
  | nonFinite column cells row =>
    s!"column {pyRepr column} has {cells} empty or non-numeric cell(s), the first in data row {row}"
  | notConvertible text => text
  | moreRowsThanColumns => "zip() argument 2 is longer than argument 1"
  | moreColumnsThanRows => "zip() argument 2 is shorter than argument 1"

end DataLoadError

/-! ## Conversion to numbers -/

section Conversion

variable {T : Nat}

/-- The first cell of a column that is not a number. -/
def cellError (column : Fin T → Except String F) : Option String :=
  (List.finRange T).findSome? fun t =>
    match column t with
    | .error text => some text
    | .ok _ => none

/-- The value of a cell (0 where there is none). -/
def cellValue (cell : Except String F) : F :=
  match cell with
  | .ok x => x
  | .error _ => 0

/-- `to_numpy(dtype=float64)`, by column. -/
def toNumpy (columns : List (Fin T → Except String F)) :
    Except DataLoadError (List (Fin T → F)) :=
  match columns.findSome? cellError with
  | some text => .error (.notConvertible text)
  | none => .ok (columns.map fun column t => cellValue (column t))

/-- Columns of numbers convert to themselves. -/
theorem toNumpy_of_values (columns : List (Fin T → F)) :
    toNumpy (columns.map fun column t => .ok (column t)) = .ok columns := by
  have hnone : (columns.map fun column (t : Fin T) => Except.ok (ε := String) (column t)).findSome?
      cellError = none := by
    simp [List.findSome?_eq_none_iff, cellError]
  rw [toNumpy, hnone]
  simp [Function.comp_def, cellValue]

end Conversion

/-! ## Finiteness -/

/-- The `zip(columns, invalid, strict=True)` loop of `_require_finite`. -/
def firstNonFinite : List String → List (List Bool) → Except DataLoadError Unit
  | [], [] => .ok ()
  | [], _ :: _ => .error .moreRowsThanColumns
  | _ :: _, [] => .error .moreColumnsThanRows
  | column :: columns, invalid :: rest =>
    if invalid.any id then
      .error (.nonFinite column (invalid.count true) (invalid.idxOf true + 1))
    else firstNonFinite columns rest

/-- `_require_finite`: one list of invalid-cell flags per column. -/
def requireFinite (columns : List String) (invalid : List (List Bool)) :
    Except DataLoadError Unit :=
  if invalid.any (·.any id) then firstNonFinite columns invalid else .ok ()

/-- With an invalid cell, the loop ends in an error. -/
theorem firstNonFinite_error (columns : List String) {invalid : List (List Bool)}
    (hany : invalid.any (·.any id)) : firstNonFinite columns invalid ≠ .ok () := by
  induction invalid generalizing columns with
  | nil => simp at hany
  | cons row rest ih =>
      cases columns with
      | nil => simp [firstNonFinite]
      | cons column columns =>
          rw [firstNonFinite]
          split_ifs with hrow
          · simp
          · rw [List.any_cons, Bool.or_eq_true] at hany
            exact ih columns (hany.resolve_left hrow)

theorem requireFinite_ok_iff {columns : List String} {invalid : List (List Bool)} :
    requireFinite columns invalid = .ok () ↔ ∀ row ∈ invalid, true ∉ row := by
  have hany : invalid.any (·.any id) = true ↔ ¬ ∀ row ∈ invalid, true ∉ row := by
    simp
  unfold requireFinite
  split_ifs with h
  · exact iff_of_false (firstNonFinite_error columns h) (hany.mp h)
  · exact iff_of_true rfl (not_not.mp fun hnot => h (hany.mpr hnot))

/-- The flags of a column. -/
def invalidCells {T : Nat} (column : Fin T → F) : List Bool :=
  List.ofFn fun t => !isFinite (column t)

/-- The flags of a production array, flattened row by row. -/
def invalidProduction {T : Nat} (production : List (Fin T → F)) : List Bool :=
  (List.finRange T).flatMap fun t => production.map fun column => !isFinite (column t)

theorem true_notMem_invalidCells {T : Nat} {column : Fin T → F} :
    true ∉ invalidCells column ↔ ∀ t, isFinite (column t) = true := by
  simp [invalidCells, List.mem_ofFn]

theorem true_notMem_invalidProduction {T : Nat} {production : List (Fin T → F)} :
    true ∉ invalidProduction production ↔
      ∀ column ∈ production, ∀ t, isFinite (column t) = true := by
  simp only [invalidProduction, List.mem_flatMap, List.mem_finRange, true_and, List.mem_map,
    Bool.not_eq_eq_eq_not, Bool.not_true, not_exists, not_and, Bool.not_eq_false]
  exact ⟨fun h column hcolumn t => h t column hcolumn, fun h t column hcolumn => h column hcolumn t⟩

/-! ## The loader -/

/-- The columns of a label, in table order. -/
def columnsNamed {T : Nat} (columns : List (String × (Fin T → Except String F))) (name : String) :
    List (Fin T → Except String F) :=
  (columns.filter fun column => column.1 = name).map Prod.snd

/-- `np.tile(production, (n, 1))`: `n` copies of a series as rows; of a
two-dimensional array, `n` copies one below the other. -/
def tile {T : Nat} (n : Nat) : List (Fin T → F) → Mat F
  | [series] => { rows := n, cols := T, get := fun _ t => series t }
  | production =>
    { rows := n * T
      cols := production.length
      get := fun i c => production.get c i.modNat }

/-- The matrices of converted columns. -/
def rawDataOf {T : Nat} (consumption production : List (Fin T → F)) (consumerNames : List String) :
    SimulationRawData F :=
  { C :=
      { rows := consumption.length
        cols := T
        get := fun i t => consumption.get i t }
    VA := tile consumerNames.length production
    consumerNames := consumerNames }

/-- `rename(columns=str)`; `str` is the text of a label. -/
def renamed (str : L → String) (dataframe : DataFrame L F) :
    List (String × (Fin dataframe.timesteps → Except String F)) :=
  dataframe.columns.map fun column => (str column.1, column.2)

def toSimulationRawData (str : L → String) (dataframe : DataFrame L F) (injectionName : String)
    (consumerNames : List String) : Except DataLoadError (SimulationRawData F) :=
  if consumerNames.isEmpty then .error .noConsumersRequested
  else
    let columns := renamed str dataframe
    let labels := columns.map Prod.fst
    if injectionName ∉ labels then .error (.invalidInjectionColumn injectionName)
    else
      let missing := consumerNames.filter (· ∉ labels)
      if missing ≠ [] then .error (.missingConsumerColumns missing)
      else do
        let consumption ← toNumpy (consumerNames.flatMap (columnsNamed columns))
        let production ← toNumpy (columnsNamed columns injectionName)
        requireFinite consumerNames (consumption.map invalidCells)
        requireFinite [injectionName] [invalidProduction production]
        return rawDataOf consumption production consumerNames

/-- What the loader checks of a table, with the columns it converts. -/
structure Loads (str : L → String) (dataframe : DataFrame L F) (injectionName : String)
    (consumerNames : List String)
    (consumption production : List (Fin dataframe.timesteps → F)) : Prop where
  requested : consumerNames ≠ []
  injection : injectionName ∈ (renamed str dataframe).map Prod.fst
  consumers : ∀ name ∈ consumerNames, name ∈ (renamed str dataframe).map Prod.fst
  convertedConsumption :
    toNumpy (consumerNames.flatMap (columnsNamed (renamed str dataframe))) = .ok consumption
  convertedProduction :
    toNumpy (columnsNamed (renamed str dataframe) injectionName) = .ok production
  finiteConsumption : ∀ column ∈ consumption, ∀ t, isFinite (column t) = true
  finiteProduction : ∀ column ∈ production, ∀ t, isFinite (column t) = true

theorem toSimulationRawData_ok_iff {str : L → String} {dataframe : DataFrame L F}
    {injectionName : String} {consumerNames : List String} {raw : SimulationRawData F} :
    toSimulationRawData str dataframe injectionName consumerNames = .ok raw ↔
      ∃ consumption production,
        Loads str dataframe injectionName consumerNames consumption production ∧
          raw = rawDataOf consumption production consumerNames := by
  have hrequire : ∀ (columns : List String) (invalid : List (List Bool))
      (next : Except DataLoadError (SimulationRawData F)),
      (requireFinite columns invalid >>= fun _ => next) = .ok raw ↔
        requireFinite columns invalid = .ok () ∧ next = .ok raw := by
    intro columns invalid next
    cases requireFinite columns invalid with
    | error e => simp [Bind.bind, Except.bind]
    | ok u => simp [Bind.bind, Except.bind]
  unfold toSimulationRawData
  simp only [List.isEmpty_iff, ne_eq, List.filter_eq_nil_iff, decide_eq_true_eq, not_not]
  split_ifs with hrequested hinjection hconsumers
  · exact iff_of_false (by simp) fun ⟨_, _, h, _⟩ => h.requested hrequested
  · cases hconsumption : toNumpy (consumerNames.flatMap
        (columnsNamed (renamed str dataframe))) with
    | error e =>
        refine iff_of_false (by simp [Bind.bind, Except.bind]) fun ⟨_, _, h, _⟩ => ?_
        rw [h.convertedConsumption] at hconsumption
        cases hconsumption
    | ok consumption =>
        cases hproduction : toNumpy (columnsNamed (renamed str dataframe) injectionName) with
        | error e =>
            refine iff_of_false (by simp [Bind.bind, Except.bind]) fun ⟨_, _, h, _⟩ => ?_
            rw [h.convertedProduction] at hproduction
            cases hproduction
        | ok production =>
            have hfinite : requireFinite consumerNames (consumption.map invalidCells) = .ok () ↔
                ∀ column ∈ consumption, ∀ t, isFinite (column t) = true := by
              rw [requireFinite_ok_iff, List.forall_mem_map]
              exact forall₂_congr fun column _ => true_notMem_invalidCells
            have hfinite' : requireFinite [injectionName] [invalidProduction production] = .ok () ↔
                ∀ column ∈ production, ∀ t, isFinite (column t) = true := by
              rw [requireFinite_ok_iff, List.forall_mem_singleton]
              exact true_notMem_invalidProduction
            show (requireFinite consumerNames (consumption.map invalidCells) >>= fun _ =>
                requireFinite [injectionName] [invalidProduction production] >>= fun _ =>
                  Except.ok (rawDataOf consumption production consumerNames)) = .ok raw ↔ _
            rw [hrequire, hrequire, hfinite, hfinite', Except.ok.injEq]
            constructor
            · rintro ⟨hfc, hfp, rfl⟩
              exact ⟨consumption, production, ⟨hrequested, hinjection, hconsumers, hconsumption,
                hproduction, hfc, hfp⟩, rfl⟩
            · rintro ⟨consumption', production', h, rfl⟩
              obtain rfl := Except.ok.inj (hconsumption.symm.trans h.convertedConsumption)
              obtain rfl := Except.ok.inj (hproduction.symm.trans h.convertedProduction)
              exact ⟨h.finiteConsumption, h.finiteProduction, rfl⟩
  · exact iff_of_false (by simp) fun ⟨_, _, h, _⟩ => hconsumers h.consumers
  · exact iff_of_false (by simp) fun ⟨_, _, h, _⟩ => hinjection h.injection

end SimulationKey
