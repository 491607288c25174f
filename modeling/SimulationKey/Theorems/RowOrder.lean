import SimulationKey.Shared.Columns
import SimulationKey.Simulation.Reindexing
import SimulationKey.Worker.Pipeline

/-!
# Results do not depend on row order

The database returns a key's rows, and a file its columns, in any order. The
sort by number, the first iteration's order of names, the look-ups by name and
the alignment of the matrix's rows cancel out: a run over reordered rows fails
or gives the same result. The exception is a table whose injection label is on
as many columns as it has rows: the array of their cells passes for the
production, and its first row follows the order of the columns
(`row_order_iff`).
-/

namespace SimulationKey.Theorems.RowOrder

open Kit PyFloat

variable {L : Type}

/-- The mapping, the names, the conversion and the solve. -/
def runTable (str : L → String) (key : AllocationKeyModel ℚ) (dataframe : DataFrame L ℚ)
    (injectionName : String) : Except Failure (KeySimResult ℚ) :=
  let keyInput := fromCrmAllocationKey key
  match toSimulationRawData str dataframe injectionName (consumerNamesOf keyInput) with
  | .error e => .error (.load e)
  | .ok raw =>
    match runSimulation keyInput raw.C raw.VA raw.consumerNames with
    | .error e => .error (.input e)
    | .ok res => .ok res

/-- Both runs fail, or both give the same result. -/
inductive Agree : Except Failure (KeySimResult ℚ) → Except Failure (KeySimResult ℚ) → Prop where
  | failed (e e' : Failure) : Agree (.error e) (.error e')
  | same {res res' : KeySimResult ℚ} (h : SameResult res res') : Agree (.ok res) (.ok res')

/-- The table with its columns in another order. -/
def withColumns (dataframe : DataFrame L ℚ)
    (columns : List (L × (Fin dataframe.timesteps → Except String ℚ))) : DataFrame L ℚ :=
  { timesteps := dataframe.timesteps
    columns := columns }

/-! ## Which runs succeed, and with what -/

section Run

variable {T : Nat} (columns : List (String × (Fin T → Except String ℚ))) (injectionName : String)
  (consumerNames : List String)

/-- What the loader and the solve check of a table and a key. -/
structure Runnable (its : List (SimulationIterationInput ℚ)) : Prop where
  iterations : its ≠ []
  requested : consumerNames ≠ []
  consumers : ∀ name ∈ consumerNames, Sole columns name
  numeric : ∀ name ∈ consumerNames ++ [injectionName],
    ∀ column ∈ columnsNamed columns name, Numeric column
  injection : columnsNamed columns injectionName ≠ []
  shape : (columnsNamed columns injectionName).length = 1 ∨
    (columnsNamed columns injectionName).length = T
  listed : ∀ it ∈ its, missingConsumer it consumerNames = none

/-- The production: the first row of the tiled injection. -/
def supplyOf (t : Fin T) : ℚ :=
  (tile consumerNames.length
    ((columnsNamed columns injectionName).map fun column t => cellValue (column t))).at 0 t

def demandOf (j : Fin consumerNames.length) (t : Fin T) : ℚ :=
  valuesOf columns (consumerNames.get j) t

/-- The iteration results of a run. -/
def resultsOf (its : List (SimulationIterationInput ℚ)) : List (IterationSimResult ℚ) :=
  (passes (supplyOf columns injectionName consumerNames) (demandOf columns consumerNames)
    (prorataWeights (demandOf columns consumerNames)) its none).map
      fun x => iterationResult consumerNames x.1 x.2

end Run

theorem tile_shape_iff {n T : Nat} (hn : 0 < n) {production : List (Fin T → ℚ)}
    (hne : production ≠ []) :
    (1 ≤ (tile n production).rows ∧ (tile n production).cols = T) ↔
      production.length = 1 ∨ production.length = T := by
  cases production with
  | nil => exact absurd rfl hne
  | cons first production =>
      cases production with
      | nil => exact iff_of_true ⟨hn, rfl⟩ (.inl rfl)
      | cons second production =>
          show (1 ≤ n * T ∧ production.length + 2 = T) ↔
            production.length + 2 = 1 ∨ production.length + 2 = T
          constructor
          · rintro ⟨-, hcols⟩
            exact .inr hcols
          · rintro (hone | hcols)
            · omega
            · exact ⟨Nat.mul_pos hn (by omega), hcols⟩

section Run

variable {str : L → String} {key : AllocationKeyModel ℚ} {dataframe : DataFrame L ℚ}
  {injectionName : String} {res : KeySimResult ℚ}

theorem runTable_eq_ok_iff :
    runTable str key dataframe injectionName = .ok res ↔
      ∃ raw, toSimulationRawData str dataframe injectionName
          (consumerNamesOf (fromCrmAllocationKey key)) = .ok raw ∧
        runSimulation (fromCrmAllocationKey key) raw.C raw.VA raw.consumerNames = .ok res := by
  unfold runTable
  cases hload : toSimulationRawData str dataframe injectionName
      (consumerNamesOf (fromCrmAllocationKey key)) with
  | error e => simp [hload]
  | ok raw =>
      cases hrun : runSimulation (fromCrmAllocationKey key) raw.C raw.VA raw.consumerNames with
      | error e => simp [hload, hrun]
      | ok res' => simp [hload, hrun]

/-- The columns a runnable table and key are loaded with. -/
theorem Runnable.loads {names : List String} {its : List (SimulationIterationInput ℚ)}
    (h : Runnable (renamed str dataframe) injectionName names its) :
    Loads str dataframe injectionName names (names.map (valuesOf (renamed str dataframe)))
      ((columnsNamed (renamed str dataframe) injectionName).map
        fun column t => cellValue (column t)) := by
  have hsingle : ∀ name ∈ names, columnsNamed (renamed str dataframe) name ≠ [] := by
    intro name hname hnil
    have hone : (columnsNamed (renamed str dataframe) name).length = 1 := h.consumers name hname
    rw [hnil] at hone
    cases hone
  refine
    { requested := h.requested
      injection := not_not.mp (columnsNamed_eq_nil_iff.not.mp h.injection)
      consumers := fun name hname => not_not.mp (columnsNamed_eq_nil_iff.not.mp (hsingle name hname))
      convertedConsumption := toNumpy_ok_iff.mpr ⟨fun column hcolumn => ?_, ?_⟩
      convertedProduction := toNumpy_ok_iff.mpr ⟨fun column hcolumn => ?_, rfl⟩
      finiteConsumption := fun _ _ _ => rfl
      finiteProduction := fun _ _ _ => rfl }
  · obtain ⟨name, hname, hcolumn⟩ := List.mem_flatMap.mp hcolumn
    exact h.numeric name (List.mem_append_left _ hname) column hcolumn
  · exact (flatMap_valuesOf h.consumers).symm
  · exact h.numeric injectionName (List.mem_append_right _ (List.mem_singleton.mpr rfl)) column
      hcolumn

/-- The matrices a runnable table loads are accepted. -/
theorem Runnable.accepted
    (h : Runnable (renamed str dataframe) injectionName
      (consumerNamesOf (fromCrmAllocationKey key)) (fromCrmAllocationKey key).iterations) :
    Accepted (fromCrmAllocationKey key)
      (rawDataOf ((consumerNamesOf (fromCrmAllocationKey key)).map
        (valuesOf (renamed str dataframe)))
        ((columnsNamed (renamed str dataframe) injectionName).map
          fun column t => cellValue (column t)) (consumerNamesOf (fromCrmAllocationKey key))).C
      (rawDataOf ((consumerNamesOf (fromCrmAllocationKey key)).map
        (valuesOf (renamed str dataframe)))
        ((columnsNamed (renamed str dataframe) injectionName).map
          fun column t => cellValue (column t)) (consumerNamesOf (fromCrmAllocationKey key))).VA
      (consumerNamesOf (fromCrmAllocationKey key)) :=
  { iterations := h.iterations
    consumers := h.requested
    rows := List.length_map _
    production := (tile_shape_iff (List.length_pos_iff.mpr h.requested) (by
      rw [ne_eq, List.map_eq_nil_iff]; exact h.injection)).mpr (by
        rw [List.length_map]; exact h.shape)
    listed := h.listed }

/-- The results the accepted run gives. -/
theorem Runnable.results_eq
    (h : Runnable (renamed str dataframe) injectionName
      (consumerNamesOf (fromCrmAllocationKey key)) (fromCrmAllocationKey key).iterations) :
    h.accepted.results = resultsOf (renamed str dataframe) injectionName
      (consumerNamesOf (fromCrmAllocationKey key)) (fromCrmAllocationKey key).iterations := by
  have hdemand : h.accepted.demand =
      demandOf (renamed str dataframe) (consumerNamesOf (fromCrmAllocationKey key)) := by
    funext j t
    show ((consumerNamesOf (fromCrmAllocationKey key)).map
      (valuesOf (renamed str dataframe))).get (j.cast (List.length_map _).symm) t = _
    rw [List.get_eq_getElem, List.getElem_map]
    rfl
  have hsupply : h.accepted.supply = supplyOf (renamed str dataframe) injectionName
      (consumerNamesOf (fromCrmAllocationKey key)) := by
    funext t
    exact (h.accepted.supply_eq t.isLt).symm
  rw [Accepted.results, Accepted.runPasses, hdemand, hsupply]
  rfl

/-- A run succeeds exactly on runnable tables and keys, with the roll-up of the
results of its passes. -/
theorem runTable_ok_iff :
    runTable str key dataframe injectionName = .ok res ↔
      Runnable (renamed str dataframe) injectionName
          (consumerNamesOf (fromCrmAllocationKey key)) (fromCrmAllocationKey key).iterations ∧
        ∃ first rest, resultsOf (renamed str dataframe) injectionName
            (consumerNamesOf (fromCrmAllocationKey key)) (fromCrmAllocationKey key).iterations =
              first :: rest ∧
          res = keyResult (fromCrmAllocationKey key) first rest := by
  rw [runTable_eq_ok_iff]
  constructor
  · rintro ⟨raw, hload, hrun⟩
    obtain ⟨consumption, production, hloads, rfl⟩ := toSimulationRawData_ok_iff.mp hload
    obtain ⟨h, first, rest, hres, rfl⟩ := runSimulation_ok_iff.mp hrun
    obtain ⟨hnumeric, hconsumption⟩ := toNumpy_ok_iff.mp hloads.convertedConsumption
    obtain ⟨hnumeric', hproduction⟩ := toNumpy_ok_iff.mp hloads.convertedProduction
    have hrows : consumption.length = (consumerNamesOf (fromCrmAllocationKey key)).length :=
      h.rows
    have hsole : ∀ name ∈ consumerNamesOf (fromCrmAllocationKey key),
        Sole (renamed str dataframe) name := by
      rw [hconsumption, List.length_map] at hrows
      exact (length_flatMap_eq_iff hloads.consumers).mp hrows
    have hinjection : columnsNamed (renamed str dataframe) injectionName ≠ [] :=
      columnsNamed_eq_nil_iff.not.mpr (not_not.mpr hloads.injection)
    rw [flatMap_valuesOf hsole] at hconsumption
    subst hconsumption hproduction
    have hrunnable : Runnable (renamed str dataframe) injectionName
        (consumerNamesOf (fromCrmAllocationKey key)) (fromCrmAllocationKey key).iterations :=
      { iterations := h.iterations
        requested := h.consumers
        consumers := hsole
        numeric := fun name hname column hcolumn => by
          rcases List.mem_append.mp hname with hname | hname
          · exact hnumeric column (List.mem_flatMap.mpr ⟨name, hname, hcolumn⟩)
          · rw [List.mem_singleton.mp hname] at hcolumn
            exact hnumeric' column hcolumn
        injection := hinjection
        shape := by
          have hshape := (tile_shape_iff (List.length_pos_iff.mpr h.consumers) (by
            rw [ne_eq, List.map_eq_nil_iff]; exact hinjection)).mp h.production
          rwa [List.length_map] at hshape
        listed := h.listed }
    exact ⟨hrunnable, first, rest, hrunnable.results_eq.symm.trans hres, rfl⟩
  · rintro ⟨h, first, rest, hres, rfl⟩
    exact ⟨_, toSimulationRawData_ok_iff.mpr ⟨_, _, h.loads, rfl⟩,
      runSimulation_ok_iff.mpr ⟨h.accepted, first, rest, h.results_eq.trans hres, rfl⟩⟩

theorem Runnable.runs
    (h : Runnable (renamed str dataframe) injectionName
      (consumerNamesOf (fromCrmAllocationKey key)) (fromCrmAllocationKey key).iterations) :
    ∃ res, runTable str key dataframe injectionName = .ok res := by
  cases hres : resultsOf (renamed str dataframe) injectionName
      (consumerNamesOf (fromCrmAllocationKey key)) (fromCrmAllocationKey key).iterations with
  | nil =>
      rw [← h.results_eq] at hres
      exact absurd (List.map_eq_nil_iff.mp hres) h.accepted.runPasses_ne_nil
  | cons first rest => exact ⟨_, runTable_ok_iff.mpr ⟨h, first, rest, hres, rfl⟩⟩

end Run

/-! ## The production a table gives -/

section Supply

variable {T : Nat} {columns columns' : List (String × (Fin T → Except String ℚ))}
  {injectionName : String} {consumerNames : List String}

/-- Of a block of columns, the first row is used. -/
theorem tile_at {n : Nat} (hn : 0 < n) {production : List (Fin T → ℚ)}
    (htwo : 2 ≤ production.length) (hT : 0 < T) {t : Nat} (ht : t < production.length) :
    (tile n production).at 0 t = production[t] ⟨0, hT⟩ := by
  cases production with
  | nil => simp at htwo
  | cons first production =>
      cases production with
      | nil => simp at htwo
      | cons second production =>
          have hrow : 0 < n * T := Nat.mul_pos hn hT
          rw [Mat.at, dif_pos ⟨hrow, ht⟩]
          show (first :: second :: production).get ⟨t, ht⟩ (Fin.modNat (⟨0, hrow⟩ : Fin (n * T))) = _
          rw [List.get_eq_getElem]
          congr 1

theorem supplyOf_of_sole (hnames : consumerNames ≠ []) (hsole : Sole columns injectionName)
    (t : Fin T) : supplyOf columns injectionName consumerNames t = valuesOf columns injectionName t := by
  rw [supplyOf, map_cellValue_of_sole hsole, Mat.at,
    dif_pos ⟨List.length_pos_iff.mpr hnames, t.isLt⟩]
  rfl

/-- A shared injection label gives the first cells of its columns, in order. -/
theorem supplyOf_of_shared (hnames : consumerNames ≠ [])
    (htwo : 2 ≤ (columnsNamed columns injectionName).length) (hT : 0 < T) {t : Fin T}
    {column : Fin T → Except String ℚ}
    (hcolumn : (columnsNamed columns injectionName)[(t : Nat)]? = some column) :
    supplyOf columns injectionName consumerNames t = cellValue (column ⟨0, hT⟩) := by
  obtain ⟨ht, rfl⟩ := List.getElem?_eq_some_iff.mp hcolumn
  rw [supplyOf, tile_at (List.length_pos_iff.mpr hnames) (by rwa [List.length_map]) hT
    (by rwa [List.length_map]), List.getElem_map]

end Supply

/-! ## Reordered runs -/

section Reordered

variable {T : Nat} {columns columns' : List (String × (Fin T → Except String ℚ))}
  {injectionName : String} {names names' : List String} {its its' : List (IterationModel ℚ)}

theorem Runnable.reordered (h : Runnable columns injectionName names (its.map fromCrmIteration))
    (hcolumns : columns.Perm columns') (hnames : names.Perm names')
    (hrows : List.Forall₂ SameRows its its') :
    Runnable columns' injectionName names' (its'.map fromCrmIteration) :=
  { iterations := fun hnil => by
      refine h.iterations ?_
      rw [List.map_eq_nil_iff] at hnil ⊢
      rw [hnil] at hrows
      cases hrows
      rfl
    requested := fun hnil => h.requested (by rwa [hnil, List.perm_nil] at hnames)
    consumers := fun name hname =>
      (sole_perm hcolumns).mp (h.consumers name (hnames.mem_iff.mpr hname))
    numeric := fun name hname column hcolumn =>
      h.numeric name ((hnames.append_right _).mem_iff.mpr hname) column
        ((columnsNamed_perm hcolumns name).mem_iff.mpr hcolumn)
    injection := fun hnil => by
      have hperm := columnsNamed_perm hcolumns injectionName
      rw [hnil, List.perm_nil] at hperm
      exact h.injection hperm
    shape := by
      rw [← (columnsNamed_perm hcolumns injectionName).length_eq]
      exact h.shape
    listed := by
      rw [List.forall_mem_map]
      refine forall_of_forall₂ hrows fun it hit it' hrow => ?_
      have hlisted := missingConsumer_eq_none_iff.mp (h.listed _ (List.mem_map_of_mem hit))
      have hperm : (fromCrmIteration it).consumers.Perm (fromCrmIteration it').consumers :=
        hrow.consumers.map _
      refine missingConsumer_eq_none_iff.mpr fun name hname => ?_
      exact (hperm.map _).mem_iff.mp (hlisted name (hnames.mem_iff.mpr hname)) }

/-- Lists of the same distinct names number each other's. -/
theorem exists_reindexing (hnodup : names.Nodup) (hnames : names.Perm names') :
    ∃ e : Fin names.length ≃ Fin names'.length, ∀ j, names'.get (e j) = names.get j := by
  have hnodup' := hnames.nodup_iff.mp hnodup
  refine ⟨(hnodup.getEquiv names).trans ((Equiv.subtypeEquivRight fun _ => hnames.mem_iff).trans
    (hnodup'.getEquiv names').symm), fun j => ?_⟩
  have hget := (hnodup'.getEquiv names').apply_symm_apply
    (Equiv.subtypeEquivRight (fun _ => hnames.mem_iff) (hnodup.getEquiv names j))
  exact congrArg Subtype.val hget

/-- Reordered runs that inject the same energy have the same results. -/
theorem resultsOf_same (h : Runnable columns injectionName names (its.map fromCrmIteration))
    (hcolumns : columns.Perm columns') (hnodup : names.Nodup) (hnames : names.Perm names')
    (hrows : List.Forall₂ SameRows its its')
    (hdistinct : ∀ it ∈ its, (it.consumers.map (·.name)).Nodup)
    (hinjected : ∀ it ∈ its, ∀ t, supplyOf columns' injectionName names' t *
      it.energyAllocatedPercentage =
        supplyOf columns injectionName names t * it.energyAllocatedPercentage) :
    List.Forall₂ SameIteration (resultsOf columns injectionName names (its.map fromCrmIteration))
      (resultsOf columns' injectionName names' (its'.map fromCrmIteration)) := by
  obtain ⟨e, he⟩ := exists_reindexing hnodup hnames
  refine results_same hnodup he (fun j t => ?_) hrows hdistinct hinjected trivial
  rw [demandOf, demandOf, he, valuesOf_perm hcolumns (h.consumers _ (List.get_mem names j))]

end Reordered

/-! ## The exact condition -/

section Condition

variable (str : L → String) (key : AllocationKeyModel ℚ) (dataframe : DataFrame L ℚ)
  (injectionName : String)

/-- An accepted table whose injection label is on several columns, as many as it
has rows, with different first cells, and a key that uses the production. -/
structure Scrambled : Prop where
  runnable : Runnable (renamed str dataframe) injectionName
    (consumerNamesOf (fromCrmAllocationKey key)) (fromCrmAllocationKey key).iterations
  shared : ¬ Sole (renamed str dataframe) injectionName
  uneven : ∃ h : 0 < dataframe.timesteps,
    ∃ column ∈ columnsNamed (renamed str dataframe) injectionName,
      ∃ column' ∈ columnsNamed (renamed str dataframe) injectionName,
        cellValue (column ⟨0, h⟩) ≠ cellValue (column' ⟨0, h⟩)
  used : ∃ it ∈ key.iterations, it.energyAllocatedPercentage ≠ 0

variable {str key dataframe injectionName}

theorem renamed_perm {columns : List (L × (Fin dataframe.timesteps → Except String ℚ))}
    (hcolumns : dataframe.columns.Perm columns) :
    (renamed str dataframe).Perm (renamed str (withColumns dataframe columns)) :=
  hcolumns.map _

/-- Unless the table is scrambled, reordering keeps what every iteration injects. -/
theorem injected_of_not_scrambled (hnot : ¬ Scrambled str key dataframe injectionName)
    (h : Runnable (renamed str dataframe) injectionName
      (consumerNamesOf (fromCrmAllocationKey key)) (fromCrmAllocationKey key).iterations)
    {columns' : List (String × (Fin dataframe.timesteps → Except String ℚ))}
    (hcolumns : (renamed str dataframe).Perm columns') {names' : List String}
    (hnames : (consumerNamesOf (fromCrmAllocationKey key)).Perm names') :
    ∀ it ∈ sortedIterations key, ∀ t, supplyOf columns' injectionName names' t *
      it.energyAllocatedPercentage = supplyOf (renamed str dataframe) injectionName
        (consumerNamesOf (fromCrmAllocationKey key)) t * it.energyAllocatedPercentage := by
  intro it hit t
  by_cases hzero : it.energyAllocatedPercentage = 0
  · rw [hzero, mul_zero, mul_zero]
  have hnames' : names' ≠ [] := fun hnil => h.requested (by rwa [hnil, List.perm_nil] at hnames)
  have hperm := columnsNamed_perm hcolumns injectionName
  refine congrArg (· * it.energyAllocatedPercentage) ?_
  by_cases hsole : Sole (renamed str dataframe) injectionName
  · rw [supplyOf_of_sole hnames' ((sole_perm hcolumns).mp hsole),
      supplyOf_of_sole h.requested hsole, valuesOf_perm hcolumns hsole]
  · -- a shared label: all its columns start with one value
    have hT : 0 < dataframe.timesteps := Fin.pos t
    have hshape := h.shape.resolve_left hsole
    have htwo : 2 ≤ (columnsNamed (renamed str dataframe) injectionName).length := by
      have hpos := List.length_pos_iff.mpr h.injection
      have hone : (columnsNamed (renamed str dataframe) injectionName).length ≠ 1 := hsole
      omega
    have heven : ∀ column ∈ columnsNamed (renamed str dataframe) injectionName,
        ∀ column' ∈ columnsNamed (renamed str dataframe) injectionName,
          cellValue (column ⟨0, hT⟩) = cellValue (column' ⟨0, hT⟩) := by
      intro column hcolumn column' hcolumn'
      by_contra hne
      exact hnot ⟨h, hsole, ⟨hT, column, hcolumn, column', hcolumn', hne⟩, it,
        (sortedIterations_perm key).mem_iff.mp hit, hzero⟩
    have hlength := hperm.length_eq
    have hget : (t : Nat) < (columnsNamed (renamed str dataframe) injectionName).length := by omega
    have hget' : (t : Nat) < (columnsNamed columns' injectionName).length := by omega
    rw [supplyOf_of_shared hnames' (by omega) hT (List.getElem?_eq_getElem hget'),
      supplyOf_of_shared h.requested htwo hT (List.getElem?_eq_getElem hget)]
    exact heven _ (hperm.mem_iff.mpr (List.getElem_mem _)) _ (List.getElem_mem _)

/-- Reordered runs agree when they inject the same energy. -/
theorem agree_of_injected {key' : AllocationKeyModel ℚ} (hdistinct : DistinctRows key)
    (htree : SameTree key key')
    {columns : List (L × (Fin dataframe.timesteps → Except String ℚ))}
    (hcolumns : dataframe.columns.Perm columns)
    (hinjected : Runnable (renamed str dataframe) injectionName
        (consumerNamesOf (fromCrmAllocationKey key)) (fromCrmAllocationKey key).iterations →
      ∀ it ∈ sortedIterations key, ∀ t,
        supplyOf (renamed str (withColumns dataframe columns)) injectionName
            (consumerNamesOf (fromCrmAllocationKey key')) t * it.energyAllocatedPercentage =
          supplyOf (renamed str dataframe) injectionName
            (consumerNamesOf (fromCrmAllocationKey key)) t * it.energyAllocatedPercentage) :
    Agree (runTable str key dataframe injectionName)
      (runTable str key' (withColumns dataframe columns) injectionName) := by
  have hperm : (renamed str dataframe).Perm (renamed str (withColumns dataframe columns)) :=
    renamed_perm hcolumns
  have hnames := consumerNamesOf_perm htree hdistinct
  have hrows := sortedIterations_sameRows htree hdistinct
  cases hrun' : runTable str key' (withColumns dataframe columns) injectionName with
  | error e' =>
      cases hrun : runTable str key dataframe injectionName with
      | error e => exact .failed e e'
      | ok res =>
          obtain ⟨h, -⟩ := runTable_ok_iff.mp hrun
          have h' : Runnable (renamed str (withColumns dataframe columns)) injectionName
              (consumerNamesOf (fromCrmAllocationKey key'))
              (fromCrmAllocationKey key').iterations := h.reordered hperm hnames hrows
          obtain ⟨res', hres'⟩ := h'.runs
          rw [hrun'] at hres'
          cases hres'
  | ok res' =>
      obtain ⟨h', first', rest', hres', rfl⟩ := runTable_ok_iff.mp hrun'
      -- back along the reordering: the original run succeeds too
      have h := h'.reordered hperm.symm hnames.symm
        (sortedIterations_sameRows htree.symm (htree.distinctRows hdistinct))
      obtain ⟨res, hrun⟩ := Runnable.runs h
      obtain ⟨-, first, rest, hres, rfl⟩ := runTable_ok_iff.mp hrun
      rw [hrun]
      have hsame := resultsOf_same h hperm (consumerNamesOf_nodup hdistinct) hnames hrows
        (fun it hit => hdistinct.names it ((sortedIterations_perm key).mem_iff.mp hit))
        (hinjected h)
      refine .same (keyResult_same htree.name htree.description ?_)
      rw [← hres, ← hres']
      exact hsame

theorem columnsNamed_renamed (columns : List (L × (Fin dataframe.timesteps → Except String ℚ)))
    (name : String) :
    columnsNamed (renamed str (withColumns dataframe columns)) name =
      (columns.filter fun column => str column.1 = name).map Prod.snd := by
  simp [columnsNamed, renamed, withColumns, List.filter_map, Function.comp_def]

/-- Columns of a label that start differently can be reordered so that another
one comes first. -/
theorem exists_swap (hT : 0 < dataframe.timesteps)
    (huneven : ∃ column ∈ columnsNamed (renamed str dataframe) injectionName,
      ∃ column' ∈ columnsNamed (renamed str dataframe) injectionName,
        cellValue (column ⟨0, hT⟩) ≠ cellValue (column' ⟨0, hT⟩)) :
    ∃ columns, dataframe.columns.Perm columns ∧
      ∃ first rest first' rest', columnsNamed (renamed str dataframe) injectionName = first :: rest ∧
        columnsNamed (renamed str (withColumns dataframe columns)) injectionName =
          first' :: rest' ∧
        cellValue (first' ⟨0, hT⟩) ≠ cellValue (first ⟨0, hT⟩) := by
  set labelled := dataframe.columns.filter fun column => str column.1 = injectionName with hlabelled
  have hnamed : columnsNamed (renamed str dataframe) injectionName = labelled.map Prod.snd := by
    rw [hlabelled]
    exact columnsNamed_renamed dataframe.columns injectionName
  rw [hnamed] at huneven
  obtain ⟨_, hcolumn, _, hcolumn', hne⟩ := huneven
  obtain ⟨c, hc, rfl⟩ := List.mem_map.mp hcolumn
  obtain ⟨c', hc', rfl⟩ := List.mem_map.mp hcolumn'
  obtain ⟨x, rest, hsplit⟩ := List.exists_cons_of_ne_nil (List.ne_nil_of_mem hc)
  -- one of the two does not start like the first column
  obtain ⟨y, hy, hyx⟩ : ∃ y ∈ labelled, cellValue (y.2 ⟨0, hT⟩) ≠ cellValue (x.2 ⟨0, hT⟩) := by
    by_cases h : cellValue (c.2 ⟨0, hT⟩) = cellValue (x.2 ⟨0, hT⟩)
    · exact ⟨c', hc', fun h' => hne (h.trans h'.symm)⟩
    · exact ⟨c, hc, h⟩
  have hrest : y ∈ rest := by
    rw [hsplit] at hy
    refine (List.mem_cons.mp hy).resolve_left fun hxy => hyx ?_
    rw [hxy]
  obtain ⟨a, b, rfl⟩ := List.append_of_mem hrest
  have hswap : labelled.Perm (y :: x :: (a ++ b)) := by
    rw [hsplit]
    exact (List.perm_middle.cons x).trans (List.Perm.swap y x (a ++ b))
  have hall : ∀ column ∈ y :: x :: (a ++ b), str column.1 = injectionName := by
    intro column hcolumn
    have hmem := hswap.mem_iff.mpr hcolumn
    rw [hlabelled, List.mem_filter] at hmem
    simpa using hmem.2
  have hfilter : (y :: x :: (a ++ b) ++
      dataframe.columns.filter fun column => !(str column.1 = injectionName)).filter
        (fun column => str column.1 = injectionName) = y :: x :: (a ++ b) := by
    have hself : (y :: x :: (a ++ b)).filter (fun column => str column.1 = injectionName) =
        y :: x :: (a ++ b) :=
      List.filter_eq_self.mpr fun column hcolumn => decide_eq_true (hall column hcolumn)
    have hnone : (dataframe.columns.filter fun column => !(str column.1 = injectionName)).filter
        (fun column => str column.1 = injectionName) = [] := by
      rw [List.filter_filter, List.filter_eq_nil_iff]
      simp
    rw [List.filter_append, hself, hnone, List.append_nil]
  refine ⟨y :: x :: (a ++ b) ++
      dataframe.columns.filter (fun column => !(str column.1 = injectionName)), ?_, x.2,
    (a ++ y :: b).map Prod.snd, y.2, (x :: (a ++ b)).map Prod.snd, ?_, ?_, hyx⟩
  · exact (List.filter_append_perm _ _).symm.trans (hswap.append_right _)
  · rw [hnamed, hsplit, List.map_cons]
  · rw [columnsNamed_renamed, hfilter]
    rfl

/-- A scrambled table has an order of its columns with another result. -/
theorem disagree_of_scrambled (h : Scrambled str key dataframe injectionName) :
    ∃ columns, dataframe.columns.Perm columns ∧
      ¬ Agree (runTable str key dataframe injectionName)
        (runTable str key (withColumns dataframe columns) injectionName) := by
  obtain ⟨hT, huneven⟩ := h.uneven
  obtain ⟨columns, hcolumns, first, rest, first', rest', hnamed, hnamed', hne⟩ :=
    exists_swap hT huneven
  refine ⟨columns, hcolumns, fun hagree => ?_⟩
  have hperm : (renamed str dataframe).Perm (renamed str (withColumns dataframe columns)) :=
    renamed_perm hcolumns
  obtain ⟨res, hrun⟩ := h.runnable.runs
  rw [hrun] at hagree
  cases hrun' : runTable str key (withColumns dataframe columns) injectionName with
  | error e => rw [hrun'] at hagree; cases hagree
  | ok res' =>
      rw [hrun'] at hagree
      cases hagree with
      | same hsame =>
          obtain ⟨-, r, rs, hres, rfl⟩ := runTable_ok_iff.mp hrun
          obtain ⟨h', r', rs', hres', rfl⟩ := runTable_ok_iff.mp hrun'
          have hdemand : demandOf (renamed str (withColumns dataframe columns))
              (consumerNamesOf (fromCrmAllocationKey key)) =
                demandOf (renamed str dataframe) (consumerNamesOf (fromCrmAllocationKey key)) := by
            funext j t
            exact congrFun (valuesOf_perm hperm (h.runnable.consumers _ (List.get_mem _ j))) t
          have hallocated : List.Forall₂ (fun r r' => r'.energyAllocated = r.energyAllocated)
              (r :: rs) (r' :: rs') := hsame.iterations.imp fun r r' hr => by
            have hva := congrArg IterationSimResult.energyAllocated hr.values
            exact hva
          rw [← hres, ← hres', resultsOf, resultsOf, hdemand] at hallocated
          obtain ⟨it, hit, hshare⟩ := h.used
          have hinjected := injected_of_same hallocated (fromCrmIteration it)
            (List.mem_map_of_mem ((sortedIterations_perm key).mem_iff.mpr hit)) ⟨0, hT⟩
          have hsupply := mul_right_cancel₀ hshare hinjected
          have hshape := h.runnable.shape.resolve_left h.shared
          have htwo : 2 ≤ (columnsNamed (renamed str dataframe) injectionName).length := by
            have hpos := List.length_pos_iff.mpr h.runnable.injection
            have hone : (columnsNamed (renamed str dataframe) injectionName).length ≠ 1 := h.shared
            omega
          have hlength := (columnsNamed_perm hperm injectionName).length_eq
          have hfirst : supplyOf (renamed str dataframe) injectionName
              (consumerNamesOf (fromCrmAllocationKey key)) ⟨0, hT⟩ = cellValue (first ⟨0, hT⟩) :=
            supplyOf_of_shared h.runnable.requested htwo hT (by rw [hnamed]; rfl)
          have hfirst' : supplyOf (renamed str (withColumns dataframe columns)) injectionName
              (consumerNamesOf (fromCrmAllocationKey key)) ⟨0, hT⟩ = cellValue (first' ⟨0, hT⟩) :=
            supplyOf_of_shared h.runnable.requested (by omega) hT
              (congrArg (fun selected => selected[0]?) hnamed')
          exact hne (hfirst'.symm.trans (hsupply.trans hfirst))

/-- Every reordering of a key with distinct rows and of a table's columns fails
with the original or gives the same result, unless the table is scrambled; then
one does not. -/
theorem row_order_iff (str : L → String) (key : AllocationKeyModel ℚ)
    (hdistinct : DistinctRows key) (dataframe : DataFrame L ℚ) (injectionName : String) :
    (∀ key' columns, SameTree key key' → dataframe.columns.Perm columns →
        Agree (runTable str key dataframe injectionName)
          (runTable str key' (withColumns dataframe columns) injectionName)) ↔
      ¬ Scrambled str key dataframe injectionName := by
  constructor
  · intro hagree hscrambled
    obtain ⟨columns, hcolumns, hnot⟩ := disagree_of_scrambled hscrambled
    exact hnot (hagree key columns (.refl key) hcolumns)
  · intro hnot key' columns htree hcolumns
    have hperm : (renamed str dataframe).Perm (renamed str (withColumns dataframe columns)) :=
      renamed_perm hcolumns
    exact agree_of_injected hdistinct htree hcolumns fun h =>
      injected_of_not_scrambled hnot h hperm (consumerNamesOf_perm htree hdistinct)

end Condition

/-! ## Two tables -/

theorem allocated_of_same {res res' : KeySimResult ℚ} (h : SameResult res res') :
    res'.iterations.map (·.energyAllocated) = res.iterations.map (·.energyAllocated) := by
  have hallocated : List.Forall₂ Eq (res.iterations.map (·.energyAllocated))
      (res'.iterations.map (·.energyAllocated)) := by
    rw [List.forall₂_map_left_iff, List.forall₂_map_right_iff]
    refine h.iterations.imp fun r r' hr => ?_
    have hva := congrArg IterationSimResult.energyAllocated hr.values
    exact hva.symm
  rw [List.forall₂_eq_eq_eq] at hallocated
  exact hallocated.symm

/-- Two iterations that list two consumers. -/
def twoByTwo : AllocationKeyModel ℚ :=
  { name := "k"
    description := "d"
    iterations :=
      [{ number := 1, energyAllocatedPercentage := 1 / 2, consumers := [⟨"A", 3 / 10⟩, ⟨"B", 1 / 5⟩] },
        { number := 2, energyAllocatedPercentage := 1 / 2, consumers := [⟨"A", -1⟩, ⟨"B", -1⟩] }] }

theorem twoByTwo_distinctRows : DistinctRows twoByTwo :=
  { numbers := by decide
    names := by decide }

/-- A table of two rows, from the cells of its columns. -/
def twoRows (columns : List (HeaderLabel × ℚ × ℚ)) : DataFrame HeaderLabel ℚ :=
  { timesteps := 2
    columns := columns.map fun c => (c.1, fun t => .ok (if t = 0 then c.2.1 else c.2.2)) }

/-- Two consumers' columns and the given columns of the injection. -/
def metered (injection : List (HeaderLabel × ℚ × ℚ)) : DataFrame HeaderLabel ℚ :=
  twoRows ((.text "A", 160, 80) :: (.text "B", 300, 0) :: injection)

/-- The same rows and columns, reversed. -/
theorem row_order_reversed :
    Agree (runTable HeaderLabel.str twoByTwo (metered [(.number 7, 1000, 0)]) "7")
      (runTable HeaderLabel.str
        { twoByTwo with
          iterations :=
            [{ number := 2, energyAllocatedPercentage := 1 / 2,
               consumers := [⟨"B", -1⟩, ⟨"A", -1⟩] },
              { number := 1, energyAllocatedPercentage := 1 / 2,
                consumers := [⟨"B", 1 / 5⟩, ⟨"A", 3 / 10⟩] }] }
        (twoRows [(.number 7, 1000, 0), (.text "B", 300, 0), (.text "A", 160, 80)]) "7") := by
  refine (row_order_iff HeaderLabel.str twoByTwo twoByTwo_distinctRows
    (metered [(.number 7, 1000, 0)]) "7").mpr ?_ _
      (twoRows [(.number 7, 1000, 0), (.text "B", 300, 0), (.text "A", 160, 80)]).columns ?_ ?_
  · exact fun h => h.shared (by unfold Sole; decide +kernel)
  · refine ⟨rfl, rfl, _, (List.Perm.swap _ _ _), ?_⟩
    exact .cons ⟨rfl, rfl, List.Perm.swap _ _ _⟩ (.cons ⟨rfl, rfl, List.Perm.swap _ _ _⟩ .nil)
  · exact ((List.Perm.swap _ _ _).trans ((List.Perm.swap _ _ _).cons _)).trans (List.Perm.swap _ _ _)

/-- Headers 7 and "7" over two rows: the order of the columns decides the
production. -/
theorem two_injections_disagree :
    DistinctRows twoByTwo ∧
      ∃ columns, (metered [(.number 7, 1000, 0), (.text "7", 500, 0)]).columns.Perm columns ∧
        ¬ Agree
          (runTable HeaderLabel.str twoByTwo
            (metered [(.number 7, 1000, 0), (.text "7", 500, 0)]) "7")
          (runTable HeaderLabel.str twoByTwo
            (withColumns (metered [(.number 7, 1000, 0), (.text "7", 500, 0)]) columns) "7") := by
  refine ⟨twoByTwo_distinctRows, (metered [(.text "7", 500, 0), (.number 7, 1000, 0)]).columns,
    ?_, ?_⟩
  · exact ((List.Perm.swap _ _ _).cons _).cons _
  · have hrun : (runTable HeaderLabel.str twoByTwo
        (metered [(.number 7, 1000, 0), (.text "7", 500, 0)]) "7").map
          (fun res => (res.iterations.map (·.energyAllocated)).head?) = .ok (some [500, 250]) := by
      decide +kernel
    have hrun' : (runTable HeaderLabel.str twoByTwo
        (metered [(.text "7", 500, 0), (.number 7, 1000, 0)]) "7").map
          (fun res => (res.iterations.map (·.energyAllocated)).head?) = .ok (some [250, 500]) := by
      decide +kernel
    obtain ⟨res, hres, hhead⟩ := result_of_map hrun
    obtain ⟨res', hres', hhead'⟩ := result_of_map hrun'
    intro hagree
    rw [hres] at hagree
    have hagree : Agree (.ok res) (.ok res') := hres' ▸ hagree
    cases hagree with
    | same hsame =>
        rw [← allocated_of_same hsame, hhead'] at hhead
        exact absurd hhead (by decide +kernel)

end SimulationKey.Theorems.RowOrder
