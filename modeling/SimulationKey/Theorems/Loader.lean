import SimulationKey.Shared.Columns

/-!
# What the upload loader returns

A table of numbers is loaded with exactly the requested columns, or refused with
an error of the module that tells what is wrong (`Declared`), unless two of its
labels are one text: coercing the labels makes them one label of two columns,
and the rows no longer stand beside the names they are checked against
(`declared_iff`).
-/

namespace SimulationKey.Theorems.Loader

open Kit PyFloat

variable {F : Type} [PyFloat F] {T : Nat}

/-! ## What is promised -/

/-- Some cell of the column is not finite. -/
def offends (column : Fin T → F) : Bool := (List.finRange T).any fun t => !isFinite (column t)

/-- How many cells of the column are not finite. -/
def offendingCells (column : Fin T → F) : Nat :=
  (List.finRange T).countP fun t => !isFinite (column t)

/-- The 1-based rows of these cells. -/
def offendingRows (column : Fin T → F) : Set Nat :=
  {row | ∃ t : Fin T, isFinite (column t) = false ∧ row = t + 1}

/-- The columns of the requested labels in the order of the request, each with
its label. -/
def requested (columns : List (String × (Fin T → Except String F))) (labels : List String) :
    List (String × (Fin T → F)) :=
  labels.flatMap fun label =>
    (columnsNamed columns label).map fun column => (label, fun t => cellValue (column t))

/-- One row for each name, of the column labelled with it, and the injection in
each of as many rows. -/
structure Returned (columns : List (String × (Fin T → Except String F))) (injectionName : String)
    (consumerNames : List String) (raw : SimulationRawData F) : Prop where
  names : raw.consumerNames = consumerNames
  finite : ∀ column ∈ requested columns (consumerNames ++ [injectionName]),
    offends column.2 = false
  consumption_shape : raw.C.rows = consumerNames.length ∧ raw.C.cols = T
  consumption : ∀ i name, consumerNames[i]? = some name →
    ∃ column, (name, column) ∈ requested columns consumerNames ∧
      ∀ t : Fin T, raw.C.at i t = column t
  production_shape : raw.VA.rows = consumerNames.length ∧ raw.VA.cols = T
  production : ∃ column, (injectionName, column) ∈ requested columns [injectionName] ∧
    ∀ i < consumerNames.length, ∀ t : Fin T, raw.VA.at i t = column t

/-- The requested columns, or an error of the module that tells what is wrong. -/
inductive Declared (columns : List (String × (Fin T → Except String F))) (injectionName : String)
    (consumerNames : List String) : Except DataLoadError (SimulationRawData F) → Prop where
  | noConsumers (h : consumerNames = []) :
    Declared columns injectionName consumerNames (.error .noConsumersRequested)
  | missingConsumers {names : List String} (h : names ≠ [])
      (hnames : names = consumerNames.filter (· ∉ columns.map Prod.fst)) :
    Declared columns injectionName consumerNames (.error (.missingConsumerColumns names))
  | noInjection (h : injectionName ∉ columns.map Prod.fst) :
    Declared columns injectionName consumerNames (.error (.invalidInjectionColumn injectionName))
  | nonFinite {name : String} {column : Fin T → F} {row : Nat}
      (first : (requested columns (consumerNames ++ [injectionName])).find?
        (fun column => offends column.2) = some (name, column))
      (least : IsLeast (offendingRows column) row) :
    Declared columns injectionName consumerNames
      (.error (.nonFinite name (offendingCells column) row))
  | returned {raw : SimulationRawData F}
      (h : Returned columns injectionName consumerNames raw) :
    Declared columns injectionName consumerNames (.ok raw)

/-! ## When the code keeps it -/

/-- Of several columns only the first has cells that are not finite, its first
cell among them. -/
def FirstCellOnly (columns : List (Fin T → F)) : Prop :=
  ∃ column rest, columns = column :: rest ∧ (∀ other ∈ rest, offends other = false) ∧
    ∃ h : 0 < T, isFinite (column ⟨0, h⟩) = false

/-- No requested label is shared by two columns, or an error comes first. -/
inductive Separate (columns : List (String × (Fin T → Except String F))) (injectionName : String)
    (consumerNames : List String) : Prop where
  | sole (consumers : ∀ name ∈ consumerNames, Sole columns name)
      (injection : Sole columns injectionName)
  | noConsumers (h : consumerNames = [])
  | missingConsumer {name : String} (h : name ∈ consumerNames)
      (hmissing : name ∉ columns.map Prod.fst)
  | noInjection (h : injectionName ∉ columns.map Prod.fst)
  | consumerCell {i : Nat} {name : String}
      (first : (requested columns consumerNames).findIdx? (fun column => offends column.2) = some i)
      (label : (requested columns consumerNames)[i]?.map Prod.fst = some name)
      (aligned : consumerNames[i]? = some name)
  | injectionCell
      (consumers : ∀ column ∈ requested columns consumerNames, offends column.2 = false)
      (h : ∃ column ∈ requested columns [injectionName], offends column.2 = true)
      (injection : Sole columns injectionName)
  | firstInjectionCell
      (consumers : ∀ column ∈ requested columns consumerNames, offends column.2 = false)
      (h : FirstCellOnly ((requested columns [injectionName]).map Prod.snd))

/-! ## Cells -/

section Cells

variable {column : Fin T → F}

theorem offends_iff : offends column = true ↔ ∃ t, isFinite (column t) = false := by
  simp [offends]

theorem any_invalidCells : (invalidCells column).any id = offends column := by
  rw [Bool.eq_iff_iff, offends_iff]
  simp [invalidCells, List.mem_ofFn]

theorem invalidCells_eq : invalidCells column = (List.finRange T).map fun t => !isFinite (column t) :=
  List.ofFn_eq_map

theorem count_invalidCells : (invalidCells column).count true = offendingCells column := by
  rw [invalidCells_eq, List.count, List.countP_map]
  exact List.countP_congr fun t _ => by simp

theorem offendingCells_eq_zero : offendingCells column = 0 ↔ offends column = false := by
  rw [← Bool.not_eq_true, offends_iff, offendingCells, List.countP_eq_zero]
  simp

/-- The first flag that is set stands at the first offending row. -/
theorem isLeast_idxOf (h : offends column = true) :
    IsLeast (offendingRows column) ((invalidCells column).idxOf true + 1) := by
  obtain ⟨t, ht⟩ := offends_iff.mp h
  have hmem : true ∈ invalidCells column := by
    rw [invalidCells, List.mem_ofFn]
    exact ⟨t, by simp [ht]⟩
  have hlt := List.idxOf_lt_length_iff.mpr hmem
  have hlen : (invalidCells column).length = T := List.length_ofFn
  have hflag : ∀ (i : Nat) (hi : i < (invalidCells column).length),
      (invalidCells column)[i] = !isFinite (column ⟨i, by omega⟩) := fun i hi => by
    simp [invalidCells]
  constructor
  · refine ⟨⟨(invalidCells column).idxOf true, by omega⟩, ?_, rfl⟩
    have hget := List.getElem_idxOf hlt
    rw [hflag] at hget
    simpa using hget
  · rintro row ⟨t', ht', rfl⟩
    have hle : (invalidCells column).idxOf true ≤ t' := by
      by_contra hlt'
      have hne := List.not_of_lt_findIdx (p := (· == true)) (not_le.mp hlt')
      simp [invalidCells, ht'] at hne
    omega

end Cells

/-! ## The check of the consumption -/

/-- The check pairs the `i`-th offending row of the matrix with the `i`-th name. -/
theorem firstNonFinite_eq {selected : List (String × (Fin T → F))} {i : Nat}
    (hi : selected.findIdx? (fun column => offends column.2) = some i) (names : List String) :
    firstNonFinite names (selected.map fun column => invalidCells column.2) =
      match names[i]?, selected[i]? with
      | some name, some column =>
        .error (.nonFinite name (offendingCells column.2) ((invalidCells column.2).idxOf true + 1))
      | _, _ => .error .moreRowsThanColumns := by
  induction selected generalizing names i with
  | nil => cases hi
  | cons column selected ih =>
      rw [List.findIdx?_cons] at hi
      cases names with
      | nil => simp [firstNonFinite]
      | cons name names =>
          rw [List.map_cons, firstNonFinite, any_invalidCells, count_invalidCells]
          by_cases h : offends column.2 = true
          · obtain rfl : 0 = i := by simpa [h] using hi
            simp [h]
          · rw [if_neg h] at hi ⊢
            obtain ⟨i', hi', rfl⟩ := Option.map_eq_some_iff.mp hi
            rw [ih hi', List.getElem?_cons_succ, List.getElem?_cons_succ]

/-! ## The check of the injection -/

section Injection

variable {production : List (Fin T → F)}

theorem invalidProduction_singleton (series : Fin T → F) :
    invalidProduction [series] = invalidCells series := by
  rw [invalidProduction, invalidCells_eq, List.map_eq_flatMap]
  rfl

theorem count_invalidProduction :
    (invalidProduction production).count true = (production.map offendingCells).sum := by
  rw [invalidProduction, List.count_flatMap]
  induction production with
  | nil => simp [Function.comp_def]
  | cons column production ih =>
      have hcolumn : ∀ rows : List (Fin T),
          (rows.map fun t => if (!isFinite (column t)) == true then 1 else 0).sum =
            rows.countP fun t => !isFinite (column t) := by
        intro rows
        induction rows with
        | nil => rfl
        | cons t rows ih =>
            rw [List.map_cons, List.sum_cons, ih, List.countP_cons, beq_true, add_comm]
      simp only [List.map_cons, List.sum_cons, ← ih, Function.comp_def, List.count_cons,
        List.sum_map_add, hcolumn, offendingCells]
      omega

/-- With the first cell of the first column, the first flag is set. -/
theorem idxOf_of_first {column : Fin T → F} {rest : List (Fin T → F)} {h : 0 < T}
    (hcell : isFinite (column ⟨0, h⟩) = false) :
    (invalidProduction (column :: rest)).idxOf true = 0 := by
  cases T with
  | zero => omega
  | succ T =>
      have hzero : (⟨0, h⟩ : Fin (T + 1)) = 0 := rfl
      rw [hzero] at hcell
      simp [invalidProduction, List.finRange_succ, hcell]

/-- Of two or more columns, the flattened flags report one column's cells from
its own first row on only if it is the first and its first cell offends. -/
theorem firstCellOnly_of_reports {column : Fin T → F} (htwo : 2 ≤ production.length)
    (hfirst : production.find? offends = some column)
    (hcells : (invalidProduction production).count true = offendingCells column)
    (hrow : IsLeast (offendingRows column) ((invalidProduction production).idxOf true + 1)) :
    FirstCellOnly production := by
  obtain ⟨hoffends, pre, post, rfl, hpre⟩ := List.find?_eq_some_iff_append.mp hfirst
  have hpost : ∀ other ∈ post, offends other = false := by
    rw [count_invalidProduction, List.map_append, List.map_cons, List.sum_append,
      List.sum_cons] at hcells
    have hzero : (post.map offendingCells).sum = 0 := by omega
    intro other hother
    exact offendingCells_eq_zero.mp
      (List.sum_eq_zero_iff.mp hzero _ (List.mem_map_of_mem hother))
  obtain ⟨⟨t, ht, hidx⟩, hleast⟩ := hrow
  have hidx : (invalidProduction (pre ++ column :: post)).idxOf true = t := by omega
  -- nothing offends before the row of the column's first offending cell
  have hbefore : ∀ other ∈ pre ++ column :: post, ∀ t' < t, isFinite (other t') = true := by
    intro other hother t' ht'
    by_contra hnot
    have hnot : isFinite (other t') = false := by simpa using hnot
    rcases List.mem_append.mp hother with h | h
    · have := hpre other h
      simp [offends_iff.mpr ⟨t', hnot⟩] at this
    · rcases List.mem_cons.mp h with rfl | h
      · have hle := hleast ⟨t', hnot, rfl⟩
        rw [hidx] at hle
        have : (t' : Nat) < t := ht'
        omega
      · have := hpost other h
        rw [offends_iff.mpr ⟨t', hnot⟩] at this
        cases this
  have hclear : true ∉ ((List.finRange T).take t).flatMap fun t' =>
      (pre ++ column :: post).map fun other => !isFinite (other t') := by
    simp only [List.mem_flatMap, List.mem_map, not_exists, not_and]
    intro t' ht' other hother
    have hlt : t' < t := by
      obtain ⟨i, hi, rfl⟩ := List.getElem_of_mem ht'
      simp only [List.length_take, List.length_finRange] at hi
      simp only [List.getElem_take, List.getElem_finRange]
      exact Fin.lt_def.mpr (by simpa using (by omega : i < t))
    simp [hbefore other hother t' hlt]
  have hlong : t * (pre ++ column :: post).length ≤
      (invalidProduction (pre ++ column :: post)).idxOf true := by
    rw [invalidProduction, ← List.take_append_drop t (List.finRange T), List.flatMap_append,
      List.idxOf_append_of_notMem hclear]
    simp only [List.length_flatMap, List.length_map, List.map_const', List.sum_replicate,
      List.length_take, List.length_finRange, smul_eq_mul]
    have hmin : min (t : Nat) T = t := by omega
    rw [hmin]
    omega
  have hzero : (t : Nat) = 0 := by
    have hdouble : t * 2 ≤ t * (pre ++ column :: post).length := Nat.mul_le_mul_left _ htwo
    omega
  have hpos : 0 < T := by omega
  have hcell : isFinite (column ⟨0, hpos⟩) = false := by
    rwa [show (⟨0, hpos⟩ : Fin T) = t from Fin.ext hzero.symm]
  cases pre with
  | nil => exact ⟨column, post, rfl, hpost, hpos, hcell⟩
  | cons other pre =>
      -- the flags start with those of the first row, where another column stands first
      exfalso
      cases T with
      | zero => omega
      | succ T =>
          have hother : isFinite (other 0) = true := by
            have hnone := hpre other List.mem_cons_self
            by_contra hnot
            have hnot : isFinite (other 0) = false := by simpa using hnot
            simp [offends_iff.mpr ⟨0, hnot⟩] at hnone
          rw [hzero] at hidx
          simp [invalidProduction, List.finRange_succ, hother] at hidx

end Injection

/-! ## The request -/

section Request

variable {columns : List (String × (Fin T → Except String F))} {injectionName : String}
  {consumerNames : List String}

theorem requested_append (labels labels' : List String) :
    requested columns (labels ++ labels') = requested columns labels ++ requested columns labels' :=
  List.flatMap_append

theorem requested_snd (labels : List String) :
    (requested columns labels).map Prod.snd =
      (labels.flatMap (columnsNamed columns)).map fun column t => cellValue (column t) := by
  simp [requested, List.map_flatMap, Function.comp_def]

/-- Labels on one column each select one column each. -/
theorem requested_of_sole {labels : List String} (h : ∀ label ∈ labels, Sole columns label) :
    requested columns labels = labels.map fun label => (label, valuesOf columns label) := by
  induction labels with
  | nil => rfl
  | cons label labels ih =>
      obtain ⟨column, hcolumn⟩ := List.length_eq_one_iff.mp (h label List.mem_cons_self)
      have ih := ih fun label' h' => h label' (List.mem_cons_of_mem _ h')
      rw [requested] at ih ⊢
      rw [List.flatMap_cons, ih, hcolumn, List.map_cons, List.map_cons, valuesOf_eq hcolumn]
      rfl

theorem length_requested_singleton (label : String) :
    (requested columns [label]).length = (columnsNamed columns label).length := by
  simp [requested]

theorem declared_nonFinite_iff {name : String} {cells row : Nat} :
    Declared columns injectionName consumerNames (.error (.nonFinite name cells row)) ↔
      ∃ column, (requested columns (consumerNames ++ [injectionName])).find?
          (fun column => offends column.2) = some (name, column) ∧
        cells = offendingCells column ∧ IsLeast (offendingRows column) row := by
  constructor
  · intro h
    generalize hout : Except.error (DataLoadError.nonFinite name cells row) = out at h
    cases h <;> cases hout
    exact ⟨_, ‹_›, rfl, ‹_›⟩
  · rintro ⟨column, hfirst, rfl, hleast⟩
    exact .nonFinite hfirst hleast

end Request

/-! ## The two checks -/

section Outcome

variable {columns : List (String × (Fin T → Except String F))} {injectionName : String}
  {consumerNames : List String}

/-- What the loader does with the columns it selected. -/
def checked (columns : List (String × (Fin T → Except String F))) (injectionName : String)
    (consumerNames : List String) : Except DataLoadError (SimulationRawData F) := do
  let consumption := (requested columns consumerNames).map Prod.snd
  let production := (requested columns [injectionName]).map Prod.snd
  requireFinite consumerNames (consumption.map invalidCells)
  requireFinite [injectionName] [invalidProduction production]
  return rawDataOf consumption production consumerNames

theorem toSimulationRawData_eq {L : Type} {str : L → String} {dataframe : DataFrame L F}
    (hnumeric : ∀ column ∈ dataframe.columns, Numeric column.2)
    (hrequested : consumerNames ≠ [])
    (hinjection : injectionName ∈ (renamed str dataframe).map Prod.fst)
    (hconsumers : ∀ name ∈ consumerNames, name ∈ (renamed str dataframe).map Prod.fst) :
    toSimulationRawData str dataframe injectionName consumerNames =
      checked (renamed str dataframe) injectionName consumerNames := by
  have hselected : ∀ labels : List String,
      toNumpy (labels.flatMap (columnsNamed (renamed str dataframe))) =
        .ok ((requested (renamed str dataframe) labels).map Prod.snd) := by
    intro labels
    refine toNumpy_ok_iff.mpr ⟨fun column hcolumn => ?_, requested_snd labels⟩
    obtain ⟨label, -, hcolumn⟩ := List.mem_flatMap.mp hcolumn
    obtain ⟨labelled, hlabelled, rfl⟩ := List.mem_map.mp hcolumn
    obtain ⟨source, hsource, rfl⟩ := List.mem_map.mp (List.mem_of_mem_filter hlabelled)
    exact hnumeric source hsource
  have hinj := hselected [injectionName]
  rw [List.flatMap_singleton] at hinj
  have hnone : consumerNames.filter (· ∉ (renamed str dataframe).map Prod.fst) = [] := by
    rw [List.filter_eq_nil_iff]
    intro name hname
    simpa using hconsumers name hname
  unfold toSimulationRawData
  simp only [List.isEmpty_iff, hrequested, if_false, hinjection, not_true_eq_false, hnone, ne_eq,
    hselected, hinj]
  rfl

/-- Without an offending consumer cell the first check passes. -/
theorem requireFinite_consumption
    (h : ∀ column ∈ requested columns consumerNames, offends column.2 = false) :
    requireFinite consumerNames (((requested columns consumerNames).map Prod.snd).map invalidCells) =
      .ok () := by
  rw [requireFinite_ok_iff]
  intro row hrow hmem
  rw [List.map_map] at hrow
  obtain ⟨column, hcolumn, rfl⟩ := List.mem_map.mp hrow
  have hany : (invalidCells column.2).any id = true := List.any_eq_true.mpr ⟨true, hmem, rfl⟩
  rw [any_invalidCells, h column hcolumn] at hany
  cases hany

/-- With one, it ends at the first. -/
theorem requireFinite_of_offending {i : Nat}
    (hi : (requested columns consumerNames).findIdx? (fun column => offends column.2) = some i) :
    requireFinite consumerNames (((requested columns consumerNames).map Prod.snd).map invalidCells) =
      firstNonFinite consumerNames
        ((requested columns consumerNames).map fun column => invalidCells column.2) := by
  rw [requireFinite, List.map_map, if_pos]
  · rfl
  · obtain ⟨hlt, hoffends, -⟩ := List.findIdx?_eq_some_iff_getElem.mp hi
    rw [List.any_map, List.any_eq_true]
    refine ⟨_, List.getElem_mem hlt, ?_⟩
    rw [← any_invalidCells] at hoffends
    exact hoffends

/-- With an offending consumer cell, the first check must stand at the label it
blames. -/
theorem declared_of_offending (hconsumers : ∀ name ∈ consumerNames, name ∈ columns.map Prod.fst)
    (hrequested : consumerNames ≠ []) (hinjection : injectionName ∈ columns.map Prod.fst) {i : Nat}
    (hi : (requested columns consumerNames).findIdx? (fun column => offends column.2) = some i) :
    Declared columns injectionName consumerNames (checked columns injectionName consumerNames) ↔
      Separate columns injectionName consumerNames := by
  obtain ⟨hlt, hoffends, hearlier⟩ := List.findIdx?_eq_some_iff_getElem.mp hi
  have hget := List.getElem?_eq_getElem hlt
  have hfind : (requested columns (consumerNames ++ [injectionName])).find?
      (fun column => offends column.2) = some (requested columns consumerNames)[i] := by
    rw [requested_append, List.find?_append]
    have hsel : (requested columns consumerNames).find? (fun column => offends column.2) =
        some (requested columns consumerNames)[i] := by
      rw [List.find?_eq_bind_findIdx?_getElem?, hi, Option.bind_some, hget]
    rw [hsel]
    rfl
  have hrun : checked columns injectionName consumerNames =
      consumerNames[i]?.elim (.error .moreRowsThanColumns) fun name =>
        .error (.nonFinite name (offendingCells (requested columns consumerNames)[i].2)
          ((invalidCells (requested columns consumerNames)[i].2).idxOf true + 1)) := by
    rw [checked]
    simp only [requireFinite_of_offending hi, firstNonFinite_eq hi, hget]
    cases consumerNames[i]? <;> rfl
  rw [hrun]
  constructor
  · intro h
    cases hname : consumerNames[i]? with
    | none => rw [hname] at h; cases h
    | some name =>
        rw [hname] at h
        obtain ⟨column, hfirst, -⟩ := declared_nonFinite_iff.mp h
        rw [hfind, Option.some.injEq] at hfirst
        exact .consumerCell hi (by rw [hget, Option.map_some, hfirst]) hname
  · intro h
    have haligned : consumerNames[i]? = some (requested columns consumerNames)[i].1 := by
      cases h with
      | sole consumers injection =>
          have hlabel := congrArg (fun selected => selected[i]?.map Prod.fst)
            (requested_of_sole consumers)
          simp only [hget, List.getElem?_map, Option.map_some, Option.map_map,
            Function.comp_def, Option.map_id'] at hlabel
          exact hlabel.symm
      | noConsumers h => exact absurd h hrequested
      | missingConsumer h hmissing => exact absurd (hconsumers _ h) hmissing
      | noInjection h => exact absurd hinjection h
      | consumerCell first label aligned =>
          obtain rfl := Option.some.inj (hi.symm.trans first)
          rw [hget, Option.map_some, Option.some.injEq] at label
          rw [aligned, label]
      | injectionCell consumers | firstInjectionCell consumers =>
          rw [consumers _ (List.getElem_mem hlt)] at hoffends
          cases hoffends
    rw [haligned]
    exact declared_nonFinite_iff.mpr ⟨_, hfind, rfl, isLeast_idxOf hoffends⟩

/-- With only injection cells offending, the second check must report the cells
of one column. -/
theorem declared_of_injection (hrequested : consumerNames ≠ [])
    (hconsumers : ∀ name ∈ consumerNames, name ∈ columns.map Prod.fst)
    (hinjection : injectionName ∈ columns.map Prod.fst)
    (hclear : ∀ column ∈ requested columns consumerNames, offends column.2 = false)
    (hcell : ∃ column ∈ requested columns [injectionName], offends column.2 = true) :
    Declared columns injectionName consumerNames (checked columns injectionName consumerNames) ↔
      Separate columns injectionName consumerNames := by
  set production := (requested columns [injectionName]).map Prod.snd with hproduction
  have hlabel : ∀ column ∈ requested columns [injectionName], column.1 = injectionName := by
    intro column hcolumn
    rw [requested, List.flatMap_singleton] at hcolumn
    obtain ⟨_, -, rfl⟩ := List.mem_map.mp hcolumn
    rfl
  have hfind : (requested columns (consumerNames ++ [injectionName])).find?
      (fun column => offends column.2) =
        (requested columns [injectionName]).find? fun column => offends column.2 := by
    have hnone : (requested columns consumerNames).find? (fun column => offends column.2) = none :=
      List.find?_eq_none.mpr fun column hcolumn => by simp [hclear column hcolumn]
    rw [requested_append, List.find?_append, hnone, Option.none_or]
  obtain ⟨⟨label, column⟩, hfirst⟩ : ∃ column,
      (requested columns [injectionName]).find? (fun column => offends column.2) = some column :=
    Option.isSome_iff_exists.mp (List.find?_isSome.mpr hcell)
  obtain rfl : label = injectionName := hlabel _ (List.mem_of_find?_eq_some hfirst)
  have hcolumn : production.find? offends = some column := by
    rw [hproduction, List.find?_map]
    show Option.map Prod.snd ((requested columns [label]).find? fun column => offends column.2) = _
    rw [hfirst]
    rfl
  have hany : (invalidProduction production).any id = true := by
    have hmem := List.mem_of_find?_eq_some hcolumn
    obtain ⟨t, ht⟩ := offends_iff.mp (List.find?_some hcolumn)
    by_contra hnot
    have hall : true ∉ invalidProduction production := by simpa using hnot
    rw [true_notMem_invalidProduction.mp hall column hmem t] at ht
    cases ht
  have hrun : checked columns label consumerNames =
      .error (.nonFinite label ((invalidProduction production).count true)
        ((invalidProduction production).idxOf true + 1)) := by
    rw [checked]
    simp only [requireFinite_consumption hclear, ← hproduction]
    simp [requireFinite, firstNonFinite, hany, Bind.bind, Except.bind]
  have hlength : production.length = (columnsNamed columns label).length := by
    rw [hproduction, List.length_map, length_requested_singleton]
  rw [hrun]
  constructor
  · intro h
    obtain ⟨column', hfirst', hcells, hrow⟩ := declared_nonFinite_iff.mp h
    rw [hfind, hfirst, Option.some.injEq, Prod.mk.injEq] at hfirst'
    obtain ⟨-, rfl⟩ := hfirst'
    by_cases hsole : Sole columns label
    · exact .injectionCell hclear hcell hsole
    · refine .firstInjectionCell hclear (firstCellOnly_of_reports ?_ hcolumn hcells hrow)
      have hpos : 0 < production.length :=
        List.length_pos_of_mem (List.mem_of_find?_eq_some hcolumn)
      have hne : (columnsNamed columns label).length ≠ 1 := hsole
      show 2 ≤ production.length
      omega
  · intro h
    refine declared_nonFinite_iff.mpr ⟨column, hfind.trans hfirst, ?_⟩
    have hsingle : Sole columns label → (invalidProduction production).count true =
        offendingCells column ∧ IsLeast (offendingRows column)
          ((invalidProduction production).idxOf true + 1) := by
      intro hsole
      obtain ⟨series, hseries⟩ := List.length_eq_one_iff.mp (hlength.trans hsole)
      rw [hseries] at hcolumn ⊢
      obtain rfl : series = column :=
        (List.mem_singleton.mp (List.mem_of_find?_eq_some hcolumn)).symm
      rw [invalidProduction_singleton, count_invalidCells]
      exact ⟨rfl, isLeast_idxOf (List.find?_some hcolumn)⟩
    cases h with
    | sole consumers injection => exact hsingle injection
    | injectionCell consumers hcell injection => exact hsingle injection
    | noConsumers h => exact absurd h hrequested
    | missingConsumer h hmissing => exact absurd (hconsumers _ h) hmissing
    | noInjection h => exact absurd hinjection h
    | consumerCell first =>
        obtain ⟨hlt, hoffends, -⟩ := List.findIdx?_eq_some_iff_getElem.mp first
        rw [hclear _ (List.getElem_mem hlt)] at hoffends
        cases hoffends
    | firstInjectionCell consumers h =>
        obtain ⟨head, rest, hsplit, hrest, hpos, hhead⟩ := h
        rw [← hproduction] at hsplit
        have hoffends : offends head = true := offends_iff.mpr ⟨_, hhead⟩
        rw [hsplit, List.find?_cons_of_pos hoffends] at hcolumn
        obtain rfl := Option.some.inj hcolumn
        rw [hsplit, idxOf_of_first hhead, count_invalidProduction, List.map_cons, List.sum_cons]
        refine ⟨?_, ⟨⟨0, hpos⟩, hhead, rfl⟩, ?_⟩
        · have hzero : (rest.map offendingCells).sum = 0 := List.sum_eq_zero_iff.mpr fun n hn => by
            obtain ⟨other, hother, rfl⟩ := List.mem_map.mp hn
            exact offendingCells_eq_zero.mpr (hrest other hother)
          omega
        · rintro row ⟨t, -, rfl⟩
          omega

omit [PyFloat F] in
/-- A tiled block of two columns or more has as many rows as names only if it is
a single row, and then too many columns. -/
theorem length_of_tile {n : Nat} (hn : 0 < n) {production : List (Fin T → F)}
    (hne : production ≠ []) (hrows : (tile n production).rows = n)
    (hcols : (tile n production).cols = T) : production.length = 1 := by
  cases production with
  | nil => exact absurd rfl hne
  | cons first production =>
      cases production with
      | nil => rfl
      | cons second production =>
          have hrows : n * T = n := hrows
          have hcols : production.length + 2 = T := hcols
          have hone : T = 1 := Nat.eq_of_mul_eq_mul_left hn (by omega)
          omega

/-- With all requested cells finite, a row is returned for each selected column. -/
theorem declared_of_finite (hrequested : consumerNames ≠ [])
    (hconsumers : ∀ name ∈ consumerNames, name ∈ columns.map Prod.fst)
    (hinjection : injectionName ∈ columns.map Prod.fst)
    (hclear : ∀ column ∈ requested columns consumerNames, offends column.2 = false)
    (hclear' : ∀ column ∈ requested columns [injectionName], offends column.2 = false) :
    Declared columns injectionName consumerNames (checked columns injectionName consumerNames) ↔
      Separate columns injectionName consumerNames := by
  set production := (requested columns [injectionName]).map Prod.snd with hproduction
  have hlength : production.length = (columnsNamed columns injectionName).length := by
    rw [hproduction, List.length_map, length_requested_singleton]
  have hselected : (requested columns consumerNames).length =
      (consumerNames.flatMap (columnsNamed columns)).length := by
    rw [← List.length_map Prod.snd, requested_snd, List.length_map]
  have hinvalid : requireFinite [injectionName] [invalidProduction production] = .ok () := by
    rw [requireFinite_ok_iff, List.forall_mem_singleton, true_notMem_invalidProduction]
    intro column hcolumn t
    obtain ⟨labelled, hlabelled, rfl⟩ := List.mem_map.mp hcolumn
    by_contra hnot
    have hoffends := offends_iff.mpr ⟨t, by simpa using hnot⟩
    rw [hclear' labelled hlabelled] at hoffends
    cases hoffends
  have hrun : checked columns injectionName consumerNames =
      .ok (rawDataOf ((requested columns consumerNames).map Prod.snd) production
        consumerNames) := by
    rw [checked]
    simp only [requireFinite_consumption hclear, ← hproduction, hinvalid]
    rfl
  rw [hrun]
  constructor
  · intro h
    cases h with
    | returned h =>
        obtain ⟨hrows, -⟩ := h.consumption_shape
        obtain ⟨hrows', hcols⟩ := h.production_shape
        have hlabels : ((requested columns consumerNames).map Prod.snd).length =
            consumerNames.length := hrows
        rw [List.length_map, hselected] at hlabels
        refine .sole ((length_flatMap_eq_iff hconsumers).mp hlabels) ?_
        show (columnsNamed columns injectionName).length = 1
        rw [← hlength]
        refine length_of_tile (List.length_pos_iff.mpr hrequested) (fun hnil => ?_) hrows' hcols
        rw [hnil, List.length_nil] at hlength
        exact columnsNamed_eq_nil_iff.mp (List.length_eq_zero_iff.mp hlength.symm) hinjection
  · intro h
    have hsoles : (∀ name ∈ consumerNames, Sole columns name) ∧ Sole columns injectionName := by
      cases h with
      | sole consumers injection => exact ⟨consumers, injection⟩
      | noConsumers h => exact absurd h hrequested
      | missingConsumer h hmissing => exact absurd (hconsumers _ h) hmissing
      | noInjection h => exact absurd hinjection h
      | consumerCell first =>
          obtain ⟨hlt, hoffends, -⟩ := List.findIdx?_eq_some_iff_getElem.mp first
          rw [hclear _ (List.getElem_mem hlt)] at hoffends
          cases hoffends
      | injectionCell consumers hcell injection =>
          obtain ⟨column, hcolumn, hoffends⟩ := hcell
          rw [hclear' column hcolumn] at hoffends
          cases hoffends
      | firstInjectionCell consumers h =>
          obtain ⟨head, rest, hsplit, -, hpos, hhead⟩ := h
          obtain ⟨labelled, hlabelled, rfl⟩ :=
            List.mem_map.mp (show head ∈ (requested columns [injectionName]).map Prod.snd by
              rw [hsplit]; exact List.mem_cons_self)
          have hoffends := offends_iff.mpr ⟨_, hhead⟩
          rw [hclear' labelled hlabelled] at hoffends
          cases hoffends
    obtain ⟨hsoles, hsole⟩ := hsoles
    have hvalues := requested_of_sole hsoles
    have hinjected : requested columns [injectionName] = _ :=
      requested_of_sole (List.forall_mem_singleton.mpr hsole)
    have hseries : production = [valuesOf columns injectionName] := by
      rw [hproduction, hinjected]
      rfl
    have hconsumption : (requested columns consumerNames).map Prod.snd =
        consumerNames.map (valuesOf columns) := by
      rw [hvalues, List.map_map]
      rfl
    rw [hseries, hconsumption]
    refine .returned
      { names := rfl
        finite := fun column hcolumn => ?_
        consumption_shape := ⟨List.length_map _, rfl⟩
        consumption := fun i name hname => ?_
        production_shape := ⟨rfl, rfl⟩
        production := ?_ }
    · rw [requested_append, List.mem_append] at hcolumn
      exact hcolumn.elim (hclear column) (hclear' column)
    · obtain ⟨hlt, rfl⟩ := List.getElem?_eq_some_iff.mp hname
      refine ⟨valuesOf columns consumerNames[i], ?_, fun t => ?_⟩
      · rw [hvalues]
        exact List.mem_map_of_mem (List.getElem_mem hlt)
      · have hlt' : i < (consumerNames.map (valuesOf columns)).length := by
          rwa [List.length_map]
        rw [Mat.at, dif_pos ⟨hlt', t.isLt⟩]
        show (consumerNames.map (valuesOf columns)).get ⟨i, hlt'⟩ t = _
        rw [List.get_eq_getElem, List.getElem_map]
    · refine ⟨valuesOf columns injectionName, ?_, fun i hi t => ?_⟩
      · rw [hinjected]
        exact List.mem_singleton.mpr rfl
      · rw [Mat.at, dif_pos ⟨hi, t.isLt⟩]
        rfl

end Outcome

/-! ## The loader -/

/-- On a table of numbers, the loader keeps its promise exactly when no requested
label is shared by two columns, or an error comes before that matters. -/
theorem declared_iff {L : Type} (str : L → String) (dataframe : DataFrame L F)
    (injectionName : String) (consumerNames : List String)
    (hnumeric : ∀ column ∈ dataframe.columns, ∀ t, ∃ x, column.2 t = .ok x) :
    Declared (renamed str dataframe) injectionName consumerNames
        (toSimulationRawData str dataframe injectionName consumerNames) ↔
      Separate (renamed str dataframe) injectionName consumerNames := by
  by_cases hrequested : consumerNames = []
  · have hrun : toSimulationRawData str dataframe injectionName consumerNames =
        .error .noConsumersRequested := by
      rw [toSimulationRawData, hrequested, List.isEmpty_nil, if_pos rfl]
    rw [hrun]
    exact iff_of_true (.noConsumers hrequested) (.noConsumers hrequested)
  by_cases hinjection : injectionName ∈ (renamed str dataframe).map Prod.fst
  swap
  · have hrun : toSimulationRawData str dataframe injectionName consumerNames =
        .error (.invalidInjectionColumn injectionName) := by
      simp only [toSimulationRawData, List.isEmpty_iff, hrequested, if_false, hinjection,
        not_false_eq_true, if_true]
    rw [hrun]
    exact iff_of_true (.noInjection hinjection) (.noInjection hinjection)
  by_cases hconsumers : ∀ name ∈ consumerNames, name ∈ (renamed str dataframe).map Prod.fst
  swap
  · push Not at hconsumers
    obtain ⟨name, hname, hmissing⟩ := hconsumers
    have hsome : consumerNames.filter (· ∉ (renamed str dataframe).map Prod.fst) ≠ [] :=
      List.ne_nil_of_mem (List.mem_filter.mpr ⟨hname, by simpa using hmissing⟩)
    have hrun : toSimulationRawData str dataframe injectionName consumerNames =
        .error (.missingConsumerColumns
          (consumerNames.filter (· ∉ (renamed str dataframe).map Prod.fst))) := by
      simp only [toSimulationRawData, List.isEmpty_iff, hrequested, if_false, hinjection,
        not_true_eq_false, if_pos hsome]
    rw [hrun]
    exact iff_of_true (.missingConsumers hsome rfl) (.missingConsumer hname hmissing)
  rw [toSimulationRawData_eq hnumeric hrequested hinjection hconsumers]
  cases hfirst : (requested (renamed str dataframe) consumerNames).findIdx?
      fun column => offends column.2 with
  | some i => exact declared_of_offending hconsumers hrequested hinjection hfirst
  | none =>
      have hclear : ∀ column ∈ requested (renamed str dataframe) consumerNames,
          offends column.2 = false := by
        simpa [List.findIdx?_eq_none_iff] using hfirst
      by_cases hcell : ∃ column ∈ requested (renamed str dataframe) [injectionName],
          offends column.2 = true
      · exact declared_of_injection hrequested hconsumers hinjection hclear hcell
      · refine declared_of_finite hrequested hconsumers hinjection hclear fun column hcolumn => ?_
        by_contra hoffends
        exact hcell ⟨column, hcolumn, by simpa using hoffends⟩

/-- A table of one row of numbers. -/
def rowTable (cells : List (HeaderLabel × ℚ)) : DataFrame HeaderLabel ℚ :=
  { timesteps := 1
    columns := cells.map fun cell => (cell.1, fun _ => .ok cell.2) }

theorem numeric_rowTable (cells : List (HeaderLabel × ℚ)) :
    ∀ column ∈ (rowTable cells).columns, ∀ t, ∃ x, column.2 t = .ok x := by
  intro column hcolumn t
  obtain ⟨cell, -, rfl⟩ := List.mem_map.mp hcolumn
  exact ⟨cell.2, rfl⟩

/-- A header of a text and a number. -/
def plainHeader : DataFrame HeaderLabel ℚ := rowTable [(.text "A", 10), (.number 2, 5)]

/-- A header that has both the number 1 and the text "1". -/
def sharedHeader : DataFrame HeaderLabel ℚ :=
  rowTable [(.number 1, 10), (.text "1", 20), (.text "injection", 5)]

/-- A name on one column is loaded from it. -/
theorem declared_plainHeader :
    Declared (renamed HeaderLabel.str plainHeader) "2" ["A"]
      (toSimulationRawData HeaderLabel.str plainHeader "2" ["A"]) := by
  refine (declared_iff HeaderLabel.str plainHeader "2" ["A"] (numeric_rowTable _)).mpr
    (.sole ?_ ?_)
  · unfold Sole
    decide +kernel
  · unfold Sole
    decide +kernel

/-- One name, two rows. -/
theorem sharedHeader_undeclared :
    (sharedHeader.columns.map Prod.fst).Nodup ∧
      (∀ column ∈ sharedHeader.columns, ∀ t, ∃ x, column.2 t = .ok x) ∧
      ¬ Declared (renamed HeaderLabel.str sharedHeader) "injection" ["1"]
        (toSimulationRawData HeaderLabel.str sharedHeader "injection" ["1"]) := by
  refine ⟨by decide, numeric_rowTable _, fun h => ?_⟩
  have hrows : (toSimulationRawData HeaderLabel.str sharedHeader "injection" ["1"]).map
      (·.C.rows) = .ok 2 := by
    decide +kernel
  obtain ⟨raw, hraw, htwo⟩ := result_of_map hrows
  rw [hraw] at h
  cases h with
  | returned h =>
      have hone := h.consumption_shape.1
      rw [htwo] at hone
      cases hone

end SimulationKey.Theorems.Loader
