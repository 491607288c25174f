import SimulationKey.Api.Requests

/-!
# What one request changes

A request of a community changes that community's rows and objects at most.

* **statements** — a change of the simulation `self` touches no other row
  (`RowsWithin.apply`); whatever the outside makes of a statement with values of the
  community, it stays within it (`within_step`);
* **programs** — the two starts and the deletion keep within their community
  (`within_startSimulation`, `within_deleteSimulation`); the preview changes nothing.
-/

namespace SimulationKey

open Kit Kit.Prog

variable {F B L α : Type}

/-! ## Changes -/

/-- What a change makes of the simulation `self`. -/
def Change.onFound (self : Nat) (found : Option (StoredSimulation F)) :
    Change → Option (StoredSimulation F)
  | insert row => found.or (some ⟨{ row with id := self }, []⟩)
  | update values => found.map fun run =>
    { run with simulation := run.simulation.set values }
  | delete => none

theorem find_apply (self : Nat) (rows : List (StoredSimulation F)) (change : Change) :
    (change.apply self rows).find? (·.simulation.id = self) =
      change.onFound self (rows.find? (·.simulation.id = self)) := by
  cases change with
  | insert row =>
      simp only [Change.apply, Change.onFound]
      cases hfound : rows.find? (·.simulation.id = self) with
      | none =>
          have hany : rows.any (·.simulation.id = self) = false := by
            simpa using List.find?_eq_none.1 hfound
          rw [hany, if_neg Bool.false_ne_true, List.find?_append, hfound]
          simp
      | some run =>
          have hany : rows.any (·.simulation.id = self) = true :=
            List.any_eq_true.2
              ⟨run, List.mem_of_find?_eq_some hfound, by simpa using List.find?_some hfound⟩
          rw [hany, if_pos rfl, hfound, Option.some_or]
  | update values =>
      simp only [Change.apply, Change.onFound, List.find?_map]
      have hsame : ((fun run : StoredSimulation F => decide (run.simulation.id = self)) ∘ fun run =>
          if run.simulation.id = self then
            { run with simulation := run.simulation.set values } else run) =
          fun run => decide (run.simulation.id = self) := by
        funext run
        by_cases hid : run.simulation.id = self
        · simp [hid, SimulationModel.set]
        · simp [hid]
      rw [hsame]
      cases hfound : rows.find? (·.simulation.id = self) with
      | none => rfl
      | some run =>
          have hid : run.simulation.id = self := by simpa using List.find?_some hfound
          simp [hid]
  | delete => simp [Change.apply, Change.onFound]

theorem find_foldl_apply (self : Nat) (changes : List Change) (rows : List (StoredSimulation F)) :
    (changes.foldl (Change.apply self) rows).find? (·.simulation.id = self) =
      changes.foldl (Change.onFound self) (rows.find? (·.simulation.id = self)) := by
  induction changes generalizing rows with
  | nil => rfl
  | cons change rest ih => rw [List.foldl_cons, List.foldl_cons, ih, find_apply]

/-- What a session sees of the simulation. -/
theorem found_eq (self : Nat) (s : InRequest F B) (k : SessionKind) :
    s.found self k = (s.staged k).foldl (Change.onFound self)
      (s.stores.simulations.find? (·.simulation.id = self)) :=
  find_foldl_apply self _ _

/-- A change of a row of the community `c`. -/
def Change.Within (c : Nat) : Change → Prop
  | insert row => row.idCommunity = c ∧ row.Owned
  | update values => values.resultStorageKey = none
  | delete => True

/-- Rows that differ from `rows` in the simulation `self` of the community `c` at
most, and are as the tables keep them. -/
structure RowsWithin (c own : Nat) (rows rows' : List (StoredSimulation F)) : Prop where
  others : rows'.filter (·.simulation.idCommunity ≠ c) = rows.filter (·.simulation.idCommunity ≠ c)
  mine : ∀ run ∈ rows', run.simulation.id = own → run.simulation.idCommunity = c
  ids : (rows'.map (·.simulation.id)).Nodup
  owned : ∀ run ∈ rows', run.simulation.Owned

theorem RowsWithin.apply {c self : Nat} {rows rows' : List (StoredSimulation F)}
    (h : RowsWithin c self rows rows') {change : Change} (hchange : change.Within c) :
    RowsWithin c self rows (change.apply self rows') := by
  cases change with
  | insert row =>
      simp only [Change.apply]
      by_cases hany : rows'.any (·.simulation.id = self) = true
      · rw [if_pos hany]
        exact h
      · rw [if_neg hany]
        obtain ⟨hcommunity, howned⟩ := hchange
        have hfresh : ∀ run ∈ rows', run.simulation.id ≠ self := by simpa using hany
        refine ⟨?_, ?_, ?_, ?_⟩
        · rw [List.filter_append, h.others]
          simp [hcommunity]
        · intro run hrun hid
          rcases List.mem_append.1 hrun with hrun | hrun
          · exact h.mine run hrun hid
          · obtain rfl := List.mem_singleton.1 hrun
            exact hcommunity
        · rw [List.map_append, List.nodup_append]
          refine ⟨h.ids, List.nodup_singleton _, ?_⟩
          intro id hid id' hid'
          obtain ⟨run, hrun, rfl⟩ := List.mem_map.1 hid
          obtain rfl := List.mem_singleton.1 hid'
          exact hfresh run hrun
        · intro run hrun
          rcases List.mem_append.1 hrun with hrun | hrun
          · exact h.owned run hrun
          · obtain rfl := List.mem_singleton.1 hrun
            exact ⟨howned.source, howned.result⟩
  | update values =>
      have hvalues : values.resultStorageKey = none := hchange
      have hcommunity : ∀ run : StoredSimulation F, (if run.simulation.id = self then
          { run with simulation := run.simulation.set values } else run).simulation.idCommunity =
          run.simulation.idCommunity := fun run => by split <;> rfl
      have hid : ∀ run : StoredSimulation F, (if run.simulation.id = self then
          { run with simulation := run.simulation.set values } else run).simulation.id =
          run.simulation.id := fun run => by split <;> rfl
      refine ⟨?_, ?_, ?_, ?_⟩
      · simp only [Change.apply, List.filter_map, Function.comp_def, hcommunity]
        rw [h.others, ← h.others]
        refine (List.map_congr_left fun run hrun => if_neg fun hself => ?_).trans (List.map_id _)
        obtain ⟨hrun, hother⟩ := List.mem_filter.1 hrun
        simp [h.mine run hrun hself] at hother
      · intro run hrun hself
        obtain ⟨run', hrun', rfl⟩ := List.mem_map.1 hrun
        rw [hcommunity]
        exact h.mine run' hrun' (hid run' ▸ hself)
      · simp only [Change.apply, List.map_map, Function.comp_def, hid]
        exact h.ids
      · intro run hrun
        obtain ⟨run', hrun', rfl⟩ := List.mem_map.1 hrun
        have howned := h.owned run' hrun'
        split
        · exact ⟨howned.source, fun key hkey => howned.result key (by
            simpa [hvalues] using hkey)⟩
        · exact howned
  | delete =>
      simp only [Change.apply]
      refine ⟨?_, ?_, ?_, ?_⟩
      · rw [List.filter_filter, ← h.others]
        refine List.filter_congr fun run hrun => ?_
        by_cases hself : run.simulation.id = self
        · simp [hself, h.mine run hrun hself]
        · simp [hself]
      · intro run hrun hself
        exact h.mine run (List.mem_of_mem_filter hrun) hself
      · exact h.ids.sublist (List.filter_sublist.map _)
      · intro run hrun
        exact h.owned run (List.mem_of_mem_filter hrun)

theorem RowsWithin.foldl {c self : Nat} {rows rows' : List (StoredSimulation F)}
    (h : RowsWithin c self rows rows') {changes : List Change}
    (hchanges : ∀ change ∈ changes, change.Within c) :
    RowsWithin c self rows (changes.foldl (Change.apply self) rows') := by
  induction changes generalizing rows' with
  | nil => exact h
  | cons change rest ih =>
      exact ih (h.apply (hchanges change (List.mem_cons_self ..)))
        fun change' hmem => hchanges change' (List.mem_cons_of_mem _ hmem)

/-! ## Statements -/

/-- What a request of the community `c` has changed so far, from `s₀`. -/
structure Within (c own : Nat) (s₀ : Stores F B) (s : InRequest F B) : Prop where
  rows : RowsWithin c own s₀.simulations s.stores.simulations
  staged : ∀ k, ∀ change ∈ s.staged k, change.Within c
  crm : s.stores.crm = s₀.crm
  auditLog : s.stores.auditLog.filter (·.idCommunity ≠ c) =
    s₀.auditLog.filter (·.idCommunity ≠ c)
  stagedAudit : ∀ x ∈ s.stagedAudit, x.2.idCommunity = c
  sources : ∀ key : SourceKey, key.community ≠ c → s.stores.sources key = s₀.sources key
  results : ∀ key : ResultKey, key.community ≠ c → s.stores.results key = s₀.results key

/-- The values of an operation are the community's. -/
def Op.Within (c : Nat) : Op F B → Prop
  | insertRow _ row => row.idCommunity = c ∧ row.Owned
  | updateRow _ values => values.resultStorageKey = none
  | logAudit _ entry => entry.idCommunity = c
  | upload key _ => key.community = c
  | delete (some (.source key)) => key.community = c
  | delete (some (.result key)) => key.community = c
  | _ => True

section Within

variable {c self : Nat} {s₀ : Stores F B} {s s' : InRequest F B}

theorem Within.visible (h : Within c self s₀ s) (k : SessionKind) :
    RowsWithin c self s₀.simulations (s.visible self k) :=
  h.rows.foldl (h.staged k)

/-- The simulation, where it is found, is the community's. -/
theorem Within.found (h : Within c self s₀ s) {k : SessionKind} {run : StoredSimulation F}
    (hfound : s.found self k = some run) : run.simulation.idCommunity = c :=
  (h.visible k).mine run (List.mem_of_find?_eq_some hfound) (by
    simpa using List.find?_some hfound)

theorem Within.stage (h : Within c self s₀ s) (k : SessionKind) {change : Change}
    (hchange : change.Within c) : Within c self s₀ (s.stage k change) :=
  { h with
    staged := fun k' change' hmem => by
      simp only [InRequest.stage] at hmem
      by_cases hk : k' = k
      · subst hk
        rw [Function.update_self, List.mem_append, List.mem_singleton] at hmem
        rcases hmem with hmem | rfl
        · exact h.staged k' change' hmem
        · exact hchange
      · rw [Function.update_of_ne hk] at hmem
        exact h.staged k' change' hmem }

theorem staged_update_nil (h : ∀ k, ∀ change ∈ s.staged k, change.Within c) (k : SessionKind) :
    ∀ k', ∀ change ∈ Function.update s.staged k [] k', change.Within c := by
  intro k' change hmem
  by_cases hk : k' = k
  · subst hk
    simp at hmem
  · rw [Function.update_of_ne hk] at hmem
    exact h k' change hmem

theorem Within.commit (h : Within c self s₀ s) (k : SessionKind) :
    Within c self s₀ (s.commit self k) :=
  { h with
    rows := h.visible k
    staged := staged_update_nil h.staged k }

theorem Within.rollback (h : Within c self s₀ s) (k : SessionKind) :
    Within c self s₀ (s.rollback k) :=
  { h with staged := staged_update_nil h.staged k }

theorem Within.stageAudit (h : Within c self s₀ s) (k : SessionKind) {entry : AuditEntry}
    (hentry : entry.idCommunity = c) : Within c self s₀ (s.stageAudit k entry) :=
  { h with
    stagedAudit := fun x hx => by
      rcases List.mem_append.1 hx with hx | hx
      · exact h.stagedAudit x hx
      · obtain rfl := List.mem_singleton.1 hx
        exact hentry }

theorem Within.commitAudit (h : Within c self s₀ s) (k : SessionKind) :
    Within c self s₀ (s.commitAudit k) :=
  { h with
    auditLog := by
      have hnone : ((s.stagedAudit.filter (·.1 = k)).map (·.2)).filter
          (·.idCommunity ≠ c) = [] := by
        rw [List.filter_eq_nil_iff]
        intro entry hentry
        obtain ⟨x, hx, rfl⟩ := List.mem_map.1 hentry
        simp [h.stagedAudit x (List.mem_of_mem_filter hx)]
      simp only [InRequest.commitAudit, List.filter_append, hnone, List.append_nil]
      exact h.auditLog
    stagedAudit := fun x hx => h.stagedAudit x (List.mem_of_mem_filter hx) }

theorem Within.rollbackAudit (h : Within c self s₀ s) (k : SessionKind) :
    Within c self s₀ (s.rollbackAudit k) :=
  { h with stagedAudit := fun x hx => h.stagedAudit x (List.mem_of_mem_filter hx) }

theorem Within.putSource (h : Within c self s₀ s) {key : SourceKey} (hkey : key.community = c)
    (content : B) : Within c self s₀ (s.putSource key content) :=
  { h with
    sources := fun key' hkey' => by
      have hne : key' ≠ key := fun heq => hkey' (heq ▸ hkey)
      simp only [InRequest.putSource, Function.update_of_ne hne]
      exact h.sources key' hkey' }

theorem Within.deleteSource (h : Within c self s₀ s) {key : SourceKey}
    (hkey : key.community = c) : Within c self s₀ (s.deleteObject (some (.source key))) :=
  { h with
    sources := fun key' hkey' => by
      have hne : key' ≠ key := fun heq => hkey' (heq ▸ hkey)
      simp only [InRequest.deleteObject, Function.update_of_ne hne]
      exact h.sources key' hkey' }

theorem Within.deleteResult (h : Within c self s₀ s) {key : ResultKey}
    (hkey : key.community = c) : Within c self s₀ (s.deleteObject (some (.result key))) :=
  { h with
    results := fun key' hkey' => by
      have hne : key' ≠ key := fun heq => hkey' (heq ▸ hkey)
      simp only [InRequest.deleteObject, Function.update_of_ne hne]
      exact h.results key' hkey' }

variable [PyFloat F] {midnight : Nat → Int} {o : Op F B}

theorem within_answer (ho : o.Within c) (h : Within c self s₀ s) {r : Except Exn o.Resp}
    (hanswer : requestAnswer midnight self o s r s') : Within c self s₀ s' := by
  cases o with
  | getRow | getSimulationRow | sharingOperationExists | publish | readUpload =>
      obtain ⟨-, rfl⟩ := hanswer
      exact h
  | getAllocationKey | summarize =>
      obtain ⟨rfl, -⟩ := hanswer
      exact h
  | updateRow k values =>
      simp only [requestAnswer] at hanswer
      split_ifs at hanswer
      · obtain ⟨-, rfl⟩ := hanswer
        exact h
      · obtain ⟨-, rfl⟩ := hanswer
        exact h.stage k ho
      · obtain ⟨-, rfl⟩ := hanswer
        exact h
  | insertRow k row =>
      simp only [requestAnswer] at hanswer
      split_ifs at hanswer
      · obtain ⟨-, rfl⟩ := hanswer
        exact h
      · obtain ⟨-, rfl⟩ := hanswer
        exact h.stage k ho
      · obtain ⟨-, rfl⟩ := hanswer
        exact h
  | deleteRow k =>
      obtain ⟨-, rfl⟩ := hanswer
      exact h.stage k trivial
  | commitLocal k =>
      obtain ⟨-, rfl⟩ := hanswer
      exact h.commit k
  | closeLocal k =>
      obtain ⟨-, rfl⟩ := hanswer
      exact h.rollback k
  | logAudit k entry =>
      obtain ⟨-, rfl⟩ := hanswer
      exact h.stageAudit k ho
  | commitCrm k =>
      obtain ⟨-, rfl⟩ := hanswer
      exact h.commitAudit k
  | closeCrm k =>
      obtain ⟨-, rfl⟩ := hanswer
      exact h.rollbackAudit k
  | upload key content =>
      obtain ⟨-, rfl⟩ := hanswer
      exact h.putSource ho content
  | delete key =>
      obtain ⟨-, rfl⟩ := hanswer
      cases key with
      | none => exact h
      | some key =>
          cases key with
          | source key => exact h.deleteSource ho
          | result key => exact h.deleteResult ho
  | claim | insertTree | fetchRows | uploadFile | download | ack | nak | stopHeartbeat | emit
  | runSimulation | remove => exact hanswer.elim

/-- Whatever the outside makes of a statement. -/
theorem within_step (ho : o.Within c) (h : Within c self s₀ s) {r : Except Exn o.Resp}
    (hmay : someLabel (requestMay midnight self) o s r s') : Within c self s₀ s' := by
  obtain ⟨choice, hmay⟩ := hmay
  cases choice with
  | ok => exact within_answer ho h hmay
  | fail e =>
      obtain ⟨-, -, -, rfl⟩ := hmay
      exact h
  | lost e =>
      obtain ⟨-, -, r', hanswer⟩ := hmay
      exact within_answer ho h hanswer
  | swallowed =>
      obtain ⟨a, -, -, rfl⟩ := hmay
      exact h

/-! ## Programs -/

theorem upholds_within {p : Act F B α} (hops : p.AllOps (Op.Within c)) (h : Within c self s₀ s) :
    p.Upholds (someLabel (requestMay midnight self)) (fun _ => True) s
      fun _ => Within c self s₀ :=
  .of_allOps (hops.mono fun _ ho _ _ _ hw hmay => within_step ho hw hmay) (fun _ _ => trivial) h

theorem upholds_next {β : Type} {p : Act F B α} {f : α → Act F B β}
    (hp : p.Upholds (someLabel (requestMay midnight self)) (fun _ => True) s
      fun _ => Within c self s₀)
    (hf : ∀ a s', Within c self s₀ s' →
      (f a).Upholds (someLabel (requestMay midnight self)) (fun _ => True) s'
        fun _ => Within c self s₀) :
    (p >>= f).Upholds (someLabel (requestMay midnight self)) (fun _ => True) s
      fun _ => Within c self s₀ :=
  .bind hp hf fun _ _ hs' => ⟨trivial, hs'⟩

/-- The row that is read again is the community's. -/
theorem upholds_getRow (k : SessionKind) (h : Within c self s₀ s) :
    (await (.getRow k) : Act F B _).Upholds (someLabel (requestMay midnight self))
      (fun _ => True) s fun r s' => Within c self s₀ s' ∧
        ∀ row, r = .ok (some row) → row.idCommunity = c := by
  refine .perform trivial fun r s' hmay =>
    ⟨trivial, within_step (o := .getRow k) trivial h hmay, fun row hr => ?_⟩
  subst hr
  obtain ⟨choice, hmay⟩ := hmay
  cases choice with
  | ok =>
      obtain ⟨run, hfound, rfl⟩ := Option.map_eq_some_iff.1 (Except.ok.inj hmay.1).symm
      exact h.found hfound
  | fail e => cases hmay.2.2.1
  | lost e => cases hmay.2.1
  | swallowed =>
      obtain ⟨a, hswallows, -, -⟩ := hmay
      cases hswallows

/-- The mark and its audit entry are the community's, as the row is. -/
theorem within_markFailedToQueue (id : Nat) (reason : String) (h : Within c self s₀ s) :
    (markFailedToQueue id reason : Act F B Unit).Upholds (someLabel (requestMay midnight self))
      (fun _ => True) s fun _ => Within c self s₀ := by
  refine .bind (Q := fun r s' => Within c self s₀ s' ∧
      ∀ community, r = .ok (some community) → community = c) ?_ (fun marked s' hs' => ?_)
    fun _ s' hs' => ⟨trivial, hs'.1⟩
  · refine .ensuring (Q := fun r s' => Within c self s₀ s' ∧
      ∀ community, r = .ok (some community) → community = c) (.bind (upholds_getRow .own h)
        (fun row s' hs' => ?_) fun _ s' hs' => ⟨trivial, hs'.1, fun _ hr => (by cases hr)⟩)
      fun r s' hs' => ?_
    · cases row with
      | none => exact ⟨trivial, hs'.1, fun _ hr => by cases hr⟩
      | some row =>
          refine .bind (upholds_within (.perform rfl) hs'.1) (fun _ s'' hs'' => ?_)
            fun _ s'' hs'' => ⟨trivial, hs'', fun _ hr => (by cases hr)⟩
          refine .bind (upholds_within (.perform trivial) hs'') (fun _ s₃ hs₃ => ?_)
            fun _ s₃ hs₃ => ⟨trivial, hs₃, fun _ hr => (by cases hr)⟩
          refine ⟨trivial, hs₃, fun community hr => ?_⟩
          obtain rfl := Option.some.inj (Except.ok.inj hr)
          exact hs'.2 row rfl
    · refine (upholds_within (p := await (.closeLocal .own)) (.perform trivial) hs'.1).mono
        fun u s'' hs'' => ⟨trivial, fun _ => ⟨hs'', hs'.2⟩, fun e _ => ⟨hs'', fun _ hr => ?_⟩⟩
      cases hr
  · cases marked with
    | none => exact ⟨trivial, hs'.1⟩
    | some community =>
        obtain rfl := hs'.2 community rfl
        exact upholds_within (.ensuring (.bind (.perform rfl) fun _ => .perform trivial)
          (.perform trivial)) hs'.1

theorem within_publishOrMark (id : Nat) {cleanup : Act F B Unit}
    (hcleanup : cleanup.AllOps (Op.Within c)) (h : Within c self s₀ s) :
    (publishOrMark id cleanup).Upholds (someLabel (requestMay midnight self)) (fun _ => True) s
      fun _ => Within c self s₀ := by
  refine .tryCatch (upholds_within
    (p := await (.publish simulationSubject (simulationRequested id))) (.perform trivial) h)
    (fun _ s' hs' => ⟨trivial, hs'⟩) fun e s' hs' => ?_
  by_cases he : e.isException = true
  · simp only [he, if_true]
    exact upholds_next (within_markFailedToQueue id e.text hs') fun _ s'' hs'' =>
      upholds_next (upholds_within hcleanup hs'') fun _ s₃ hs₃ => ⟨trivial, hs₃⟩
  · simp only [he]
    exact ⟨trivial, hs'⟩

omit [PyFloat F] in
theorem allOps_createSimulation {model : SimulationModel} (hcommunity : model.idCommunity = c)
    (howned : model.Owned) :
    (createSimulation model : Act F B Nat).AllOps (Op.Within c) :=
  .bind (.perform ⟨hcommunity, howned⟩) fun _ => .bind (.perform trivial) fun _ => trivial

omit [PyFloat F] in
theorem allOps_onException {P : Op F B → Prop} {p : Act F B α} {handler : Exn → Act F B α}
    (hp : p.AllOps P) (hhandler : ∀ e, (handler e).AllOps P) : (onException p handler).AllOps P := by
  refine .tryCatch hp fun e => ?_
  split
  · exact hhandler e
  · trivial

omit [PyFloat F] in
theorem allOps_readWithinCap {P : Op F B → Prop} (lib : Libraries F B L) (file : UploadFile B)
    (hread : P (.readUpload file.content)) : (readWithinCap lib file).AllOps P := by
  refine .bind (.perform hread) fun content => ?_
  split_ifs <;> trivial

theorem within_startSimulation (lib : Libraries F B L) (newId : Nat) (uuid : Uuid)
    (req : SimulateRequest) (file : UploadFile B) (h : Within c self s₀ s) :
    (startSimulation lib newId uuid req file c).Upholds (someLabel (requestMay midnight self))
      (fun _ => True) s fun _ => Within c self s₀ := by
  refine upholds_next (upholds_within (.perform trivial) h) fun key s₁ hs₁ => ?_
  cases key with
  | none => exact ⟨trivial, hs₁⟩
  | some key =>
      refine upholds_next (upholds_within (allOps_readWithinCap lib file trivial) hs₁)
        fun content s₂ hs₂ => ?_
      by_cases hlarge : uploadTooLarge lib key content (uploadName file) = true
      · simp only [hlarge, if_true]
        exact ⟨trivial, hs₂⟩
      · simp only [hlarge]
        have hdelete : (await (.delete (some (.source
            { community := c, uuid := uuid, fileName := uploadName file }))) :
              Act F B Unit).AllOps (Op.Within c) := .perform rfl
        refine upholds_next (upholds_within (allOps_onException (.perform rfl)
          fun _ => trivial) hs₂) fun _ s₃ hs₃ => ?_
        have howned : (fileModel newId req c key
            { community := c, uuid := uuid, fileName := uploadName file }).Owned :=
          { source := fun _ hkey => by rw [← Option.some.inj hkey]; rfl
            result := fun _ hkey => by cases hkey }
        refine upholds_next (upholds_within (allOps_onException (allOps_createSimulation rfl howned)
          fun _ => .bind hdelete fun _ => trivial) hs₃) fun id s₄ hs₄ => ?_
        refine upholds_next (upholds_within (.perform rfl) hs₄) fun _ s₅ hs₅ => ?_
        exact upholds_next (within_publishOrMark id hdelete hs₅) fun _ s₆ hs₆ => ⟨trivial, hs₆⟩

theorem allOps_previewCrmData (idKey operation periodStart periodEnd community : Nat)
    {P : Op F B → Prop} (hkey : P (.getAllocationKey idKey community))
    (hoperation : P (.sharingOperationExists community operation))
    (hsummary : P (.summarize community operation periodStart periodEnd)) :
    (previewCrmData idKey operation periodStart periodEnd community).AllOps P := by
  unfold previewCrmData
  split_ifs
  · trivial
  · refine .bind (.perform hkey) fun key => ?_
    cases key with
    | none => trivial
    | some key =>
        refine .bind (.perform hoperation) fun found => ?_
        cases found with
        | false => trivial
        | true => exact .bind (.perform hsummary) fun _ => trivial

theorem within_startSimulationFromCrm (newId : Nat) (req : SimulateFromCrmRequest)
    (h : Within c self s₀ s) :
    (startSimulationFromCrm newId req c : Act F B _).Upholds
      (someLabel (requestMay midnight self)) (fun _ => True) s fun _ => Within c self s₀ := by
  refine upholds_next (upholds_within (.perform trivial) h) fun key s₁ hs₁ => ?_
  cases key with
  | none => exact ⟨trivial, hs₁⟩
  | some key =>
      refine upholds_next (upholds_within (allOps_previewCrmData _ _ _ _ _ trivial trivial
        trivial) hs₁) fun preflight s₂ hs₂ => ?_
      cases hblockers : preflight.blockers with
      | cons first rest => exact ⟨trivial, hs₂⟩
      | nil =>
          have howned : (crmModel newId req c key preflight).Owned :=
            { source := fun _ hkey => by cases hkey
              result := fun _ hkey => by cases hkey }
          refine upholds_next (upholds_within (allOps_createSimulation rfl howned) hs₂)
            fun id s₃ hs₃ => ?_
          refine upholds_next (upholds_within (.perform rfl) hs₃) fun _ s₄ hs₄ => ?_
          exact upholds_next (within_publishOrMark id trivial hs₄) fun _ s₅ hs₅ => ⟨trivial, hs₅⟩

/-! ## Deletion -/

/-- The row that is found in scope is of the community, as its objects are. -/
theorem upholds_getSimulationRow (k : SessionKind) (h : Within c self s₀ s) :
    (await (.getSimulationRow k c) : Act F B _).Upholds (someLabel (requestMay midnight self))
      (fun _ => True) s fun r s' => Within c self s₀ s' ∧
        ∀ row, r = .ok (some row) → row.idCommunity = c ∧ row.Owned := by
  refine .perform trivial fun r s' hmay =>
    ⟨trivial, within_step (o := .getSimulationRow k c) trivial h hmay, fun row hr => ?_⟩
  subst hr
  obtain ⟨choice, hmay⟩ := hmay
  cases choice with
  | ok =>
      obtain ⟨run, hfound, rfl⟩ := Option.map_eq_some_iff.1 (Except.ok.inj hmay.1).symm
      obtain ⟨hrun, hcommunity⟩ := List.mem_filter.1 (List.mem_of_find?_eq_some hfound)
      exact ⟨by simpa using hcommunity, (h.visible k).owned run hrun⟩
  | fail e => cases hmay.2.2.1
  | lost e => cases hmay.2.1
  | swallowed =>
      obtain ⟨a, hswallows, -, -⟩ := hmay
      cases hswallows

theorem within_deleteSimulation (id : Nat) (h : Within c self s₀ s) :
    (deleteSimulation id c : Act F B Unit).Upholds (someLabel (requestMay midnight self))
      (fun _ => True) s fun _ => Within c self s₀ := by
  refine .bind (upholds_getSimulationRow .request h) (fun row s₁ hs₁ => ?_)
    fun _ s₁ hs₁ => ⟨trivial, hs₁.1⟩
  cases row with
  | none => exact ⟨trivial, hs₁.1⟩
  | some row =>
      obtain ⟨hcommunity, howned⟩ := hs₁.2 row rfl
      refine upholds_next (upholds_within (.perform trivial) hs₁.1) fun _ s₂ hs₂ => ?_
      refine upholds_next (upholds_within (.perform trivial) hs₂) fun _ s₃ hs₃ => ?_
      refine upholds_next (upholds_within (.perform ?_) hs₃) fun _ s₄ hs₄ => ?_
      · cases hkey : row.fileStorageKey with
        | none => exact trivial
        | some key => exact (howned.source key hkey).trans hcommunity
      have haudit : ∀ {s₅ : InRequest F B}, Within c self s₀ s₅ →
          (await (.logAudit .request
            { payload := .deleted row.status
              entityId := id
              idCommunity := c }) : Act F B Unit).Upholds (someLabel (requestMay midnight self))
            (fun _ => True) s₅ fun _ => Within c self s₀ :=
        fun hs₅ => upholds_within (.perform rfl) hs₅
      cases hkey : row.resultStorageKey with
      | none =>
          simp only []
          exact haudit hs₄
      | some key =>
          simp only []
          refine upholds_next (upholds_within (.perform ?_) hs₄) fun _ s₅ hs₅ => haudit hs₅
          exact (howned.result key hkey).trans hcommunity

/-! ## Whole requests -/

/-- The sessions of a request are closed, whatever it raises. -/
theorem upholds_withRequestSessions {A : InRequest F B → Prop} {p : Act F B α}
    (hp : p.Upholds (someLabel (requestMay midnight self)) (fun _ => True) s fun _ => A)
    (hclose : ∀ o ∈ [Op.closeCrm .request, .closeLocal .request], ∀ s₁ r s₂, A s₁ →
      someLabel (requestMay midnight self) o s₁ r s₂ → A s₂) :
    (withRequestSessions p).Upholds (someLabel (requestMay midnight self)) (fun _ => True) s
      fun _ => A := by
  refine .ensuring_always (Q := fun _ => A) (.ensuring_always hp fun _ s₁ hs₁ => ?_)
    fun _ s₁ hs₁ => ?_
  · exact .perform trivial fun r s₂ hmay =>
      ⟨trivial, trivial, hclose _ (by simp) s₁ r s₂ hs₁ hmay⟩
  · exact .perform trivial fun r s₂ hmay =>
      ⟨trivial, trivial, hclose _ (by simp) s₁ r s₂ hs₁ hmay⟩

theorem within_withRequestSessions {p : Act F B α}
    (hp : p.Upholds (someLabel (requestMay midnight self)) (fun _ => True) s
      fun _ => Within c self s₀) :
    (withRequestSessions p).Upholds (someLabel (requestMay midnight self)) (fun _ => True) s
      fun _ => Within c self s₀ := by
  refine upholds_withRequestSessions hp fun o ho s₁ r s₂ hs₁ hmay => ?_
  simp only [List.mem_cons, List.not_mem_nil, or_false] at ho
  rcases ho with rfl | rfl
  · exact within_step (o := .closeCrm .request) trivial hs₁ hmay
  · exact within_step (o := .closeLocal .request) trivial hs₁ hmay

omit [PyFloat F] in
/-- A request begins with nothing staged. -/
theorem within_begin (hs₀ : s₀.WellFormed)
    (hmine : ∀ run ∈ s₀.simulations, run.simulation.id = self → run.simulation.idCommunity = c) :
    Within c self s₀ s₀.begin :=
  { rows := ⟨rfl, hmine, hs₀.simulations, hs₀.owned⟩
    staged := fun _ _ hmem => by cases hmem
    crm := rfl
    auditLog := rfl
    stagedAudit := fun _ hmem => by cases hmem
    sources := fun _ _ => rfl
    results := fun _ _ => rfl }

end Within

/-- The rows and objects of the other communities, unchanged; the CRM's tables of
every community are. -/
structure Stores.SameElsewhere (c : Nat) (s s' : Stores F B) : Prop where
  simulations : s'.simulations.filter (·.simulation.idCommunity ≠ c) =
    s.simulations.filter (·.simulation.idCommunity ≠ c)
  crm : s'.crm = s.crm
  auditLog : s'.auditLog.filter (·.idCommunity ≠ c) = s.auditLog.filter (·.idCommunity ≠ c)
  sources : ∀ key : SourceKey, key.community ≠ c → s'.sources key = s.sources key
  results : ∀ key : ResultKey, key.community ≠ c → s'.results key = s.results key

theorem Stores.SameElsewhere.refl (c : Nat) (s : Stores F B) : s.SameElsewhere c s :=
  ⟨rfl, rfl, rfl, fun _ _ => rfl, fun _ _ => rfl⟩

theorem Within.sameElsewhere {c self : Nat} {s₀ : Stores F B} {s : InRequest F B}
    (h : Within c self s₀ s) : s₀.SameElsewhere c s.stores :=
  ⟨h.rows.others, h.crm, h.auditLog, h.sources, h.results⟩

theorem Within.wellFormed {c self : Nat} {s₀ : Stores F B} {s : InRequest F B}
    (h : Within c self s₀ s) (hs₀ : s₀.WellFormed) : s.stores.WellFormed :=
  { simulations := h.rows.ids
    allocationKeys := by rw [h.crm]; exact hs₀.allocationKeys
    owned := h.rows.owned }

/-! ## Requests that change nothing -/

def Op.keepsStores : Op F B → Bool
  | getRow _ | getSimulationRow .. | getAllocationKey .. | sharingOperationExists ..
  | summarize .. | closeLocal _ | closeCrm _ => true
  | _ => false

section Keeping

variable [PyFloat F] {midnight : Nat → Int} {self c : Nat} {s s' : InRequest F B} {o : Op F B}

theorem stores_answer (ho : o.keepsStores = true) {r : Except Exn o.Resp}
    (hanswer : requestAnswer midnight self o s r s') : s'.stores = s.stores := by
  cases o with
  | getRow | getSimulationRow | sharingOperationExists | closeLocal | closeCrm =>
      obtain ⟨-, rfl⟩ := hanswer
      rfl
  | getAllocationKey | summarize =>
      obtain ⟨rfl, -⟩ := hanswer
      rfl
  | _ => cases ho

theorem stores_step (ho : o.keepsStores = true) {r : Except Exn o.Resp}
    (hmay : someLabel (requestMay midnight self) o s r s') : s'.stores = s.stores := by
  obtain ⟨choice, hmay⟩ := hmay
  cases choice with
  | ok => exact stores_answer ho hmay
  | fail e =>
      obtain ⟨-, -, -, rfl⟩ := hmay
      rfl
  | lost e =>
      obtain ⟨-, -, r', hanswer⟩ := hmay
      exact stores_answer ho hanswer
  | swallowed =>
      obtain ⟨a, -, -, rfl⟩ := hmay
      rfl

theorem upholds_stores {p : Act F B α} (hops : p.AllOps fun o => o.keepsStores = true) :
    p.Upholds (someLabel (requestMay midnight self)) (fun _ => True) s
      fun _ s' => s'.stores = s.stores :=
  .of_allOps (A := fun s' : InRequest F B => s'.stores = s.stores)
    (hops.mono fun _ ho _ _ _ hw hmay => (stores_step ho hmay).trans hw)
    (fun _ _ => trivial) rfl

theorem stores_withRequestSessions {s₀ : Stores F B} {p : Act F B α}
    (hp : p.Upholds (someLabel (requestMay midnight self)) (fun _ => True) s
      fun _ s' => s'.stores = s₀) :
    (withRequestSessions p).Upholds (someLabel (requestMay midnight self)) (fun _ => True) s
      fun _ s' => s'.stores = s₀ := by
  refine upholds_withRequestSessions (A := fun s' => s'.stores = s₀) hp
    fun o ho s₁ r s₂ hs₁ hmay => ?_
  simp only [List.mem_cons, List.not_mem_nil, or_false] at ho
  rcases ho with rfl | rfl
  · exact (stores_step (o := .closeCrm .request) rfl hmay).trans hs₁
  · exact (stores_step (o := .closeLocal .request) rfl hmay).trans hs₁

omit [PyFloat F] in
/-- A row that another community's request finds is out of scope. -/
theorem findSimulation_eq_none {rows : List (StoredSimulation F)}
    (hids : (rows.map (·.simulation.id)).Nodup) {run : StoredSimulation F} (hrun : run ∈ rows)
    (hother : run.simulation.idCommunity ≠ c) :
    findSimulation (some c) rows run.simulation.id = none := by
  refine List.find?_eq_none.2 fun run' hrun' hid => ?_
  obtain ⟨hmem, hcommunity⟩ := List.mem_filter.1 hrun'
  obtain rfl := List.inj_on_of_nodup_map hids hmem hrun (by simpa using hid)
  exact hother (by simpa using hcommunity)

/-- The id is another community's: the deletion ends with its first query. -/
theorem stores_deleteSimulation {s₀ : Stores F B} (hs₀ : s₀.WellFormed)
    {run : StoredSimulation F} (hrun : run ∈ s₀.simulations)
    (hother : run.simulation.idCommunity ≠ c) :
    (withRequestSessions (deleteSimulation run.simulation.id c) : Act F B Unit).Upholds
      (someLabel (requestMay midnight run.simulation.id)) (fun _ => True) s₀.begin
      fun _ s' => s'.stores = s₀ := by
  have hread : (await (.getSimulationRow .request c) : Act F B _).Upholds
      (someLabel (requestMay midnight run.simulation.id)) (fun _ => True) s₀.begin
      fun r s' => s'.stores = s₀ ∧ ∀ row, r ≠ .ok (some row) := by
    refine .perform trivial fun r s' hmay =>
      ⟨trivial, stores_step (o := .getSimulationRow .request c) rfl hmay, fun row hr => ?_⟩
    subst hr
    obtain ⟨choice, hmay⟩ := hmay
    cases choice with
    | ok =>
        obtain ⟨found, hfound, -⟩ := Option.map_eq_some_iff.1 (Except.ok.inj hmay.1).symm
        rw [show s₀.begin.visible run.simulation.id .request = s₀.simulations from rfl,
          findSimulation_eq_none hs₀.simulations hrun hother] at hfound
        cases hfound
    | fail e => cases hmay.2.2.1
    | lost e => cases hmay.2.1
    | swallowed =>
        obtain ⟨a, hswallows, -, -⟩ := hmay
        cases hswallows
  refine stores_withRequestSessions (.bind hread (fun row s' hs' => ?_)
    fun _ s' hs' => ⟨trivial, hs'.1⟩)
  cases row with
  | none => exact ⟨trivial, hs'.1⟩
  | some row => exact absurd rfl (hs'.2 row)

end Keeping

end SimulationKey
