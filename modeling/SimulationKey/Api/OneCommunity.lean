import SimulationKey.Api.TwoRequests

/-!
# The stores, as one community has them

What the stores hold of a community (`Stores.only`), and a request of the community
on that alone. What the request's statements find and change is of the community
(`Within`), so each is answered as on the whole stores, and leaves what the stores
then hold of it.

* **statements** — `only_answer`, `only_step`;
* **programs** — each of the service's, beside itself (`Projects`).
-/

namespace SimulationKey

open Kit Kit.Prog

variable {F B L α β : Type}

/-! ## Restriction -/

def CrmTables.only (c : Nat) (crm : CrmTables F) : CrmTables F :=
  { allocationKeys := crm.allocationKeys.filter (·.idCommunity = c)
    sharingOperations := crm.sharingOperations.filter (·.idCommunity = c)
    meterConsumption := crm.meterConsumption.filter (·.idCommunity = c) }

/-- The rows, the keys and the objects of the community. -/
def Stores.only (c : Nat) (s : Stores F B) : Stores F B :=
  { simulations := s.simulations.filter (·.simulation.idCommunity = c)
    crm := s.crm.only c
    auditLog := s.auditLog.filter (·.idCommunity = c)
    sources := fun key => if key.community = c then s.sources key else none
    results := fun key => if key.community = c then s.results key else none }

def InRequest.only (c : Nat) (s : InRequest F B) : InRequest F B :=
  ⟨s.stores.only c, s.staged, s.stagedAudit⟩

theorem Stores.WellFormed.only {c : Nat} {s : Stores F B} (h : s.WellFormed) :
    (s.only c).WellFormed where
  simulations := h.simulations.sublist (List.filter_sublist.map _)
  allocationKeys := h.allocationKeys.sublist (List.filter_sublist.map _)
  owned run hrun := h.owned run (List.mem_of_mem_filter hrun)

theorem Stores.Unused.only {c id : Nat} {s : Stores F B} (h : s.Unused id) : (s.only c).Unused id :=
  fun run hrun => h run (List.mem_of_mem_filter hrun)

section Tables

variable {c : Nat} (crm : CrmTables F)

theorem findKey_only (idKey : Nat) : (crm.only c).findKey idKey c = crm.findKey idKey c := by
  rw [CrmTables.findKey, CrmTables.only, List.find?_filter]
  congr 1
  funext row
  by_cases hc : row.idCommunity = c <;> simp [hc]

theorem hasSharingOperation_only (operation : Nat) :
    (crm.only c).hasSharingOperation c operation = crm.hasSharingOperation c operation := by
  rw [CrmTables.hasSharingOperation, CrmTables.only, List.any_filter]
  congr 1
  funext row
  by_cases hc : row.idCommunity = c <;> simp [hc]

theorem readingsIn_only (midnight : Nat → Int) (operation start stop : Nat) :
    (crm.only c).readingsIn midnight c operation start stop =
      crm.readingsIn midnight c operation start stop := by
  rw [CrmTables.readingsIn, CrmTables.only, List.filter_filter]
  congr 2
  funext row
  by_cases hc : row.idCommunity = c <;> simp [hc]

theorem findSimulation_only (rows : List (StoredSimulation F)) (id : Nat) :
    findSimulation (some c) (rows.filter (·.simulation.idCommunity = c)) id =
      findSimulation (some c) rows id := by
  rw [findSimulation, scopedSimulations, List.filter_filter]
  simp only [Bool.and_self]
  rfl

end Tables

/-! ## One simulation -/

section Rows

variable {c own : Nat} {rows₀ rows : List (StoredSimulation F)}

/-- The simulation is the community's, if any. -/
theorem RowsWithin.find_only (h : RowsWithin c own rows₀ rows) :
    (rows.filter (·.simulation.idCommunity = c)).find? (·.simulation.id = own) =
      rows.find? (·.simulation.id = own) := by
  rw [List.find?_filter]
  refine List.find?_congr fun run hrun => ?_
  by_cases hown : run.simulation.id = own
  · simp [hown, h.mine run hrun hown]
  · simp [hown]

theorem RowsWithin.apply_only (h : RowsWithin c own rows₀ rows) {change : Change}
    (hchange : change.Within c) :
    (change.apply own rows).filter (·.simulation.idCommunity = c) =
      change.apply own (rows.filter (·.simulation.idCommunity = c)) := by
  cases change with
  | insert row =>
      have hany : (rows.filter (·.simulation.idCommunity = c)).any (·.simulation.id = own) =
          rows.any (·.simulation.id = own) := by
        rw [← List.isSome_find?, ← List.isSome_find?, h.find_only]
      simp only [Change.apply, hany]
      split_ifs
      · rfl
      · rw [List.filter_append]
        simp [hchange.1]
  | update values =>
      simp only [Change.apply, List.filter_map]
      congr 2
      funext run
      by_cases hown : run.simulation.id = own <;> simp [hown, SimulationModel.set]
  | delete =>
      simp only [Change.apply, List.filter_filter]
      congr 1
      funext run
      exact Bool.and_comm _ _

theorem RowsWithin.foldl_only (h : RowsWithin c own rows₀ rows) {changes : List Change}
    (hchanges : ∀ change ∈ changes, change.Within c) :
    (changes.foldl (Change.apply own) rows).filter (·.simulation.idCommunity = c) =
      changes.foldl (Change.apply own) (rows.filter (·.simulation.idCommunity = c)) := by
  induction changes generalizing rows with
  | nil => rfl
  | cons change rest ih =>
      have hchange := hchanges change List.mem_cons_self
      rw [List.foldl_cons, List.foldl_cons, ← h.apply_only hchange]
      exact ih (h.apply hchange) fun change' hmem => hchanges change' (List.mem_cons_of_mem _ hmem)

end Rows

section Statements

variable {c own : Nat} {s₀ : Stores F B} {s t : InRequest F B}

theorem visible_only (h : Within c own s₀ s) (k : SessionKind) :
    (s.only c).visible own k =
      (s.visible own k).filter (·.simulation.idCommunity = c) :=
  (h.rows.foldl_only (h.staged k)).symm

theorem found_only (h : Within c own s₀ s) (k : SessionKind) :
    (s.only c).found own k = s.found own k := by
  rw [InRequest.found, visible_only h k, (h.visible k).find_only]
  rfl

theorem commit_only (h : Within c own s₀ s) (k : SessionKind) :
    (s.commit own k).only c = (s.only c).commit own k := by
  have hvisible := visible_only h k
  simp only [InRequest.commit, hvisible]
  rfl

theorem commitAudit_only (h : Within c own s₀ s) (k : SessionKind) :
    (s.commitAudit k).only c = (s.only c).commitAudit k := by
  have hall : ((s.stagedAudit.filter (·.1 = k)).map (·.2)).filter (·.idCommunity = c) =
      (s.stagedAudit.filter (·.1 = k)).map (·.2) := by
    refine List.filter_eq_self.mpr fun entry hentry => ?_
    obtain ⟨x, hx, rfl⟩ := List.mem_map.mp hentry
    simpa using h.stagedAudit x (List.mem_of_mem_filter hx)
  simp only [InRequest.commitAudit, InRequest.only, Stores.only, List.filter_append, hall]

theorem putSource_only {key : SourceKey} (hkey : key.community = c) (content : B) :
    (s.putSource key content).only c = (s.only c).putSource key content := by
  have hsources : (fun key' : SourceKey => if key'.community = c then
        Function.update s.stores.sources key (some content) key' else none) =
      Function.update (fun key' => if key'.community = c then s.stores.sources key' else none) key
        (some content) := by
    funext key'
    by_cases heq : key' = key
    · subst heq
      simp [hkey]
    · simp [Function.update_of_ne heq]
  simp only [InRequest.putSource, InRequest.only, Stores.only, hsources]

/-- A deletion leaves nothing of an object, whoever may see it. -/
theorem deleteObject_only (key : Option ObjectKey) :
    (s.deleteObject key).only c = (s.only c).deleteObject key := by
  have hnone : ∀ {κ δ : Type} [DecidableEq κ] (objects : κ → Option δ) (seen : κ → Prop)
      [DecidablePred seen] (key : κ),
      (fun key' => if seen key' then Function.update objects key none key' else none) =
        Function.update (fun key' => if seen key' then objects key' else none) key none := by
    intro κ δ _ objects seen _ key
    funext key'
    by_cases heq : key' = key
    · subst heq
      simp
    · simp [Function.update_of_ne heq]
  cases key with
  | none => rfl
  | some key =>
      cases key with
      | source key =>
          simp only [InRequest.deleteObject, InRequest.only, Stores.only]
          rw [hnone s.stores.sources (·.community = c)]
      | result key =>
          simp only [InRequest.deleteObject, InRequest.only, Stores.only]
          rw [hnone s.stores.results (·.community = c)]

/-- What an operation is passed, and what it reads, is of the community. -/
def Op.Inside (c : Nat) : Op F B → Prop
  | getSimulationRow _ idCommunity | getAllocationKey _ idCommunity
  | sharingOperationExists idCommunity _ | summarize idCommunity .. => idCommunity = c
  | o => o.Within c

theorem Op.Inside.within {o : Op F B} (h : o.Inside c) : o.Within c := by
  cases o with
  | getSimulationRow | getAllocationKey | sharingOperationExists | summarize => trivial
  | _ => exact h

variable [PyFloat F] {midnight : Nat → Int} {o : Op F B}

/-- An operation is answered on the community's part as on the whole. -/
theorem only_answer (ho : o.Inside c) (h : Within c own s₀ s) {r : Except Exn o.Resp}
    (hanswer : requestAnswer midnight own o s r t) :
    requestAnswer midnight own o (s.only c) r (t.only c) := by
  cases o with
  | getRow k =>
      obtain ⟨rfl, rfl⟩ := hanswer
      exact ⟨by rw [found_only h], rfl⟩
  | getSimulationRow k idCommunity =>
      obtain rfl : idCommunity = c := ho
      obtain ⟨rfl, rfl⟩ := hanswer
      exact ⟨by rw [visible_only h, findSimulation_only], rfl⟩
  | updateRow k values =>
      simp only [requestAnswer, found_only h] at hanswer ⊢
      split_ifs at hanswer ⊢
      · exact ⟨hanswer.1, by rw [hanswer.2]⟩
      · exact ⟨hanswer.1, by rw [hanswer.2]; rfl⟩
      · exact ⟨hanswer.1, by rw [hanswer.2]⟩
  | insertRow k row =>
      simp only [requestAnswer, found_only h] at hanswer ⊢
      split_ifs at hanswer ⊢
      · exact ⟨hanswer.1, by rw [hanswer.2]⟩
      · exact ⟨hanswer.1, by rw [hanswer.2]; rfl⟩
      · exact ⟨hanswer.1, by rw [hanswer.2]⟩
  | commitLocal k => exact ⟨hanswer.1, by rw [hanswer.2, commit_only h]⟩
  | getAllocationKey idKey idCommunity =>
      obtain rfl : idCommunity = c := ho
      obtain ⟨rfl, hkey⟩ := hanswer
      refine ⟨rfl, ?_⟩
      have hfound : (t.only idCommunity).stores.crm.findKey idKey idCommunity =
          t.stores.crm.findKey idKey idCommunity := findKey_only t.stores.crm idKey
      rw [hfound]
      exact hkey
  | sharingOperationExists idCommunity operation =>
      obtain rfl : idCommunity = c := ho
      obtain ⟨rfl, rfl⟩ := hanswer
      exact ⟨congrArg Except.ok (hasSharingOperation_only t.stores.crm operation).symm, rfl⟩
  | summarize idCommunity operation periodStart periodEnd =>
      obtain rfl : idCommunity = c := ho
      obtain ⟨rfl, hsummary⟩ := hanswer
      refine ⟨rfl, ?_⟩
      have hreadings : ∀ start stop,
          (t.only idCommunity).stores.crm.readingsIn midnight idCommunity operation start stop =
            t.stores.crm.readingsIn midnight idCommunity operation start stop :=
        fun start stop => readingsIn_only t.stores.crm midnight operation start stop
      simp only [hreadings]
      exact hsummary
  | commitCrm k => exact ⟨hanswer.1, by rw [hanswer.2, commitAudit_only h]⟩
  | upload key content => exact ⟨hanswer.1, by rw [hanswer.2, putSource_only ho]⟩
  | delete key => exact ⟨hanswer.1, by rw [hanswer.2, deleteObject_only]⟩
  | deleteRow | closeLocal | logAudit | closeCrm =>
      exact ⟨hanswer.1, by rw [hanswer.2]; rfl⟩
  | publish | readUpload => exact ⟨hanswer.1, by rw [hanswer.2]⟩
  | claim | insertTree | fetchRows | uploadFile | download | ack | nak | stopHeartbeat | emit
  | runSimulation | remove => exact hanswer.elim

/-- Whatever the outside makes of an operation. -/
theorem only_step (ho : o.Inside c) (h : Within c own s₀ s) {choice : Choice}
    {r : Except Exn o.Resp} (hmay : requestMay midnight own o choice s r t) :
    requestMay midnight own o choice (s.only c) r (t.only c) := by
  cases choice with
  | ok => exact only_answer ho h hmay
  | fail e =>
      obtain ⟨hraise, hopen, rfl, rfl⟩ := hmay
      exact ⟨hraise, hopen, rfl, rfl⟩
  | lost e =>
      obtain ⟨hraise, rfl, r', hgone⟩ := hmay
      exact ⟨hraise, rfl, r', only_answer ho h hgone⟩
  | swallowed =>
      obtain ⟨a, hswallow, rfl, rfl⟩ := hmay
      exact ⟨a, hswallow, rfl, rfl⟩

/-! ## Programs -/

/-- However the program ends on the stores, it may end so on the community's part of
them, and leaves the community's part of what it leaves. -/
def Projects (midnight : Nat → Int) (c own : Nat) (s₀ : Stores F B) (Φ : α → Prop)
    (p : Act F B α) (s : InRequest F B) : Prop :=
  Mimics (requestMay midnight own) (requestMay midnight own)
    (fun t t' => Within c own s₀ t ∧ t' = t.only c) (fun a a' => a' = a ∧ Φ a) p s p (s.only c)

variable {Φ : α → Prop} {Ψ : β → Prop} {p : Act F B α}

theorem projects_ret (h : Within c own s₀ s) {r : Except Exn α} (hr : ∀ a, r = .ok a → Φ a) :
    Projects midnight c own s₀ Φ (.ret r) s := by
  refine .ret ⟨h, rfl⟩ ?_
  cases r with
  | ok a => exact .ok ⟨rfl, hr a rfl⟩
  | error e => exact .error e

theorem projects_raise (h : Within c own s₀ s) (e : Exn) :
    Projects midnight c own s₀ Φ (raise e) s :=
  projects_ret h fun _ hr => by cases hr

theorem projects_next {f : α → Act F B β} (hp : Projects midnight c own s₀ Φ p s)
    (hf : ∀ a t, Φ a → Within c own s₀ t → Projects midnight c own s₀ Ψ (f a) t) :
    Projects midnight c own s₀ Ψ (p >>= f) s := by
  refine .bind hp (fun _ _ hS => hS) fun a a' t t' ha ht => ?_
  obtain ⟨rfl, hΦ⟩ := ha
  obtain ⟨hwithin, rfl⟩ := ht
  exact hf _ t hΦ hwithin

theorem projects_tryCatch {handler : Exn → Act F B α} (hp : Projects midnight c own s₀ Φ p s)
    (hhandler : ∀ e t, Within c own s₀ t → Projects midnight c own s₀ Φ (handler e) t) :
    Projects midnight c own s₀ Φ (p.tryCatch handler) s := by
  refine .tryCatch hp fun e t t' ht => ?_
  obtain ⟨hwithin, rfl⟩ := ht
  exact hhandler e t hwithin

theorem projects_perform (ho : o.Inside c) {Φ : o.Resp → Prop} (h : Within c own s₀ s)
    (hΦ : ∀ choice r t, requestMay midnight own o choice s r t → ∀ a, r = .ok a → Φ a) :
    Projects midnight c own s₀ Φ (await o) s := by
  refine .perform o o fun choice r t hmay => ?_
  refine ⟨r, t.only c, only_step ho h hmay, ?_, within_step ho.within h ⟨choice, hmay⟩, rfl⟩
  cases r with
  | ok a => exact .ok ⟨rfl, hΦ choice _ t hmay a rfl⟩
  | error e => exact .error e

theorem projects_inside (hops : p.AllOps (Op.Inside c)) (h : Within c own s₀ s) :
    Projects midnight c own s₀ (fun _ => True) p s := by
  refine (Mimics.of_allOps (hops.mono fun o ho choice t t' r v ht hmay => ?_) ⟨h, rfl⟩).mono
    (fun _ _ hS => hS) fun a a' heq => ⟨heq.symm, trivial⟩
  obtain ⟨hwithin, rfl⟩ := ht
  exact ⟨v.only c, only_step ho hwithin hmay, within_step ho.within hwithin ⟨choice, hmay⟩, rfl⟩

theorem projects_ensuring {cleanup : Act F B Unit} (hp : Projects midnight c own s₀ Φ p s)
    (hcleanup : cleanup.AllOps (Op.Inside c)) :
    Projects midnight c own s₀ Φ (p.ensuring cleanup) s := by
  refine .ensuring hp fun t t' ht => ?_
  obtain ⟨hwithin, rfl⟩ := ht
  exact (projects_inside hcleanup hwithin).mono (fun _ _ hS => hS) fun _ _ h => h.1.symm

/-- The row that is read is the community's. -/
theorem projects_getRow (k : SessionKind) (h : Within c own s₀ s) :
    Projects midnight c own s₀ (fun row => ∀ found, row = some found → found.idCommunity = c)
      (await (.getRow k)) s := by
  refine projects_perform (o := .getRow k) trivial h fun choice r t hmay row hr found hfound => ?_
  subst hr hfound
  cases choice with
  | ok =>
      obtain ⟨run, hrun, rfl⟩ := Option.map_eq_some_iff.1 (Except.ok.inj hmay.1).symm
      exact h.found hrun
  | fail e => cases hmay.2.2.1
  | lost e => cases hmay.2.1
  | swallowed =>
      obtain ⟨a, hswallows, -, -⟩ := hmay
      cases hswallows

theorem projects_markFailedToQueue (id : Nat) (reason : String) (h : Within c own s₀ s) :
    Projects midnight c own s₀ (fun _ => True) (markFailedToQueue id reason) s := by
  refine projects_next (Φ := fun marked => ∀ community, marked = some community → community = c)
    (projects_ensuring (projects_next (projects_getRow .own h) fun row t hrow ht => ?_)
      (.perform trivial)) fun marked t hmarked ht => ?_
  · cases row with
    | none => exact projects_ret ht fun _ hr => by cases hr; intro _ hnone; cases hnone
    | some row =>
        refine projects_next (projects_inside (.perform rfl) ht) fun _ t₁ _ ht₁ => ?_
        refine projects_next (projects_inside (.perform trivial) ht₁) fun _ t₂ _ ht₂ => ?_
        refine projects_ret ht₂ fun marked hr community hcommunity => ?_
        obtain rfl := Except.ok.inj hr
        obtain rfl := Option.some.inj hcommunity
        exact hrow row rfl
  · cases marked with
    | none => exact projects_ret ht fun _ _ => trivial
    | some community =>
        obtain rfl := hmarked community rfl
        exact projects_inside (.ensuring (.bind (.perform rfl) fun _ => .perform trivial)
          (.perform trivial)) ht

theorem projects_publishOrMark (id : Nat) {cleanup : Act F B Unit}
    (hcleanup : cleanup.AllOps (Op.Inside c)) (h : Within c own s₀ s) :
    Projects midnight c own s₀ (fun _ => True) (publishOrMark id cleanup) s := by
  refine projects_tryCatch (projects_inside (.perform trivial) h) fun e t ht => ?_
  by_cases he : e.isException = true
  · simp only [he, if_true]
    refine projects_next (projects_markFailedToQueue id e.text ht) fun _ t₁ _ ht₁ => ?_
    exact projects_next (projects_inside hcleanup ht₁) fun _ t₂ _ ht₂ => projects_raise ht₂ _
  · simp only [he]
    exact projects_raise ht e

omit [PyFloat F] in
theorem inside_createSimulation {model : SimulationModel} (hcommunity : model.idCommunity = c)
    (howned : model.Owned) : (createSimulation model : Act F B Nat).AllOps (Op.Inside c) :=
  .bind (.perform ⟨hcommunity, howned⟩) fun _ => .bind (.perform trivial) fun _ => trivial

theorem projects_startSimulation (lib : Libraries F B L) (newId : Nat) (uuid : Uuid)
    (req : SimulateRequest) (file : UploadFile B) (h : Within c own s₀ s) :
    Projects midnight c own s₀ (fun _ => True) (startSimulation lib newId uuid req file c) s := by
  refine projects_next (projects_inside (.perform rfl) h) fun key t₁ _ ht₁ => ?_
  cases key with
  | none => exact projects_raise ht₁ _
  | some key =>
      refine projects_next (projects_inside (allOps_readWithinCap lib file trivial) ht₁)
        fun content t₂ _ ht₂ => ?_
      by_cases hlarge : uploadTooLarge lib key content (uploadName file) = true
      · simp only [hlarge, if_true]
        exact projects_raise ht₂ _
      · simp only [hlarge]
        have hdelete : (await (.delete (some (.source
            { community := c, uuid := uuid, fileName := uploadName file }))) :
              Act F B Unit).AllOps (Op.Inside c) := .perform rfl
        refine projects_next (projects_inside (allOps_onException (.perform rfl)
          fun _ => trivial) ht₂) fun _ t₃ _ ht₃ => ?_
        have howned : (fileModel newId req c key
            { community := c, uuid := uuid, fileName := uploadName file }).Owned :=
          { source := fun _ hkey => by rw [← Option.some.inj hkey]; rfl
            result := fun _ hkey => by cases hkey }
        refine projects_next (projects_inside (allOps_onException
          (inside_createSimulation rfl howned) fun _ => .bind hdelete fun _ => trivial) ht₃)
          fun id t₄ _ ht₄ => ?_
        refine projects_next (projects_inside (.perform rfl) ht₄) fun _ t₅ _ ht₅ => ?_
        exact projects_next (projects_publishOrMark id hdelete ht₅) fun _ t₆ _ ht₆ =>
          projects_ret ht₆ fun _ _ => trivial

theorem projects_startSimulationFromCrm (newId : Nat) (req : SimulateFromCrmRequest)
    (h : Within c own s₀ s) :
    Projects midnight c own s₀ (fun _ => True) (startSimulationFromCrm newId req c) s := by
  refine projects_next (projects_inside (.perform rfl) h) fun key t₁ _ ht₁ => ?_
  cases key with
  | none => exact projects_raise ht₁ _
  | some key =>
      refine projects_next (projects_inside (allOps_previewCrmData _ _ _ _ _ rfl rfl rfl) ht₁)
        fun preflight t₂ _ ht₂ => ?_
      cases hblockers : preflight.blockers with
      | cons first rest => exact projects_raise ht₂ _
      | nil =>
          have howned : (crmModel newId req c key preflight).Owned :=
            { source := fun _ hkey => by cases hkey
              result := fun _ hkey => by cases hkey }
          refine projects_next (projects_inside (inside_createSimulation rfl howned) ht₂)
            fun id t₃ _ ht₃ => ?_
          refine projects_next (projects_inside (.perform rfl) ht₃) fun _ t₄ _ ht₄ => ?_
          exact projects_next (projects_publishOrMark id trivial ht₄) fun _ t₅ _ ht₅ =>
            projects_ret ht₅ fun _ _ => trivial

/-- The row that a deletion finds is the community's, as its objects are. -/
theorem projects_getSimulationRow (k : SessionKind) (h : Within c own s₀ s) :
    Projects midnight c own s₀
      (fun row => ∀ found, row = some found → found.idCommunity = c ∧ found.Owned)
      (await (.getSimulationRow k c)) s := by
  refine projects_perform (o := .getSimulationRow k c) rfl h
    fun choice r t hmay row hr found hfound => ?_
  subst hr hfound
  cases choice with
  | ok =>
      obtain ⟨run, hrun, rfl⟩ := Option.map_eq_some_iff.1 (Except.ok.inj hmay.1).symm
      obtain ⟨hmem, hcommunity⟩ := List.mem_filter.1 (List.mem_of_find?_eq_some hrun)
      exact ⟨by simpa using hcommunity, (h.visible k).owned run hmem⟩
  | fail e => cases hmay.2.2.1
  | lost e => cases hmay.2.1
  | swallowed =>
      obtain ⟨a, hswallows, -, -⟩ := hmay
      cases hswallows

theorem projects_deleteSimulation (id : Nat) (h : Within c own s₀ s) :
    Projects midnight c own s₀ (fun _ => True) (deleteSimulation id c) s := by
  refine projects_next (projects_getSimulationRow .request h) fun row t₁ hrow ht₁ => ?_
  cases row with
  | none => exact projects_raise ht₁ _
  | some row =>
      obtain ⟨hcommunity, howned⟩ := hrow row rfl
      have hsource : Op.Inside (F := F) (B := B) c (.delete (row.fileStorageKey.map .source)) := by
        cases hkey : row.fileStorageKey with
        | none => exact trivial
        | some key => exact (howned.source key hkey).trans hcommunity
      refine projects_inside (.bind (.perform trivial) fun _ => .bind (.perform trivial) fun _ =>
        .bind (.perform hsource) fun _ => ?_) ht₁
      cases hkey : row.resultStorageKey with
      | none => exact .perform rfl
      | some key =>
          exact .bind (.perform ((howned.result key hkey).trans hcommunity)) fun _ => .perform rfl

/-- The sessions of a request, whatever it raises. -/
theorem projects_withRequestSessions (hp : Projects midnight c own s₀ Φ p s) :
    Projects midnight c own s₀ Φ (withRequestSessions p) s :=
  projects_ensuring (projects_ensuring hp (.perform trivial)) (.perform trivial)

end Statements

end SimulationKey
