import SimulationKey.Api.TwoRequests
import SimulationKey.Backend.Runs

/-!
# Isolation of communities

A request resolved to a community is answered from what the stores hold for it,
and changes nothing else.

* **two stores** — what a route answers on one of two stores that agree on the
  community, it may answer on the other under the same faults (`responds_same`);
* **one store** — the rows and objects of the other communities are as before, and
  the invariants hold again (`responds_sameElsewhere`);
* **no community** — nothing is found and nothing is changed (`responds_unscoped`);
* **histories** — what others were answered meanwhile makes no difference to a
  community (`unaffected_by_others`).
-/

namespace SimulationKey.Theorems.Isolation

open Kit Kit.Prog Kit.Paging

variable {F B L : Type}

/-! ## Agreement -/

/-- The two stores hold the same for the community. -/
structure AgreeOn (c : Nat) (s s' : Stores F B) : Prop where
  simulations : ∀ run : StoredSimulation F, run.simulation.idCommunity = c →
    (run ∈ s.simulations ↔ run ∈ s'.simulations)
  crm : s.crm.AgreeOn c s'.crm
  sources : ∀ run ∈ s.simulations, run.simulation.idCommunity = c →
    ∀ key, run.simulation.fileStorageKey = some key → s.sources key = s'.sources key
  results : ∀ run ∈ s.simulations, run.simulation.idCommunity = c →
    ∀ key, run.simulation.resultStorageKey = some key → s.results key = s'.results key

theorem AgreeOn.refl (c : Nat) (s : Stores F B) : AgreeOn c s s :=
  ⟨fun _ _ => Iff.rfl, ⟨fun _ _ => Iff.rfl, fun _ _ => Iff.rfl, .refl _⟩, fun _ _ _ _ _ => rfl,
    fun _ _ _ _ _ => rfl⟩

theorem AgreeOn.trans {c : Nat} {s s' s'' : Stores F B} (h : AgreeOn c s s')
    (h' : AgreeOn c s' s'') : AgreeOn c s s'' where
  simulations run hc := (h.simulations run hc).trans (h'.simulations run hc)
  crm :=
    { allocationKeys := fun row hc => (h.crm.allocationKeys row hc).trans
        (h'.crm.allocationKeys row hc)
      sharingOperations := fun row hc => (h.crm.sharingOperations row hc).trans
        (h'.crm.sharingOperations row hc)
      meterConsumption := h.crm.meterConsumption.trans h'.crm.meterConsumption }
  sources run hrun hc key hkey := (h.sources run hrun hc key hkey).trans
    (h'.sources run ((h.simulations run hc).1 hrun) hc key hkey)
  results run hrun hc key hkey := (h.results run hrun hc key hkey).trans
    (h'.results run ((h.simulations run hc).1 hrun) hc key hkey)

/-- Responses that differ in the id of a started simulation at most. -/
def SameUpToId : Response F → Response F → Prop
  | .started data, .started data' => SameStatus data data'
  | r, r' => r' = r

theorem SameUpToId.refl (r : Response F) : SameUpToId r r := by
  cases r <;> rfl

section Reading

variable {c : Nat} {s s' : Stores F B}

theorem findSimulation_eq (h : AgreeOn c s s')
    (hids : (s'.simulations.map (·.simulation.id)).Nodup) (id : Nat) :
    findSimulation (some c) s.simulations id = findSimulation (some c) s'.simulations id := by
  simp only [findSimulation, scopedSimulations, List.find?_filter]
  refine find_eq_of_agree hids (fun a b ha hb => ?_) fun a ha => ?_
  · simp only [Bool.decide_and, Bool.and_eq_true, decide_eq_true_eq] at ha hb
    rw [ha.2, hb.2]
  · simp only [Bool.decide_and, Bool.and_eq_true, decide_eq_true_eq] at ha
    exact h.simulations a ha.1

/-- The rows in scope. -/
theorem scope_perm (h : AgreeOn c s s') (hids : (s.simulations.map (·.simulation.id)).Nodup)
    (hids' : (s'.simulations.map (·.simulation.id)).Nodup) :
    (withCommunityScope (some c) (s.simulations.map (·.simulation))).Perm
      (withCommunityScope (some c) (s'.simulations.map (·.simulation))) := by
  simp only [withCommunityScope, List.filter_map]
  refine List.Perm.map _ ((List.perm_ext_iff_of_nodup ?_ ?_).2 fun run => ?_)
  · exact (List.Nodup.of_map _ hids).filter _
  · exact (List.Nodup.of_map _ hids').filter _
  · simp only [List.mem_filter, Function.comp_apply, decide_eq_true_eq]
    constructor
    · rintro ⟨hrun, hc⟩
      exact ⟨(h.simulations run hc).1 hrun, hc⟩
    · rintro ⟨hrun, hc⟩
      exact ⟨(h.simulations run hc).2 hrun, hc⟩

/-- The same rows are selected, in some order. -/
theorem matchingRows_perm (db : Collation) {internalId : Option Nat} {rows rows' : List SimulationModel}
    (h : (withCommunityScope internalId rows).Perm (withCommunityScope internalId rows'))
    (params : QueryParams) :
    (∃ e, matchingRows db internalId rows params = .error e ∧
        matchingRows db internalId rows' params = .error e) ∨
      ∃ matching matching', matchingRows db internalId rows params = .ok matching ∧
        matchingRows db internalId rows' params = .ok matching' ∧ matching.Perm matching' := by
  have hnamed : (named db params (withCommunityScope internalId rows)).Perm
      (named db params (withCommunityScope internalId rows')) := by
    unfold named
    cases params.truthy "name" with
    | none => exact h
    | some name => exact h.filter _
  unfold matchingRows
  cases params.truthy "status" with
  | none => exact .inr ⟨_, _, rfl, rfl, hnamed⟩
  | some status =>
      cases hn : Text.pyInt status with
      | none => exact .inl ⟨.invalidStatus, by simp only [hn], by simp only [hn]⟩
      | some n =>
          simp only [hn]
          exact .inr ⟨_, _, rfl, rfl, hnamed.filter _⟩

theorem mayList_of_perm (db : Collation) {internalId : Option Nat}
    {rows rows' : List SimulationModel}
    (h : (withCommunityScope internalId rows).Perm (withCommunityScope internalId rows'))
    {params : QueryParams} {page pageSize : Int}
    {answer : Except ListError (List Simulation × Pagination)}
    (hlist : MayList db internalId rows params page pageSize answer) :
    MayList db internalId rows' params page pageSize answer := by
  obtain ⟨arranged, harranged, rfl⟩ := hlist
  rcases matchingRows_perm db h params with ⟨e, he, he'⟩ | ⟨matching, matching', hm, hm', hperm⟩
  · refine ⟨arranged, fun matching hmatching => ?_, ?_⟩
    · rw [he'] at hmatching
      cases hmatching
    · simp [getSimulations, getListSimulations, he, he']
  · obtain ⟨hrows, hsorted⟩ := harranged matching hm
    refine ⟨arranged, fun m hmatching => ?_, ?_⟩
    · obtain rfl := Except.ok.inj (hm'.symm.trans hmatching)
      exact ⟨hrows.trans hperm, hsorted⟩
    · have hfound : getListSimulations db internalId rows params arranged page pageSize =
          getListSimulations db internalId rows' params arranged page pageSize := by
        unfold getListSimulations
        rw [hm, hm']
        show (do
          let data ← pageSlice arranged page pageSize
          return (data, matching.length)) = (do
          let data ← pageSlice arranged page pageSize
          return (data, matching'.length) : Except ListError _)
        rw [hperm.length_eq]
      unfold getSimulations
      rw [hfound]

/-! ## Routes that read -/

variable (h : AgreeOn c s s') (hids : (s.simulations.map (·.simulation.id)).Nodup)
  (hids' : (s'.simulations.map (·.simulation.id)).Nodup)
include h hids hids'

theorem readAnswer_same (db : Collation) {o : ReadOp}
    (hobject : ∀ key maxBytes, o = .iterObject key maxBytes → s.results key = s'.results key)
    {r : Except ReadExn (o.Resp F)} (hanswer : readAnswer db (some c) s o r) :
    readAnswer db (some c) s' o r := by
  cases o with
  | getListSimulations page pageSize params =>
      obtain ⟨answer, hlist, rfl⟩ := hanswer
      exact ⟨answer, mayList_of_perm db (scope_perm h hids hids') hlist, rfl⟩
  | getSimulation id =>
      simp only [readAnswer] at hanswer ⊢
      rw [← findSimulation_eq h hids' id]
      exact hanswer
  | getSimulationRow id =>
      simp only [readAnswer] at hanswer ⊢
      rw [← findSimulation_eq h hids' id]
      exact hanswer
  | iterObject key maxBytes =>
      simp only [readAnswer] at hanswer ⊢
      rw [← hobject key maxBytes rfl]
      exact hanswer

theorem readMay_same (db : Collation) {o : ReadOp}
    (hobject : ∀ key maxBytes, o = .iterObject key maxBytes → s.results key = s'.results key)
    {choice : Choice} {r : Except ReadExn (o.Resp F)} {u u' : Unit}
    (hmay : readMay db (some c) s o choice u r u') : readMay db (some c) s' o choice u r u' := by
  cases choice with
  | ok => exact readAnswer_same h hids hids' db hobject hmay
  | fail e => cases e <;> exact hmay
  | lost e => exact hmay
  | swallowed => exact hmay

theorem mimics_query (db : Collation) (o : ReadOp)
    (hobject : ∀ key maxBytes, o = .iterObject key maxBytes → s.results key = s'.results key) :
    Mimics (readMay db (some c) s) (readMay db (some c) s') (fun _ _ => True) Eq
      (query o : ReadAct F (o.Resp F)) () (query o) () :=
  .of_allOps (.perform fun _ _ _ _ _ _ hmay =>
    ⟨(), readMay_same h hids hids' db hobject hmay, trivial⟩) trivial

theorem mimics_readSimulations (db : Collation) (page pageSize : Int) (params : QueryParams) :
    Mimics (readMay db (some c) s) (readMay db (some c) s') (fun _ _ => True) Eq
      (readSimulations page pageSize params : ReadAct F _) ()
      (readSimulations page pageSize params) () := by
  refine .bind (mimics_query h hids hids' db (.getListSimulations page pageSize params)
    fun _ _ heq => (by cases heq)) (fun _ _ _ => trivial) fun answer _ _ _ heq _ => ?_
  subst heq
  cases answer with
  | error e => exact .ret trivial (.error _)
  | ok answer => exact .ret trivial (.ok rfl)

theorem mimics_readSimulation (db : Collation) (id : Nat) :
    Mimics (readMay db (some c) s) (readMay db (some c) s') (fun _ _ => True) Eq
      (readSimulation id : ReadAct F _) () (readSimulation id) () := by
  refine .bind (mimics_query h hids hids' db (.getSimulation id) fun _ _ heq => (by cases heq))
    (fun _ _ _ => trivial) fun found _ _ _ heq _ => ?_
  subst heq
  cases found with
  | none => exact .ret trivial (.error _)
  | some found => exact .ret trivial (.ok rfl)

/-- The key that is found names an object of the community. -/
theorem mimics_resultStorageKey (db : Collation) (id : Nat) :
    Mimics (readMay db (some c) s) (readMay db (some c) s') (fun _ _ => True)
      (fun key key' => key' = key ∧ s.results key = s'.results key)
      (resultStorageKey id : ReadAct F _) () (resultStorageKey id) () := by
  refine .bind (S := fun _ _ => True) (V := fun row row' : Option SimulationModel => row' = row ∧
      ∀ simulation, row = some simulation → ∃ run ∈ s.simulations,
        run.simulation.idCommunity = c ∧ run.simulation = simulation)
    (.perform (ReadOp.getSimulationRow id) (ReadOp.getSimulationRow id) fun choice r u hmay => ?_)
    (fun _ _ _ => trivial) fun _ row _ _ hrow _ => ?_
  · refine ⟨r, (), readMay_same h hids hids' db (fun _ _ heq => by cases heq) hmay, ?_, trivial⟩
    cases r with
    | error e => exact .error e
    | ok row =>
        refine .ok ⟨rfl, fun simulation hsome => ?_⟩
        subst hsome
        cases choice with
        | ok =>
            obtain ⟨run, hfound, hrun⟩ := Option.map_eq_some_iff.1 (Except.ok.inj hmay).symm
            obtain ⟨hmem, hcommunity⟩ := List.mem_filter.1 (List.mem_of_find?_eq_some hfound)
            exact ⟨run, hmem, by simpa using hcommunity, hrun⟩
        | fail e => cases e <;> cases hmay
        | lost e => exact hmay.elim
        | swallowed => exact hmay.elim
  · obtain ⟨rfl, hnamed⟩ := hrow
    cases row with
    | none => exact .ret trivial (.error _)
    | some simulation =>
        obtain ⟨run, hrun, hcommunity, rfl⟩ := hnamed simulation rfl
        simp only []
        cases hkey : run.simulation.resultStorageKey with
        | none => exact .ret trivial (.error _)
        | some key => exact .ret trivial (.ok ⟨rfl, h.results run hrun hcommunity key hkey⟩)

/-- The object that the key names, up to a handler that only raises. -/
theorem mimics_iterObject (db : Collation) {key : ResultKey} (hkey : s.results key = s'.results key)
    (maxBytes : Option Nat) {handler : ReadExn → ReadAct F (List (List UInt8) × Bool)}
    (hhandler : ∀ e, ∃ e', handler e = raise e') :
    Mimics (readMay db (some c) s) (readMay db (some c) s') (fun _ _ => True) Eq
      ((query (.iterObject key maxBytes)).tryCatch handler) ()
      ((query (.iterObject key maxBytes)).tryCatch handler) () := by
  refine .tryCatch (mimics_query h hids hids' db (.iterObject key maxBytes) fun key' _ heq => ?_)
    fun e _ _ _ => ?_
  · obtain rfl := (ReadOp.iterObject.inj heq).1
    exact hkey
  · obtain ⟨e', he'⟩ := hhandler e
    rw [he']
    exact .ret trivial (.error e')

theorem mimics_streamTimeseries (db : Collation) (id : Nat) :
    Mimics (readMay db (some c) s) (readMay db (some c) s') (fun _ _ => True) Eq
      (streamTimeseries id : ReadAct F _) () (streamTimeseries id) () := by
  refine .bind (mimics_resultStorageKey h hids hids' db id) (fun _ _ _ => trivial)
    fun key _ _ _ hkey _ => ?_
  obtain ⟨rfl, hresult⟩ := hkey
  refine .bind (mimics_iterObject h hids hids' db hresult _ fun e => ?_) (fun _ _ _ => trivial)
    fun read _ _ _ heq _ => ?_
  · cases e <;> exact ⟨_, rfl⟩
  · subst heq
    split_ifs
    · exact .ret trivial (.error _)
    · exact .ret trivial (.ok rfl)

theorem mimics_sampleTimeseries [PyFloat F] (db : Collation) (floatOf : List Char → F)
    (intOf : Json → Option Int) (id maxPoints : Nat) :
    Mimics (readMay db (some c) s) (readMay db (some c) s') (fun _ _ => True) Eq
      (sampleTimeseries floatOf intOf id maxPoints : ReadAct F _) ()
      (sampleTimeseries floatOf intOf id maxPoints) () := by
  refine .bind (mimics_resultStorageKey h hids hids' db id) (fun _ _ _ => trivial)
    fun key _ _ _ hkey _ => ?_
  obtain ⟨rfl, hresult⟩ := hkey
  refine .bind (mimics_iterObject h hids hids' db hresult _ fun e => ?_) (fun _ _ _ => trivial)
    fun read _ _ _ heq _ => ?_
  · cases e <;> exact ⟨_, rfl⟩
  · subst heq
    split
    · exact .ret trivial (.ok rfl)
    · exact .ret trivial (.error _)

end Reading

/-! ## Two stores -/

section TwoStores

variable [PyFloat F] {c : Nat} {s₁ s₂ : Stores F B} (api : ApiContext F B L)

omit [PyFloat F] in
theorem reads_same {α : Type} {faults : List Choice} {program : ReadAct F α}
    {default : RequestError} {body : α → Response F} {r : Response F} {s₁' : Stores F B}
    (hprogram : Mimics (readMay api.db (some c) s₁) (readMay api.db (some c) s₂)
      (fun _ _ => True) Eq program () program ())
    (h : Reads api (some c) faults program default body s₁ r s₁') :
    Reads api (some c) faults program default body s₂ r s₂ := by
  obtain ⟨-, outcome, hrun, rfl⟩ := h
  obtain ⟨outcome', u, hrun', houtcome, -⟩ := hprogram faults outcome () hrun
  obtain rfl := houtcome.eq
  exact ⟨rfl, outcome', hrun', rfl⟩

theorem conducts_same {α : Type} {own own' : Nat} {V : α → α → Prop} {faults : List Choice}
    {program program' : Act F B α} {default : RequestError} {body : α → Response F}
    {r : Response F} {s₁' : Stores F B}
    (hprogram : Mimics (requestMay api.midnight own) (requestMay api.midnight own')
      (fun _ _ => True) V (withRequestSessions program) s₁.begin (withRequestSessions program')
      s₂.begin)
    (hbody : ∀ a a', V a a' → SameUpToId (body a) (body a'))
    (h : Conducts api own faults program default body s₁ r s₁') :
    ∃ r' s₂', Conducts api own' faults program' default body s₂ r' s₂' ∧ SameUpToId r r' := by
  obtain ⟨outcome, t, hrun, rfl, rfl⟩ := h
  obtain ⟨outcome', t', hrun', houtcome, -⟩ := hprogram faults outcome t hrun
  refine ⟨_, _, ⟨outcome', t', hrun', rfl, rfl⟩, ?_⟩
  cases houtcome with
  | ok hV => exact hbody _ _ hV
  | error e => cases e <;> rfl

omit [PyFloat F] in
theorem exists_unused (s : Stores F B) : ∃ id, s.Unused id := by
  obtain ⟨id, hid⟩ := Infinite.exists_notMem_finset (s.simulations.map (·.simulation.id)).toFinset
  refine ⟨id, fun run hrun heq => hid ?_⟩
  rw [List.mem_toFinset]
  exact List.mem_map.2 ⟨run, hrun, heq⟩

omit [PyFloat F] in
/-- Two requests that are about to create their simulations. -/
theorem alike_begin {own own' : Nat} (hcrm : s₁.crm.SameFor c api.midnight s₂.crm)
    (hown : s₁.Unused own) (hown' : s₂.Unused own') :
    Alike c api.midnight own own' s₁.begin s₂.begin :=
  { crm := hcrm
    row := by
      have hnone : ∀ {s : Stores F B} {id : Nat}, s.Unused id →
          s.simulations.find? (·.simulation.id = id) = none := fun hunused =>
        List.find?_eq_none.2 fun run hrun => by simpa using hunused run hrun
      show (s₁.simulations.find? _).map _ = (s₂.simulations.find? _).map _
      rw [hnone hown, hnone hown']
    staged := fun _ => rfl }

/-- What is answered on the one store may be answered on the other. -/
theorem responds_same {request : Request B} {faults : List Choice} (hs₁ : s₁.WellFormed)
    (hs₂ : s₂.WellFormed) (hagree : AgreeOn c s₁ s₂) {r : Response F} {s₁' : Stores F B}
    (h : Responds api (some c) faults request s₁ r s₁') :
    ∃ r' s₂', Responds api (some c) faults request s₂ r' s₂' ∧ SameUpToId r r' := by
  have hids₁ := hs₁.simulations
  have hids₂ := hs₂.simulations
  have hcrm := hagree.crm.sameFor hs₂.allocationKeys api.midnight
  cases request with
  | getSimulations page pageSize params =>
      exact ⟨r, s₂, reads_same api (mimics_readSimulations hagree hids₁ hids₂ _ _ _ _) h, .refl r⟩
  | getSimulation id =>
      exact ⟨r, s₂, reads_same api (mimics_readSimulation hagree hids₁ hids₂ _ id) h, .refl r⟩
  | getTimeseries id maxPoints =>
      cases maxPoints with
      | none =>
          exact ⟨r, s₂, reads_same api (mimics_streamTimeseries hagree hids₁ hids₂ _ id) h,
            .refl r⟩
      | some maxPoints =>
          exact ⟨r, s₂, reads_same api
            (mimics_sampleTimeseries hagree hids₁ hids₂ _ api.floatOf api.intOf id maxPoints) h,
            .refl r⟩
  | getCrmDataPreview locale idKey operation periodStart periodEnd =>
      refine conducts_same api (V := Eq) (mimics_withRequestSessions
        ((mimics_previewCrmData idKey operation periodStart periodEnd hcrm).mono
          (fun _ _ _ => trivial) fun _ _ heq => heq)) (fun a a' heq => ?_) h
      subst heq
      exact .refl _
  | startSimulation req file =>
      obtain ⟨newId, uuid, hunused, hconducts⟩ := h
      obtain ⟨newId', hunused'⟩ := exists_unused s₂
      obtain ⟨r', s₂', hconducts', hsame⟩ := conducts_same api (V := SameStatus)
        (mimics_withRequestSessions ((mimics_startSimulation api.lib newId newId' uuid req file
          (alike_begin api hcrm hunused hunused')).mono (fun _ _ _ => trivial) fun _ _ h => h))
        (fun a a' hstatus => show SameUpToId (.started a) (.started a') from hstatus) hconducts
      exact ⟨r', s₂', ⟨newId', uuid, hunused', hconducts'⟩, hsame⟩
  | startSimulationFromCrm req =>
      obtain ⟨newId, hunused, hconducts⟩ := h
      obtain ⟨newId', hunused'⟩ := exists_unused s₂
      obtain ⟨r', s₂', hconducts', hsame⟩ := conducts_same api (V := SameStatus)
        (mimics_withRequestSessions ((mimics_startSimulationFromCrm newId newId' req
          (alike_begin api hcrm hunused hunused')).mono (fun _ _ _ => trivial) fun _ _ h => h))
        (fun a a' hstatus => show SameUpToId (.started a) (.started a') from hstatus) hconducts
      exact ⟨r', s₂', ⟨newId', hunused', hconducts'⟩, hsame⟩
  | deleteSimulation id =>
      refine conducts_same api (V := Eq) (mimics_withRequestSessions
        (mimics_deleteSimulation hcrm (findSimulation_eq hagree hids₂ id) hids₁ hids₂))
        (fun a a' heq => ?_) h
      subst heq
      exact .refl _

end TwoStores

/-! ## One store -/

section OneStore

variable [PyFloat F] {c : Nat} {s : Stores F B} (api : ApiContext F B L)

/-- What a program of the service leaves. -/
theorem conducts_upholds {α : Type} {own : Nat} {faults : List Choice} {program : Act F B α}
    {default : RequestError} {body : α → Response F} {r : Response F} {s' : Stores F B}
    {A : InRequest F B → Prop}
    (hprogram : (withRequestSessions program).Upholds (someLabel (requestMay api.midnight own))
      (fun _ => True) s.begin fun _ => A)
    (h : Conducts api own faults program default body s r s') : ∃ t, A t ∧ s' = t.stores := by
  obtain ⟨outcome, t, hrun, rfl, -⟩ := h
  exact ⟨t, hprogram.ends hrun.ends, rfl⟩

theorem conducts_within {α : Type} {own : Nat} {faults : List Choice} {program : Act F B α}
    {default : RequestError} {body : α → Response F} {r : Response F} {s' : Stores F B}
    (hs : s.WellFormed)
    (hmine : ∀ run ∈ s.simulations, run.simulation.id = own → run.simulation.idCommunity = c)
    (hprogram : Within c own s s.begin → program.Upholds
      (someLabel (requestMay api.midnight own)) (fun _ => True) s.begin fun _ => Within c own s)
    (h : Conducts api own faults program default body s r s') :
    s.SameElsewhere c s' ∧ s'.WellFormed := by
  obtain ⟨t, ht, rfl⟩ := conducts_upholds api
    (within_withRequestSessions (hprogram (within_begin hs hmine))) h
  exact ⟨ht.sameElsewhere, ht.wellFormed hs⟩

/-- A request of the community leaves the rest of the stores, and leaves them as
the service keeps them. -/
theorem responds_sameElsewhere {request : Request B} {faults : List Choice} (hs : s.WellFormed)
    {r : Response F} {s' : Stores F B} (h : Responds api (some c) faults request s r s') :
    s.SameElsewhere c s' ∧ s'.WellFormed := by
  have hkept : s' = s → s.SameElsewhere c s' ∧ s'.WellFormed := by
    rintro rfl
    exact ⟨.refl c s', hs⟩
  cases request with
  | getSimulations | getSimulation => exact hkept h.1
  | getTimeseries id maxPoints => cases maxPoints <;> exact hkept h.1
  | getCrmDataPreview locale idKey operation periodStart periodEnd =>
      have hpreview : (previewCrmData idKey operation periodStart periodEnd c :
          Act F B (Preflight F)).Upholds (someLabel (requestMay api.midnight 0)) (fun _ => True)
          s.begin fun _ s' => s'.stores = s :=
        upholds_stores (allOps_previewCrmData idKey operation periodStart periodEnd c rfl rfl rfl)
      have hstores := stores_withRequestSessions hpreview
      obtain ⟨t, ht, rfl⟩ := conducts_upholds api hstores h
      exact hkept ht
  | startSimulation req file =>
      obtain ⟨newId, uuid, hunused, hconducts⟩ := h
      exact conducts_within api hs (fun run hrun hid => absurd hid (hunused run hrun))
        (within_startSimulation api.lib newId uuid req file) hconducts
  | startSimulationFromCrm req =>
      obtain ⟨newId, hunused, hconducts⟩ := h
      exact conducts_within api hs (fun run hrun hid => absurd hid (hunused run hrun))
        (within_startSimulationFromCrm newId req) hconducts
  | deleteSimulation id =>
      by_cases hmine : ∀ run ∈ s.simulations, run.simulation.id = id →
          run.simulation.idCommunity = c
      · exact conducts_within api hs hmine (within_deleteSimulation id) h
      · -- the id is another community's
        push Not at hmine
        obtain ⟨run, hrun, rfl, hother⟩ := hmine
        obtain ⟨t, ht, rfl⟩ := conducts_upholds api (stores_deleteSimulation hs hrun hother) h
        exact hkept ht

omit [PyFloat F] in
/-- The objects that the other communities' rows name are among those kept. -/
theorem objects_kept (hs : s.WellFormed) {s' : Stores F B} (h : s.SameElsewhere c s')
    {run : StoredSimulation F} (hrun : run ∈ s.simulations)
    (hother : run.simulation.idCommunity ≠ c) :
    (∀ key, run.simulation.fileStorageKey = some key → s'.sources key = s.sources key) ∧
      ∀ key, run.simulation.resultStorageKey = some key → s'.results key = s.results key := by
  have howned := hs.owned run hrun
  constructor
  · intro key hkey
    exact h.sources key fun hc => hother ((howned.source key hkey).symm.trans hc)
  · intro key hkey
    exact h.results key fun hc => hother ((howned.result key hkey).symm.trans hc)

omit [PyFloat F] in
/-- What is the same elsewhere is the same for every other community. -/
theorem agreeOn_of_sameElsewhere {c d : Nat} (hne : d ≠ c) {s s' : Stores F B} (hs : s.WellFormed)
    (h : s.SameElsewhere d s') : AgreeOn c s s' where
  simulations run hc := by
    have hmem : ∀ rows : List (StoredSimulation F),
        run ∈ rows ↔ run ∈ rows.filter (·.simulation.idCommunity ≠ d) := by
      intro rows
      have hother : run.simulation.idCommunity ≠ d := hc ▸ hne.symm
      simp [hother]
    rw [hmem s.simulations, hmem s'.simulations, h.simulations]
  crm := by
    rw [h.crm]
    exact (AgreeOn.refl c s).crm
  sources run hrun hc key hkey :=
    ((objects_kept hs h hrun (hc ▸ hne.symm)).1 key hkey).symm
  results run hrun hc key hkey :=
    ((objects_kept hs h hrun (hc ▸ hne.symm)).2 key hkey).symm

omit [PyFloat F] in
/-- The worker's outcomes keep a row's objects its community's. -/
theorem owned_outcomes {row : SimulationModel} (h : row.Owned) (simulationId : Nat) :
    (row.set (successValues (resultKeyOf simulationId row))).Owned ∧
      ∀ errorMessage, (row.set (failureValues errorMessage)).Owned := by
  refine ⟨⟨h.source, fun key hkey => ?_⟩, fun errorMessage => ⟨h.source, h.result⟩⟩
  obtain rfl := Option.some.inj hkey
  rfl

end OneStore

/-! ## No community -/

section Unscoped

/-- A response that returns no row. -/
def Bare : Response F → Prop
  | .cancelled | .refused .. => True
  | .simulations data pagination => data = [] ∧ pagination.total = 0
  | _ => False

variable {s : Stores F B}

theorem bare_error {α : Type} (default : RequestError) (body : α → Response F) (e : ReadExn) :
    Bare (readWithDefaultError default body (.error e)) := by
  cases e <;> trivial

/-- A route whose program ends barely when its queries find nothing. -/
theorem reads_bare {α : Type} {api : ApiContext F B L} {program : ReadAct F α}
    {default : RequestError} {body : α → Response F}
    (hprogram : program.Upholds (someLabel (readMay api.db none s)) (fun _ => True) ()
      fun outcome _ => Bare (readWithDefaultError default body outcome))
    {faults : List Choice} {r : Response F} {s' : Stores F B}
    (h : Reads api none faults program default body s r s') : Bare r ∧ s' = s := by
  obtain ⟨rfl, outcome, hrun, rfl⟩ := h
  exact ⟨hprogram.ends hrun.ends, rfl⟩

/-- An answer that goes through is one of no rows. -/
theorem mayList_unscoped {db : Collation} {rows : List SimulationModel} {params : QueryParams}
    {page pageSize : Int} {data : List Simulation} {pagination : Pagination}
    (h : MayList db none rows params page pageSize (.ok (data, pagination))) :
    data = [] ∧ pagination.total = 0 := by
  obtain ⟨arranged, harranged, heq⟩ := h
  have hnamed : named db params (withCommunityScope none rows) = [] := by
    unfold named withCommunityScope
    cases params.truthy "name" <;> rfl
  cases hmatching : matchingRows db none rows params with
  | error e =>
      unfold getSimulations getListSimulations at heq
      rw [hmatching] at heq
      cases heq
  | ok matching =>
      have hempty : matching = [] := by
        unfold matchingRows at hmatching
        simp only [hnamed, List.filter_nil] at hmatching
        split at hmatching
        · exact (Except.ok.inj hmatching).symm
        · split at hmatching
          · cases hmatching
          · exact (Except.ok.inj hmatching).symm
      obtain rfl : arranged = [] := by
        have hperm := (harranged matching hmatching).1
        rw [hempty] at hperm
        exact hperm.eq_nil
      subst hempty
      unfold getSimulations getListSimulations at heq
      rw [hmatching] at heq
      -- the page of an empty answer
      cases hslice : pageSlice [] page pageSize with
      | error e =>
          rw [hslice] at heq
          cases heq
      | ok found =>
          have hfound : found = [] := by
            unfold pageSlice at hslice
            split_ifs at hslice
            simpa using (Except.ok.inj hslice).symm
          subst hfound
          rw [hslice] at heq
          change Except.ok (data, pagination) = (if pageSize = 0 then _ else _) at heq
          split_ifs at heq
          obtain ⟨rfl, rfl⟩ := Prod.mk.inj (Except.ok.inj heq)
          exact ⟨rfl, rfl⟩

/-- Of what a query answers, no row. -/
def FindsNothing : (o : ReadOp) → Except ReadExn (o.Resp F) → Prop
  | .getListSimulations .., r => ∀ data pagination, r = .ok (.ok (data, pagination)) →
    data = [] ∧ pagination.total = 0
  | .getSimulation _, r => ∀ found, r = .ok found → found = none
  | .getSimulationRow _, r => ∀ found, r = .ok found → found = none
  | .iterObject .., _ => True

theorem findsNothing_error (o : ReadOp) (e : ReadExn) :
    FindsNothing o (.error e : Except ReadExn (o.Resp F)) := by
  cases o <;> simp [FindsNothing]

theorem unscoped_query {db : Collation} (o : ReadOp) :
    (query o : ReadAct F (o.Resp F)).Upholds (someLabel (readMay db none s)) (fun _ => True) ()
      fun r _ => FindsNothing o r := by
  refine .perform trivial fun r _ hmay => ⟨trivial, ?_⟩
  obtain ⟨choice, hmay⟩ := hmay
  cases choice with
  | ok =>
      cases o with
      | getListSimulations page pageSize params =>
          obtain ⟨answer, hlist, rfl⟩ := hmay
          intro data pagination heq
          obtain rfl := Except.ok.inj heq
          exact mayList_unscoped hlist
      | getSimulation id =>
          intro found heq
          obtain rfl : r = .ok none := hmay
          exact (Except.ok.inj heq).symm
      | getSimulationRow id =>
          intro found heq
          obtain rfl : r = .ok none := hmay
          exact (Except.ok.inj heq).symm
      | iterObject key maxBytes => trivial
  | fail e =>
      cases e with
      | other text =>
          obtain rfl : r = .error (.other text) := hmay
          exact findsNothing_error o _
      | cancelled =>
          obtain rfl : r = .error .cancelled := hmay
          exact findsNothing_error o _
      | _ => exact hmay.elim
  | lost e => exact hmay.elim
  | swallowed => exact hmay.elim

/-- A route that goes on with a row that its first query does not find. -/
theorem unscoped_row {α : Type} {db : Collation} {id : Nat}
    {rest : Option SimulationModel → ReadAct F α} {e : ReadExn} (hrest : rest none = raise e) :
    (query (.getSimulationRow id) >>= rest).Upholds (someLabel (readMay db none s))
      (fun _ => True) () fun outcome _ => ∃ e', outcome = .error e' := by
  refine .bind (unscoped_query _) (fun found _ hfound => ?_) fun e' _ _ => ⟨trivial, e', rfl⟩
  rw [hfound found rfl, hrest]
  exact ⟨trivial, e, rfl⟩

/-- A program whose first part raises. -/
theorem unscoped_bind {α β : Type} {db : Collation} {first : ReadAct F α} {rest : α → ReadAct F β}
    {default : RequestError} {body : β → Response F}
    (hfirst : first.Upholds (someLabel (readMay db none s)) (fun _ => True) ()
      fun outcome _ => ∃ e, outcome = .error e) :
    (first >>= rest).Upholds (someLabel (readMay db none s)) (fun _ => True) ()
      fun outcome _ => Bare (readWithDefaultError default body outcome) := by
  refine hfirst.bind (fun a _ ⟨e, he⟩ => by cases he) fun e _ _ => ?_
  exact ⟨trivial, bare_error default body e⟩

/-- Without a community, no row is returned and nothing is changed. -/
theorem responds_unscoped [PyFloat F] {api : ApiContext F B L} {request : Request B}
    {faults : List Choice} {r : Response F} {s' : Stores F B}
    (h : Responds api none faults request s r s') : Bare r ∧ s' = s := by
  have hunauthorized : faults = [] ∧ s' = s ∧ r = .refused .unauthorized 401 → Bare r ∧ s' = s := by
    rintro ⟨-, rfl, rfl⟩
    exact ⟨trivial, rfl⟩
  cases request with
  | getSimulations page pageSize params =>
      refine reads_bare (.bind (unscoped_query _) (fun answer _ hanswer => ?_)
        fun e _ _ => ⟨trivial, bare_error _ _ e⟩) h
      cases answer with
      | error e => exact ⟨trivial, bare_error _ _ _⟩
      | ok answer => exact ⟨trivial, hanswer answer.1 answer.2 rfl⟩
  | getSimulation id =>
      refine reads_bare (.bind (unscoped_query _) (fun found _ hfound => ?_)
        fun e _ _ => ⟨trivial, bare_error _ _ e⟩) h
      rw [hfound found rfl]
      exact ⟨trivial, bare_error _ _ _⟩
  | getTimeseries id maxPoints =>
      cases maxPoints with
      | none => exact reads_bare (unscoped_bind (unscoped_row rfl)) h
      | some maxPoints => exact reads_bare (unscoped_bind (unscoped_row rfl)) h
  | deleteSimulation id =>
      refine reads_bare ((unscoped_row rfl).mono fun outcome _ hraised => ?_) h
      obtain ⟨e, rfl⟩ := hraised
      exact bare_error _ _ e
  | getCrmDataPreview | startSimulation | startSimulationFromCrm => exact hunauthorized h

end Unscoped

/-! ## Every request -/

section Tenants

variable [PyFloat F]

/-- A request resolved to `c` is answered from what is the community's alone and
leaves the others' rows and objects; without a community, no row is returned or
changed. -/
theorem tenants_isolated (api : ApiContext F B L) (request : Request B) (faults : List Choice) :
    (∀ (c : Nat) (s₁ s₂ : Tenancy F B), AgreeOn c s₁.toStores s₂.toStores →
      ∀ r s₁', Responds api (some c) faults request s₁.toStores r s₁' →
        ∃ r' s₂', Responds api (some c) faults request s₂.toStores r' s₂' ∧ SameUpToId r r') ∧
    (∀ (c : Nat) (s : Tenancy F B) r s', Responds api (some c) faults request s.toStores r s' →
      s.SameElsewhere c s' ∧
      ∀ run ∈ s.simulations, run.simulation.idCommunity ≠ c →
        (∀ key, run.simulation.fileStorageKey = some key → s'.sources key = s.sources key) ∧
        ∀ key, run.simulation.resultStorageKey = some key → s'.results key = s.results key) ∧
    ∀ (s : Tenancy F B) r s', Responds api none faults request s.toStores r s' →
      Bare r ∧ s' = s.toStores := by
  refine ⟨fun c s₁ s₂ hagree r s₁' h => ?_, fun c s r s' h => ?_, fun s r s' h => ?_⟩
  · exact responds_same api s₁.wellFormed s₂.wellFormed hagree h
  · have hsame := (responds_sameElsewhere api s.wellFormed h).1
    exact ⟨hsame, fun run hrun hother => objects_kept s.wellFormed hsame hrun hother⟩
  · exact responds_unscoped h

/-- Requests of other communities than `c`, or of none, one after the other. -/
inductive Meanwhile (api : ApiContext F B L) (c : Nat) : Tenancy F B → Tenancy F B → Prop
  | nothing (s : Tenancy F B) : Meanwhile api c s s
  | request {community : Option Nat} {faults : List Choice} {request : Request B}
      {r : Response F} {s s' s'' : Tenancy F B} (hother : community ≠ some c)
      (h : Responds api community faults request s.toStores r s'.toStores)
      (hrest : Meanwhile api c s' s'') : Meanwhile api c s s''

theorem Meanwhile.agreeOn {api : ApiContext F B L} {c : Nat} {s s' : Tenancy F B}
    (h : Meanwhile api c s s') : AgreeOn c s.toStores s'.toStores := by
  induction h with
  | nothing s => exact .refl c s.toStores
  | @request community faults request r s s' s'' hother h hrest ih =>
      refine .trans ?_ ih
      cases community with
      | none =>
          rw [(responds_unscoped h).2]
          exact .refl c s.toStores
      | some d =>
          have hne : d ≠ c := fun heq => hother (by rw [heq])
          exact agreeOn_of_sameElsewhere hne s.wellFormed (responds_sameElsewhere api s.wellFormed h).1

/-- Whatever the others have requested meanwhile, a request of the community may be
answered as before it. -/
theorem unaffected_by_others {api : ApiContext F B L} {c : Nat} {s s' : Tenancy F B}
    (hmeanwhile : Meanwhile api c s s') {request : Request B} {faults : List Choice}
    {r : Response F} {s₁ : Stores F B} (h : Responds api (some c) faults request s.toStores r s₁) :
    ∃ r' s₁', Responds api (some c) faults request s'.toStores r' s₁' ∧ SameUpToId r r' :=
  responds_same api s.wellFormed s'.wellFormed hmeanwhile.agreeOn h

/-- The run of the community 3 alone, and beside one of another community. -/
def smallTenancy (other : Option SimulationModel)
    (hother : ∀ row ∈ other, row.id = 2 ∧ row.fileStorageKey = none ∧ row.resultStorageKey = none) :
    Tenancy ℚ Unit where
  simulations := ⟨smallRow, []⟩ :: other.toList.map fun row => ⟨row, []⟩
  crm := { allocationKeys := [], sharingOperations := [], meterConsumption := [] }
  auditLog := []
  sources := fun _ => none
  results := fun _ => none
  wellFormed :=
    { simulations := by
        cases other with
        | none => simp
        | some row =>
            have hid := (hother row rfl).1
            simp only [Option.toList_some, List.map_cons, List.map_nil, hid]
            decide
      allocationKeys := List.nodup_nil
      owned := by
        have hsmall : smallRow.Owned := by
          constructor
          · intro key hkey
            obtain rfl := Option.some.inj hkey
            rfl
          · intro key hkey
            cases hkey
        intro run hrun
        rcases List.mem_cons.1 hrun with rfl | hrun
        · exact hsmall
        · obtain ⟨row, hrow, rfl⟩ := List.mem_map.1 hrun
          obtain ⟨-, hfile, hresult⟩ := hother row (by simpa using hrow)
          exact ⟨fun key hkey => by simp [hfile] at hkey, fun key hkey => by simp [hresult] at hkey⟩ }

def smallApi : ApiContext ℚ Unit String :=
  { lib := smallLib
    db :=
      { ilike := fun a b => a == b
        Key := Nat
        order := inferInstance
        key := String.length }
    midnight := fun day => day
    floatOf := fun _ => 0
    intOf := fun _ => none
    translate := fun _ text => text }

/-- The detail of the run, as answered with the other community's row present too. -/
theorem tenants_isolated_small :
    ∃ r' s₂', Responds smallApi (some 3) [.ok] (.getSimulation 1)
      (smallTenancy (some { smallRow with id := 2, idCommunity := 4, fileStorageKey := none })
        (by simp [smallRow, fileModel])).toStores r' s₂' ∧
      SameUpToId (.simulation (toSimulationDetail smallRow none)) r' := by
  refine (tenants_isolated smallApi (.getSimulation 1) [.ok]).1 3
    (smallTenancy none fun row hrow => by cases hrow) _ ?_ _ _
    ⟨rfl, .ok (toSimulationDetail smallRow none), ?_, rfl⟩
  · refine ⟨fun run hc => ?_, ⟨fun _ _ => Iff.rfl, fun _ _ => Iff.rfl, .refl _⟩,
      fun _ _ _ _ _ => rfl, fun _ _ _ _ _ => rfl⟩
    simp only [smallTenancy, Option.toList_none, Option.toList_some, List.map_nil, List.map_cons,
      List.mem_cons, List.not_mem_nil, or_false]
    refine ⟨Or.inl, fun h => h.resolve_right ?_⟩
    rintro rfl
    cases hc
  · exact ⟨.ok, [], _, (), rfl, rfl, rfl, rfl, rfl⟩

end Tenants

end SimulationKey.Theorems.Isolation
