import SimulationKey.Api.OneRequest

/-!
# One request on two stores

The same request of a community on two stores that hold the same for it. The ids
that the two insertions give differ, so rows are compared without their ids.

* **agreement** — what the statements scoped to a community find is what the
  stores agree on (`findSimulation_eq`, `CrmTables.AgreeOn.sameFor`);
* **statements** — the two sessions see the same of the simulation that the request
  is about (`Alike`), and whatever is made of a statement on the one store can be
  made of it on the other (`alike_step`);
* **programs** — each start, and the deletion once it has its row, mimics itself
  (`mimics_startSimulation`, `mimics_deleteSimulation`).
-/

namespace SimulationKey

open Kit Kit.Prog

variable {F B L α β : Type}

/-! ## Agreement -/

/-- Two lists with the same rows where `p` holds, of which there is one at most. -/
theorem find_eq_of_agree {γ κ : Type} {l l' : List γ} {key : γ → κ} {p : γ → Bool}
    (hl' : (l'.map key).Nodup) (hkey : ∀ a b, p a = true → p b = true → key a = key b)
    (hagree : ∀ a, p a = true → (a ∈ l ↔ a ∈ l')) : l.find? p = l'.find? p := by
  cases hfound : l.find? p with
  | none =>
      refine (List.find?_eq_none.2 fun a ha hp => ?_).symm
      exact List.find?_eq_none.1 hfound a ((hagree a hp).2 ha) hp
  | some a =>
      have hp := List.find?_some hfound
      have ha := (hagree a hp).1 (List.mem_of_find?_eq_some hfound)
      obtain ⟨b, hb⟩ := Option.isSome_iff_exists.1 (List.find?_isSome.2 ⟨a, ha, hp⟩)
      have heq := List.inj_on_of_nodup_map hl' ha (List.mem_of_find?_eq_some hb)
        (hkey a b hp (List.find?_some hb))
      rw [hb, heq]

/-- What the CRM holds for a community. -/
structure CrmTables.AgreeOn (c : Nat) (crm crm' : CrmTables F) : Prop where
  allocationKeys : ∀ row : AllocationKeyRow F, row.idCommunity = c →
    (row ∈ crm.allocationKeys ↔ row ∈ crm'.allocationKeys)
  sharingOperations : ∀ row : SharingOperationRow, row.idCommunity = c →
    (row ∈ crm.sharingOperations ↔ row ∈ crm'.sharingOperations)
  meterConsumption : (crm.meterConsumption.filter (·.idCommunity = c)).Perm
    (crm'.meterConsumption.filter (·.idCommunity = c))

/-- What the statements scoped to a community find. -/
structure CrmTables.SameFor (c : Nat) (midnight : Nat → Int) (crm crm' : CrmTables F) : Prop where
  keys : ∀ idKey, crm.findKey idKey c = crm'.findKey idKey c
  operations : ∀ operation, crm.hasSharingOperation c operation = crm'.hasSharingOperation c operation
  readings : ∀ operation start stop, (crm.readingsIn midnight c operation start stop).Perm
    (crm'.readingsIn midnight c operation start stop)

theorem CrmTables.AgreeOn.sameFor {c : Nat} {crm crm' : CrmTables F} (h : crm.AgreeOn c crm')
    (hcrm' : (crm'.allocationKeys.map (·.id)).Nodup) (midnight : Nat → Int) : crm.SameFor c midnight crm' := by
  refine ⟨fun idKey => ?_, fun operation => ?_, fun operation start stop => ?_⟩
  · refine find_eq_of_agree hcrm' (fun a b ha hb => ?_) fun a ha => ?_
    · simp only [decide_eq_true_eq] at ha hb
      rw [ha.1, hb.1]
    · simp only [decide_eq_true_eq] at ha
      exact h.allocationKeys a ha.2
  · simp only [hasSharingOperation]
    rw [Bool.eq_iff_iff, List.any_eq_true, List.any_eq_true]
    constructor
    · rintro ⟨row, hrow, hscoped⟩
      exact ⟨row, (h.sharingOperations row (by simpa using (of_decide_eq_true hscoped).2)).1 hrow,
        hscoped⟩
    · rintro ⟨row, hrow, hscoped⟩
      exact ⟨row, (h.sharingOperations row (by simpa using (of_decide_eq_true hscoped).2)).2 hrow,
        hscoped⟩
  · -- the readings are among the community's
    have hfilter : ∀ tables : CrmTables F, tables.readingsIn midnight c operation start stop =
        ((tables.meterConsumption.filter (·.idCommunity = c)).filter fun row =>
          row.idSharingOperation = operation ∧ midnight start ≤ row.reading.timestamp ∧
            row.reading.timestamp < midnight stop).map (·.reading) := by
      intro tables
      rw [readingsIn, List.filter_filter]
      congr 1
      refine List.filter_congr fun row _ => ?_
      rw [Bool.and_comm, ← Bool.decide_and]
    rw [hfilter, hfilter]
    exact (h.meterConsumption.filter _).map _

/-! ## Rows without their ids -/

def SimulationModel.idless (row : SimulationModel) : SimulationModel := { row with id := 0 }

def StoredSimulation.idless (run : StoredSimulation F) : StoredSimulation F :=
  { run with simulation := run.simulation.idless }

def Change.idless : Change → Change
  | insert row => insert row.idless
  | update values => update values
  | delete => delete

theorem onFound_idless {own own' : Nat} {found found' : Option (StoredSimulation F)}
    {change change' : Change} (hfound : found.map (·.idless) = found'.map (·.idless))
    (hchange : change.idless = change'.idless) :
    (change.onFound own found).map (·.idless) = (change'.onFound own' found').map (·.idless) := by
  cases change with
  | insert row =>
      cases change' with
      | insert row' =>
          have hrow : row.idless = row'.idless := Change.insert.inj hchange
          cases found with
          | none =>
              have hnone : found' = none := Option.map_eq_none_iff.1 hfound.symm
              subst hnone
              simp only [Change.onFound, Option.none_or, Option.map_some]
              exact congrArg (fun r => some (⟨r, []⟩ : StoredSimulation F)) hrow
          | some run =>
              obtain ⟨run', rfl, -⟩ := Option.map_eq_some_iff.1 hfound.symm
              exact hfound
      | update | delete => cases hchange
  | update values =>
      cases change' with
      | update values' =>
          obtain rfl : values = values' := Change.update.inj hchange
          cases found with
          | none =>
              have hnone : found' = none := Option.map_eq_none_iff.1 hfound.symm
              subst hnone
              rfl
          | some run =>
              obtain ⟨run', rfl, hrun⟩ := Option.map_eq_some_iff.1 hfound.symm
              have hset : ∀ run : StoredSimulation F,
                  (⟨run.simulation.set values, run.keyResults⟩ : StoredSimulation F).idless =
                    ⟨run.idless.simulation.set values, run.idless.keyResults⟩ := fun _ => rfl
              simp only [Change.onFound, Option.map_some, hset, hrun]
      | insert | delete => cases hchange
  | delete =>
      cases change' with
      | delete => rfl
      | insert | update => cases hchange

theorem foldl_onFound_idless {own own' : Nat} {changes changes' : List Change}
    (hchanges : changes.map (·.idless) = changes'.map (·.idless))
    {found found' : Option (StoredSimulation F)}
    (hfound : found.map (·.idless) = found'.map (·.idless)) :
    (changes.foldl (Change.onFound own) found).map (·.idless) =
      (changes'.foldl (Change.onFound own') found').map (·.idless) := by
  induction changes generalizing changes' found found' with
  | nil =>
      obtain rfl : changes' = [] := List.map_eq_nil_iff.1 hchanges.symm
      exact hfound
  | cons change rest ih =>
      cases changes' with
      | nil => cases hchanges
      | cons change' rest' =>
          obtain ⟨hhead, htail⟩ := List.cons.inj hchanges
          exact ih htail (onFound_idless hfound hhead)

/-! ## Two requests under way -/

/-- What two requests see of their simulations, and of the community's tables. -/
structure Alike (c : Nat) (midnight : Nat → Int) (own own' : Nat) (s s' : InRequest F B) :
    Prop where
  crm : s.stores.crm.SameFor c midnight s'.stores.crm
  row : (s.stores.simulations.find? (·.simulation.id = own)).map (·.idless) =
    (s'.stores.simulations.find? (·.simulation.id = own')).map (·.idless)
  staged : ∀ k, (s.staged k).map (·.idless) = (s'.staged k).map (·.idless)

section Steps

variable {c own own' : Nat} {midnight : Nat → Int} {s s' t : InRequest F B}

theorem Alike.found (h : Alike c midnight own own' s s') (k : SessionKind) :
    (s.found own k).map (·.idless) = (s'.found own' k).map (·.idless) := by
  rw [found_eq, found_eq]
  exact foldl_onFound_idless (h.staged k) h.row

theorem Alike.isSome_found (h : Alike c midnight own own' s s') (k : SessionKind) :
    (s.found own k).isSome = (s'.found own' k).isSome := by
  have hsome := congrArg Option.isSome (h.found k)
  simpa using hsome

theorem staged_update_idless (h : ∀ k, (s.staged k).map (·.idless) = (s'.staged k).map (·.idless))
    (k : SessionKind) {changes changes' : List Change}
    (hchanges : changes.map (·.idless) = changes'.map (·.idless)) (k' : SessionKind) :
    (Function.update s.staged k changes k').map (·.idless) =
      (Function.update s'.staged k changes' k').map (·.idless) := by
  by_cases hk : k' = k
  · subst hk
    rw [Function.update_self, Function.update_self]
    exact hchanges
  · rw [Function.update_of_ne hk, Function.update_of_ne hk]
    exact h k'

theorem Alike.stage (h : Alike c midnight own own' s s') (k : SessionKind)
    {change change' : Change} (hchange : change.idless = change'.idless) :
    Alike c midnight own own' (s.stage k change) (s'.stage k change') :=
  { crm := h.crm
    row := h.row
    staged := staged_update_idless h.staged k (by
      rw [List.map_append, List.map_append, h.staged k]
      simp [hchange]) }

theorem Alike.commit (h : Alike c midnight own own' s s') (k : SessionKind) :
    Alike c midnight own own' (s.commit own k) (s'.commit own' k) :=
  { crm := h.crm
    row := h.found k
    staged := staged_update_idless h.staged k rfl }

theorem Alike.rollback (h : Alike c midnight own own' s s') (k : SessionKind) :
    Alike c midnight own own' (s.rollback k) (s'.rollback k) :=
  { crm := h.crm
    row := h.row
    staged := staged_update_idless h.staged k rfl }

theorem Alike.deleteObject (h : Alike c midnight own own' s s') (key : Option ObjectKey) :
    Alike c midnight own own' (s.deleteObject key) (s'.deleteObject key) := by
  cases key with
  | none => exact h
  | some key =>
      cases key with
      | source key => exact ⟨h.crm, h.row, h.staged⟩
      | result key => exact ⟨h.crm, h.row, h.staged⟩

/-- The statements that are passed the community. -/
def Op.Scoped (c : Nat) : Op F B → Prop
  | getAllocationKey _ idCommunity | sharingOperationExists idCommunity _
  | summarize idCommunity .. => idCommunity = c
  | _ => False

/-- Operations that are answered the same: these, and those that answer nothing
about a row. -/
def Op.Shared (c : Nat) : Op F B → Prop
  | getAllocationKey _ idCommunity | sharingOperationExists idCommunity _
  | summarize idCommunity .. => idCommunity = c
  | updateRow .. | deleteRow _ | commitLocal _ | closeLocal _ | logAudit .. | commitCrm _
  | closeCrm _ | upload .. | delete _ | readUpload _ => True
  | _ => False

variable [PyFloat F] {o : Op F B}

theorem scoped_answer (ho : o.Scoped c) (hcrm : s.stores.crm.SameFor c midnight s'.stores.crm)
    {r : Except Exn o.Resp} (hanswer : requestAnswer midnight own o s r t) :
    t = s ∧ requestAnswer midnight own' o s' r s' := by
  cases o with
  | getAllocationKey idKey idCommunity =>
      obtain rfl : idCommunity = c := ho
      obtain ⟨rfl, hkey⟩ := hanswer
      rw [hcrm.keys idKey] at hkey
      exact ⟨rfl, rfl, hkey⟩
  | sharingOperationExists idCommunity operation =>
      obtain rfl : idCommunity = c := ho
      obtain ⟨rfl, rfl⟩ := hanswer
      exact ⟨rfl, by rw [hcrm.operations], rfl⟩
  | summarize idCommunity operation periodStart periodEnd =>
      obtain rfl : idCommunity = c := ho
      obtain ⟨rfl, hsummary⟩ := hanswer
      refine ⟨rfl, rfl, ?_⟩
      cases hbounds : sentBounds periodStart periodEnd with
      | error text =>
          rw [hbounds] at hsummary
          exact hsummary
      | ok bounds =>
          rw [hbounds] at hsummary
          obtain ⟨readings, hperm, hr⟩ := hsummary
          exact ⟨readings, hperm.trans (hcrm.readings operation bounds.1 bounds.2), hr⟩
  | _ => exact ho.elim

theorem scoped_step (ho : o.Scoped c) (hcrm : s.stores.crm.SameFor c midnight s'.stores.crm)
    {choice : Choice} {r : Except Exn o.Resp} (hmay : requestMay midnight own o choice s r t) :
    t = s ∧ requestMay midnight own' o choice s' r s' := by
  cases choice with
  | ok => exact scoped_answer ho hcrm hmay
  | fail e =>
      obtain ⟨hraise, hopen, rfl, rfl⟩ := hmay
      exact ⟨rfl, hraise, hopen, rfl, rfl⟩
  | lost e =>
      obtain ⟨hraise, rfl, r', hgone⟩ := hmay
      obtain ⟨rfl, hanswer'⟩ : t = s ∧ requestAnswer midnight own' o s' r' s' :=
        scoped_answer ho hcrm hgone
      exact ⟨rfl, hraise, rfl, r', hanswer'⟩
  | swallowed =>
      obtain ⟨a, hswallow, rfl, rfl⟩ := hmay
      exact ⟨rfl, a, hswallow, rfl, rfl⟩

theorem alike_answer (ho : o.Shared c) (h : Alike c midnight own own' s s') {r : Except Exn o.Resp}
    (hanswer : requestAnswer midnight own o s r t) :
    ∃ t', requestAnswer midnight own' o s' r t' ∧ Alike c midnight own own' t t' := by
  have hscoped : o.Scoped c → ∃ t', requestAnswer midnight own' o s' r t' ∧
      Alike c midnight own own' t t' := by
    intro hscope
    obtain ⟨rfl, hanswer'⟩ : t = s ∧ requestAnswer midnight own' o s' r s' :=
      scoped_answer hscope h.crm hanswer
    exact ⟨s', hanswer', h⟩
  cases o with
  | getAllocationKey | sharingOperationExists | summarize => exact hscoped ho
  | updateRow k values =>
      simp only [requestAnswer] at hanswer ⊢
      rw [← h.isSome_found k]
      split_ifs at hanswer ⊢ with hempty hfound
      · obtain ⟨hr, rfl⟩ := hanswer
        exact ⟨s', ⟨hr, rfl⟩, h⟩
      · obtain ⟨hr, rfl⟩ := hanswer
        exact ⟨_, ⟨hr, rfl⟩, h.stage k rfl⟩
      · obtain ⟨hr, rfl⟩ := hanswer
        exact ⟨s', ⟨hr, rfl⟩, h⟩
  | deleteRow k =>
      obtain ⟨hr, rfl⟩ := hanswer
      exact ⟨_, ⟨hr, rfl⟩, h.stage k rfl⟩
  | commitLocal k =>
      obtain ⟨hr, rfl⟩ := hanswer
      exact ⟨_, ⟨hr, rfl⟩, h.commit k⟩
  | closeLocal k =>
      obtain ⟨hr, rfl⟩ := hanswer
      exact ⟨_, ⟨hr, rfl⟩, h.rollback k⟩
  | logAudit | commitCrm | closeCrm | upload =>
      obtain ⟨hr, rfl⟩ := hanswer
      exact ⟨_, ⟨hr, rfl⟩, ⟨h.crm, h.row, h.staged⟩⟩
  | delete key =>
      obtain ⟨hr, rfl⟩ := hanswer
      exact ⟨_, ⟨hr, rfl⟩, h.deleteObject key⟩
  | publish | readUpload =>
      obtain ⟨hr, rfl⟩ := hanswer
      exact ⟨s', ⟨hr, rfl⟩, h⟩
  | _ => exact ho.elim

/-- Whatever the outside makes of two statements that are answered alike. -/
theorem mimics_perform (o o' : Op F B) {V : o.Resp → o'.Resp → Prop}
    (hraises : ∀ e, o.raises e = o'.raises e) (hcloses : o.closes = o'.closes)
    (hswallows : ∀ a, o.swallows = some a → ∃ a', o'.swallows = some a' ∧ V a a')
    (h : Alike c midnight own own' s s')
    (hanswer : ∀ r t, requestAnswer midnight own o s r t → ∃ r' t',
      requestAnswer midnight own' o' s' r' t' ∧ Outcomes V r r' ∧ Alike c midnight own own' t t') :
    Mimics (requestMay midnight own) (requestMay midnight own') (Alike c midnight own own') V
      (await o) s (await o') s' := by
  refine .perform o o' fun choice r t hmay => ?_
  cases choice with
  | ok => exact hanswer r t hmay
  | fail e =>
      obtain ⟨hraise, hopen, rfl, rfl⟩ := hmay
      exact ⟨.error e, s', ⟨hraises e ▸ hraise, hcloses ▸ hopen, rfl, rfl⟩, .error e, h⟩
  | lost e =>
      obtain ⟨hraise, rfl, r', hgone⟩ := hmay
      obtain ⟨r'', t', hanswer', -, ht⟩ := hanswer r' t hgone
      exact ⟨.error e, t', ⟨hraises e ▸ hraise, rfl, r'', hanswer'⟩, .error e, ht⟩
  | swallowed =>
      obtain ⟨a, hswallow, rfl, rfl⟩ := hmay
      obtain ⟨a', hswallow', hV⟩ := hswallows a hswallow
      exact ⟨.ok a', s', ⟨a', hswallow', rfl, rfl⟩, .ok hV, h⟩

theorem alike_step (ho : o.Shared c) (h : Alike c midnight own own' s s') {choice : Choice}
    {r : Except Exn o.Resp} (hmay : requestMay midnight own o choice s r t) :
    ∃ t', requestMay midnight own' o choice s' r t' ∧ Alike c midnight own own' t t' := by
  cases choice with
  | ok => exact alike_answer ho h hmay
  | fail e =>
      obtain ⟨hraise, hopen, rfl, rfl⟩ := hmay
      exact ⟨s', ⟨hraise, hopen, rfl, rfl⟩, h⟩
  | lost e =>
      obtain ⟨hraise, rfl, r', hgone⟩ := hmay
      obtain ⟨t', hanswer', ht⟩ := alike_answer ho h hgone
      exact ⟨t', ⟨hraise, rfl, r', hanswer'⟩, ht⟩
  | swallowed =>
      obtain ⟨a, hswallow, rfl, rfl⟩ := hmay
      exact ⟨s', ⟨a, hswallow, rfl, rfl⟩, h⟩

/-- A program of such operations. -/
theorem mimics_shared {p : Act F B α} (hops : p.AllOps (Op.Shared c))
    (h : Alike c midnight own own' s s') :
    Mimics (requestMay midnight own) (requestMay midnight own') (Alike c midnight own own') Eq
      p s p s' :=
  .of_allOps (hops.mono fun _ ho _ _ _ _ _ hS hmay => alike_step ho hS hmay) h

/-! ## Statements about the two rows -/

theorem mimics_getRow (k : SessionKind) (h : Alike c midnight own own' s s') :
    Mimics (requestMay midnight own) (requestMay midnight own') (Alike c midnight own own')
      (fun row row' => row.map (·.idless) = row'.map (·.idless))
      (await (.getRow k) : Act F B _) s (await (.getRow k)) s' := by
  refine mimics_perform (.getRow k) (.getRow k) (fun _ => rfl) rfl (fun _ hnone => by cases hnone) h
    fun r t hanswer => ?_
  obtain ⟨rfl, rfl⟩ := hanswer
  refine ⟨_, s', ⟨rfl, rfl⟩, .ok ?_, h⟩
  have hfound := congrArg (Option.map (·.simulation)) (h.found k)
  simp only [Option.map_map] at hfound ⊢
  exact hfound

theorem mimics_insertRow (k : SessionKind) {row row' : SimulationModel}
    (hrow : row.idless = row'.idless) (h : Alike c midnight own own' s s') :
    Mimics (requestMay midnight own) (requestMay midnight own') (Alike c midnight own own')
      (fun _ _ => True) (await (.insertRow k row) : Act F B _) s (await (.insertRow k row')) s' := by
  refine mimics_perform (.insertRow k row) (.insertRow k row') (fun e => by cases e <;> rfl) rfl
    (fun _ hnone => by cases hnone) h fun r t hanswer => ?_
  have hfits : row'.fits = row.fits := (congrArg SimulationModel.fits hrow).symm
  simp only [requestAnswer] at hanswer ⊢
  rw [← h.isSome_found k, hfits]
  split_ifs at hanswer ⊢ with hfound hshort
  · obtain ⟨rfl, rfl⟩ := hanswer
    exact ⟨_, s', ⟨rfl, rfl⟩, .error _, h⟩
  · obtain ⟨rfl, rfl⟩ := hanswer
    exact ⟨_, _, ⟨rfl, rfl⟩, .ok trivial, h.stage k (congrArg Change.insert hrow)⟩
  · obtain ⟨rfl, rfl⟩ := hanswer
    exact ⟨_, s', ⟨rfl, rfl⟩, .error _, h⟩

theorem mimics_logAudit (k : SessionKind) (entry entry' : AuditEntry)
    (h : Alike c midnight own own' s s') :
    Mimics (requestMay midnight own) (requestMay midnight own') (Alike c midnight own own') Eq
      (await (.logAudit k entry) : Act F B Unit) s (await (.logAudit k entry')) s' := by
  refine mimics_perform (.logAudit k entry) (.logAudit k entry') (fun _ => rfl) rfl
    (fun a hsome => ⟨a, hsome, rfl⟩) h fun r t hanswer => ?_
  obtain ⟨rfl, rfl⟩ := hanswer
  exact ⟨.ok (), _, ⟨rfl, rfl⟩, .ok rfl, ⟨h.crm, h.row, h.staged⟩⟩

/-- The two runs may announce different rows. -/
theorem mimics_publish (subject : String) (event event' : Event)
    (h : Alike c midnight own own' s s') :
    Mimics (requestMay midnight own) (requestMay midnight own') (Alike c midnight own own') Eq
      (await (.publish subject event) : Act F B Unit) s (await (.publish subject event')) s' := by
  refine mimics_perform (.publish subject event) (.publish subject event')
    (fun e => by cases e <;> rfl) rfl (fun _ hnone => by cases hnone) h fun r t hanswer => ?_
  obtain ⟨rfl, rfl⟩ := hanswer
  exact ⟨.ok (), s', ⟨rfl, rfl⟩, .ok rfl, h⟩

/-! ## Programs -/

theorem mimics_next {γ δ : Type} {V : α → β → Prop} {W : γ → δ → Prop} {p : Act F B α}
    {p' : Act F B β} {f : α → Act F B γ} {f' : β → Act F B δ}
    (hp : Mimics (requestMay midnight own) (requestMay midnight own') (Alike c midnight own own') V
      p s p' s')
    (hf : ∀ a a' t t', V a a' → Alike c midnight own own' t t' →
      Mimics (requestMay midnight own) (requestMay midnight own') (Alike c midnight own own') W
        (f a) t (f' a') t') :
    Mimics (requestMay midnight own) (requestMay midnight own') (Alike c midnight own own') W
      (p >>= f) s (p' >>= f') s' :=
  .bind hp (fun _ _ hS => hS) hf

theorem mimics_markFailedToQueue (id id' : Nat) (reason : String)
    (h : Alike c midnight own own' s s') :
    Mimics (requestMay midnight own) (requestMay midnight own') (Alike c midnight own own') Eq
      (markFailedToQueue id reason : Act F B Unit) s (markFailedToQueue id' reason) s' := by
  refine mimics_next (V := Eq) (.ensuring (mimics_next (mimics_getRow .own h)
    fun row row' t t' hrow ht => ?_) fun t t' ht => mimics_shared (.perform trivial) ht)
    fun marked marked' t t' hmarked ht => ?_
  · cases row with
    | none =>
        obtain rfl : row' = none := Option.map_eq_none_iff.1 hrow.symm
        exact .ret ht (.ok rfl)
    | some row =>
        obtain ⟨row', rfl, hidless⟩ := Option.map_eq_some_iff.1 hrow.symm
        have heq : row'.idless = row.idless := hidless
        have hchanged : ∀ m, changedBy row' .failed m = changedBy row .failed m := fun m =>
          show changedBy row'.idless .failed m = changedBy row.idless .failed m by rw [heq]
        have hcommunity : row'.idCommunity = row.idCommunity :=
          show row'.idless.idCommunity = row.idless.idCommunity by rw [heq]
        simp only [hcommunity]
        rw [hchanged]
        exact mimics_shared (.bind (.perform trivial) fun _ => .bind (.perform trivial)
          fun _ => trivial) ht
  · obtain rfl := hmarked
    cases marked with
    | none => exact .ret ht (.ok rfl)
    | some community =>
        exact .ensuring (mimics_next (mimics_logAudit .own _ _ ht) fun _ _ t₁ t₁' _ ht₁ =>
          mimics_shared (.perform trivial) ht₁) fun t₁ t₁' ht₁ =>
            mimics_shared (.perform trivial) ht₁

theorem mimics_publishOrMark (id id' : Nat) {cleanup : Act F B Unit}
    (hcleanup : cleanup.AllOps (Op.Shared c)) (h : Alike c midnight own own' s s') :
    Mimics (requestMay midnight own) (requestMay midnight own') (Alike c midnight own own') Eq
      (publishOrMark id cleanup) s (publishOrMark id' cleanup) s' := by
  refine .tryCatch (mimics_publish simulationSubject _ _ h) fun e t t' ht => ?_
  by_cases he : e.isException = true
  · simp only [he, if_true]
    refine mimics_next (mimics_markFailedToQueue id id' e.text ht) fun _ _ t₁ t₁' _ ht₁ => ?_
    exact mimics_next (mimics_shared hcleanup ht₁) fun _ _ t₂ t₂' _ ht₂ => .ret ht₂ (.error _)
  · simp only [he]
    exact .ret ht (.error _)

theorem mimics_createSimulation {model model' : SimulationModel}
    (hmodel : model.idless = model'.idless) (h : Alike c midnight own own' s s') :
    Mimics (requestMay midnight own) (requestMay midnight own') (Alike c midnight own own')
      (fun _ _ => True) (createSimulation model : Act F B Nat) s (createSimulation model') s' :=
  mimics_next (mimics_insertRow .request hmodel h) fun _ _ _ _ _ ht =>
    mimics_next (mimics_shared (.perform trivial) ht) fun _ _ _ _ _ ht' => .ret ht' (.ok trivial)

/-- Responses to a start, but for the id. -/
def SameStatus (a a' : SimulateResponse) : Prop := a.status = a'.status

theorem mimics_startSimulation (lib : Libraries F B L) (newId newId' : Nat) (uuid : Uuid)
    (req : SimulateRequest) (file : UploadFile B) (h : Alike c midnight own own' s s') :
    Mimics (requestMay midnight own) (requestMay midnight own') (Alike c midnight own own')
      SameStatus (startSimulation lib newId uuid req file c) s
      (startSimulation lib newId' uuid req file c) s' := by
  refine mimics_next (V := Eq) (mimics_shared (.perform rfl) h) fun key _ t₁ t₁' hkey ht₁ => ?_
  subst hkey
  cases key with
  | none => exact .ret ht₁ (.error _)
  | some key =>
      refine mimics_next (V := Eq) (mimics_shared (allOps_readWithinCap lib file trivial) ht₁)
        fun content _ t₂ t₂' hcontent ht₂ => ?_
      subst hcontent
      by_cases hlarge : uploadTooLarge lib key content (uploadName file) = true
      · simp only [hlarge, if_true]
        exact .ret ht₂ (.error _)
      · simp only [hlarge]
        refine mimics_next (V := Eq) (mimics_shared (allOps_onException
          (.perform trivial) fun _ => trivial) ht₂) fun _ _ t₃ t₃' _ ht₃ => ?_
        refine mimics_next (V := fun _ _ => True) (.tryCatch (mimics_createSimulation rfl ht₃)
          fun e t t' ht => ?_) fun id id' t₄ t₄' _ ht₄ => ?_
        · split_ifs
          · exact mimics_next (mimics_shared (.perform trivial) ht) fun _ _ _ _ _ ht' =>
              .ret ht' (.error _)
          · exact .ret ht (.error _)
        refine mimics_next (mimics_logAudit .request _ _ ht₄) fun _ _ t₅ t₅' _ ht₅ => ?_
        exact mimics_next (mimics_publishOrMark id id' (.perform trivial) ht₅)
          fun _ _ t₆ t₆' _ ht₆ => .ret ht₆ (.ok rfl)

theorem mimics_startSimulationFromCrm (newId newId' : Nat) (req : SimulateFromCrmRequest)
    (h : Alike c midnight own own' s s') :
    Mimics (requestMay midnight own) (requestMay midnight own') (Alike c midnight own own')
      SameStatus (startSimulationFromCrm newId req c : Act F B _) s
      (startSimulationFromCrm newId' req c) s' := by
  refine mimics_next (V := Eq) (mimics_shared (.perform rfl) h) fun key _ t₁ t₁' hkey ht₁ => ?_
  subst hkey
  cases key with
  | none => exact .ret ht₁ (.error _)
  | some key =>
      refine mimics_next (V := Eq) (mimics_shared (allOps_previewCrmData _ _ _ _ _ rfl rfl rfl) ht₁)
        fun preflight _ t₂ t₂' hpreflight ht₂ => ?_
      subst hpreflight
      cases hblockers : preflight.blockers with
      | cons first rest => exact .ret ht₂ (.error _)
      | nil =>
          refine mimics_next (mimics_createSimulation rfl ht₂) fun id id' t₃ t₃' _ ht₃ => ?_
          refine mimics_next (mimics_logAudit .request _ _ ht₃) fun _ _ t₄ t₄' _ ht₄ => ?_
          exact mimics_next (mimics_publishOrMark id id' trivial ht₄) fun _ _ t₅ t₅' _ ht₅ =>
            .ret ht₅ (.ok rfl)

/-- The preview asks the stores for no row. -/
theorem mimics_previewCrmData (idKey operation periodStart periodEnd : Nat)
    (h : s.stores.crm.SameFor c midnight s'.stores.crm) :
    Mimics (requestMay midnight own) (requestMay midnight own')
      (fun t t' => t.stores.crm.SameFor c midnight t'.stores.crm) Eq
      (previewCrmData idKey operation periodStart periodEnd c : Act F B _) s
      (previewCrmData idKey operation periodStart periodEnd c) s' := by
  have hscoped : ∀ o : Op F B, o.Scoped c → ∀ choice (t t' : InRequest F B) r v,
      t.stores.crm.SameFor c midnight t'.stores.crm → requestMay midnight own o choice t r v →
      ∃ v', requestMay midnight own' o choice t' r v' ∧
        v.stores.crm.SameFor c midnight v'.stores.crm := by
    intro o ho choice t t' r v hcrm hmay
    obtain ⟨rfl, hmay'⟩ : v = t ∧ requestMay midnight own' o choice t' r t' :=
      scoped_step ho hcrm hmay
    exact ⟨t', hmay', hcrm⟩
  exact .of_allOps (allOps_previewCrmData _ _ _ _ _ (hscoped _ rfl) (hscoped _ rfl)
    (hscoped _ rfl)) h

/-! ## Sessions -/

/-- Closing a session asks nothing of the stores. -/
theorem mimics_close {o : Op F B} (ho : o = .closeCrm .request ∨ o = .closeLocal .request)
    (t t' : InRequest F B) :
    Mimics (requestMay midnight own) (requestMay midnight own') (fun _ _ => True) Eq
      (await o) t (await o) t' := by
  refine .perform o o fun choice r v hmay => ?_
  rcases ho with rfl | rfl
  · cases choice with
    | ok =>
        obtain ⟨rfl, rfl⟩ := hmay
        exact ⟨.ok (), _, ⟨rfl, rfl⟩, .ok rfl, trivial⟩
    | fail e => cases hmay.2.1
    | lost e =>
        obtain ⟨hraise, rfl, r', -, -⟩ := hmay
        exact ⟨.error e, _, ⟨hraise, rfl, .ok (), rfl, rfl⟩, .error e, trivial⟩
    | swallowed =>
        obtain ⟨a, hnone, -⟩ := hmay
        cases hnone
  · cases choice with
    | ok =>
        obtain ⟨rfl, rfl⟩ := hmay
        exact ⟨.ok (), _, ⟨rfl, rfl⟩, .ok rfl, trivial⟩
    | fail e => cases hmay.2.1
    | lost e =>
        obtain ⟨hraise, rfl, r', -, -⟩ := hmay
        exact ⟨.error e, _, ⟨hraise, rfl, .ok (), rfl, rfl⟩, .error e, trivial⟩
    | swallowed =>
        obtain ⟨a, hnone, -⟩ := hmay
        cases hnone

theorem mimics_withRequestSessions {V : α → β → Prop} {p : Act F B α} {p' : Act F B β}
    (hp : Mimics (requestMay midnight own) (requestMay midnight own') (fun _ _ => True) V p s p' s') :
    Mimics (requestMay midnight own) (requestMay midnight own') (fun _ _ => True) V
      (withRequestSessions p) s (withRequestSessions p') s' :=
  .ensuring (.ensuring hp fun t t' _ => mimics_close (.inl rfl) t t')
    fun t t' _ => mimics_close (.inr rfl) t t'

/-! ## Deletion -/

/-- The first query of a deletion. -/
theorem mimics_getSimulationRow {id : Nat} {S : InRequest F B → InRequest F B → Prop}
    {s₁ s₂ : Stores F B} (hfound : findSimulation (some c) s₁.simulations id =
      findSimulation (some c) s₂.simulations id) (hS : S s₁.begin s₂.begin) :
    Mimics (requestMay midnight id) (requestMay midnight id) S
      (fun row row' => row' = row ∧
        row = (findSimulation (some c) s₁.simulations id).map (·.simulation))
      (await (.getSimulationRow .request c) : Act F B _) s₁.begin
      (await (.getSimulationRow .request c)) s₂.begin := by
  refine .perform (Op.getSimulationRow .request c) (Op.getSimulationRow .request c)
    fun choice r v hmay => ?_
  cases choice with
  | ok =>
      obtain ⟨rfl, rfl⟩ := hmay
      refine ⟨_, _, ⟨rfl, rfl⟩, .ok ⟨?_, rfl⟩, hS⟩
      exact congrArg (Option.map (·.simulation)) hfound.symm
  | fail e =>
      obtain ⟨hraise, hopen, rfl, rfl⟩ := hmay
      exact ⟨.error e, _, ⟨hraise, hopen, rfl, rfl⟩, .error e, hS⟩
  | lost e =>
      obtain ⟨hraise, rfl, r', -, rfl⟩ := hmay
      exact ⟨.error e, _, ⟨hraise, rfl, _, rfl, rfl⟩, .error e, hS⟩
  | swallowed =>
      obtain ⟨a, hnone, -⟩ := hmay
      cases hnone

theorem mimics_deleteSimulation {id : Nat} {s₁ s₂ : Stores F B}
    (hcrm : s₁.crm.SameFor c midnight s₂.crm)
    (hfound : findSimulation (some c) s₁.simulations id =
      findSimulation (some c) s₂.simulations id)
    (hids₁ : (s₁.simulations.map (·.simulation.id)).Nodup)
    (hids₂ : (s₂.simulations.map (·.simulation.id)).Nodup) :
    Mimics (requestMay midnight id) (requestMay midnight id) (fun _ _ => True) Eq
      (deleteSimulation id c : Act F B Unit) s₁.begin (deleteSimulation id c) s₂.begin := by
  cases hrun : findSimulation (some c) s₁.simulations id with
  | none =>
      refine .bind (S := fun _ _ => True) (mimics_getSimulationRow hfound trivial)
        (fun _ _ _ => trivial) fun row row' t t' hrow _ => ?_
      obtain ⟨rfl, rfl⟩ := hrow
      rw [hrun]
      exact .ret trivial (.error _)
  | some run =>
      -- the same row in both, the only one of its id
      have hone : ∀ {s : Stores F B}, (s.simulations.map (·.simulation.id)).Nodup →
          findSimulation (some c) s.simulations id = some run →
          s.simulations.find? (·.simulation.id = id) = some run := by
        intro s hids hsome
        obtain ⟨hmem, -⟩ := List.mem_filter.1 (List.mem_of_find?_eq_some hsome)
        have hid : run.simulation.id = id := by simpa using List.find?_some hsome
        obtain ⟨run', hrun'⟩ : ∃ run', s.simulations.find? (·.simulation.id = id) = some run' :=
          Option.isSome_iff_exists.1 (List.find?_isSome.2 ⟨run, hmem, by simpa using hid⟩)
        have hid' : run'.simulation.id = id := by simpa using List.find?_some hrun'
        rw [hrun', List.inj_on_of_nodup_map hids (List.mem_of_find?_eq_some hrun') hmem
          (hid'.trans hid.symm)]
      have halike : Alike c midnight id id s₁.begin s₂.begin :=
        { crm := hcrm
          row := by
            show (s₁.simulations.find? _).map _ = (s₂.simulations.find? _).map _
            rw [hone hids₁ hrun, hone hids₂ (hfound ▸ hrun)]
          staged := fun _ => rfl }
      refine .bind (S := Alike c midnight id id) (mimics_getSimulationRow hfound halike)
        (fun _ _ _ => trivial) fun row row' t t' hrow ht => ?_
      obtain ⟨rfl, rfl⟩ := hrow
      rw [hrun]
      refine (mimics_shared ?_ ht).mono (fun _ _ _ => trivial) fun _ _ h => h
      refine .bind (.perform trivial) fun _ => .bind (.perform trivial) fun _ =>
        .bind (.perform trivial) fun _ => ?_
      simp only []
      cases run.simulation.resultStorageKey with
      | none => exact .perform trivial
      | some key => exact .bind (.perform trivial) fun _ => .perform trivial

end Steps

end SimulationKey
