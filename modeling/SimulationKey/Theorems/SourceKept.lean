import SimulationKey.Kit.Watched
import SimulationKey.Theorems.Finality
import SimulationKey.Theorems.Settlement

/-!
# The upload outlives the need for it

Starts, deletions and deliveries of a simulation over an upload, at once and in
any order. An upload's deletion is issued after the row has its outcome or is
gone, or by a start whose row was never committed; a row that is settled stays so.

* **watch** — `Ghost` says which task starts the simulation, and whether an
  upload's deletion has been issued; a commit that raises has not committed.
* **programs** — the deliveries and what follows a creation are safe as they are
  in `Settlement`; a start and a deletion have triples of their own.
-/

namespace SimulationKey.Theorems.SourceKept

open Kit Kit.Prog Kit.Discipline Kit.Text

variable {F B L α : Type}

/-! ## The watch -/

structure Ghost where
  creator : Option Nat
  issued : Bool

/-- The row says that its upload is missing. -/
def SaysMissing (row : Option SimulationModel) : Prop :=
  ∃ r, row = some r ∧ r.errorMessage = some "storage_object_missing"

/-- The world and the ghost state. -/
abbrev Watching (F B : Type) : Type := World F B × Ghost

/-- The creator's own row is not committed, and no deletion is issued. -/
def Untouched (t : Nat) (w : Watching F B) : Prop :=
  w.2.creator = some t ∧ w.1.db.created = false ∧ w.2.issued = false

structure Inv (w : Watching F B) : Prop where
  world : Settlement.Inv w.1
  unstarted : w.1.started = false → w.2.creator = none
  uncreated : w.2.creator = none → w.1.db.created = false ∧ w.2.issued = false
  staged : w.1.db.created = false → ∀ tx, w.1.db.tx = some tx →
    w.2.creator = some tx.owner.task ∧ tx.owner.kind = .request
  issued : w.2.issued = true → w.1.db.created = true → Settlement.Settled w.1.db
  missing : ∀ tx, w.1.db.tx = some tx → w.1.db.created = false ∨
    (∃ row, w.1.db.row = some row ∧ row.status = .pending) ∨
      (SaysMissing tx.row → SaysMissing w.1.db.row)

structure Rely (t : Nat) (w w' : Watching F B) : Prop where
  world : Settlement.Rely t w.1 w'.1
  untouched : Untouched t w → Untouched t w'

/-- A row is inserted by its creator; its creation is committed before an upload's
deletion, which needs the row settled or never created; a flush does not say that
the upload is missing. -/
def Pre (t : Nat) : Op F B → Watching F B → Prop
  | .insertRow s _, w => s = .request ∧ w.2.creator = some t
  | .commitLocal .request, w => w.1.db.created = false → w.2.issued = false
  | .delete (some (.source _)), w => Settlement.Settled w.1.db ∨ Untouched t w
  | .updateRow s values, w =>
    Settlement.Pre t (.updateRow s values) w.1 ∧
      values.errorMessage ≠ some (some "storage_object_missing")
  | o, w => Settlement.Pre t o w.1

theorem pre_world {t : Nat} {o : Op F B} {w : Watching F B} (h : Pre t o w) :
    Settlement.Pre t o w.1 := by
  cases o
  case updateRow s values => exact h.1
  all_goals first | exact h | trivial

/-! ## What a move keeps -/

/-- The row's creation is committed by its creator only, before any deletion. -/
theorem created_of_move {w : Watching F B} {t : Nat} {o : Op F B} {db : LocalDb F} (h : Inv w)
    (hpre : Pre t o w) (hmove : DbMove t w.1.db o db) (hbefore : w.1.db.created = false) :
    (db.created = false ∧ ∀ tx, db.tx = some tx →
      w.2.creator = some tx.owner.task ∧ tx.owner.kind = .request) ∨
    (o = .commitLocal .request ∧ w.2.creator = some t ∧ w.2.issued = false) := by
  have hnone : w.1.db.row = none := by
    by_contra hrow
    obtain ⟨row, hrow⟩ := Option.ne_none_iff_exists'.mp hrow
    rw [h.world.created row hrow] at hbefore
    cases hbefore
  -- what a session sees is what it has staged itself
  have hstaged : ∀ {s : SessionKind} {row : SimulationModel} {version claimed},
      w.1.db.locked ⟨t, s⟩ = false → w.1.db.visible ⟨t, s⟩ = some row →
        (w.1.db.stage ⟨t, s⟩ version claimed).created = false ∧
          ∀ tx, (w.1.db.stage ⟨t, s⟩ version claimed).tx = some tx →
            w.2.creator = some tx.owner.task ∧ tx.owner.kind = .request := by
    intro s row version claimed hfree hvisible
    refine ⟨hbefore, fun tx htx => ?_⟩
    obtain rfl := Option.some.inj htx
    rcases LocalDb.free_cases hfree with ⟨-, -, hsame⟩ | ⟨own, hown, howner, -, -⟩
    · rw [hsame, hnone] at hvisible
      cases hvisible
    · have := h.staged hbefore own hown
      rwa [howner] at this
  cases hmove with
  | same => exact Or.inl ⟨hbefore, h.staged hbefore⟩
  | claim free visible pending => exact Or.inl (hstaged free visible)
  | update sets free visible => exact Or.inl (hstaged free visible)
  | delete free visible => exact Or.inl (hstaged free visible)
  | @insert s row fresh free =>
      obtain ⟨rfl, hcreator⟩ := hpre
      refine Or.inl ⟨hbefore, fun tx htx => ?_⟩
      obtain rfl := Option.some.inj htx
      exact ⟨hcreator, rfl⟩
  | @tree s tx tree own =>
      refine Or.inl ⟨hbefore, fun tx' htx' => ?_⟩
      obtain rfl := Option.some.inj htx'
      exact h.staged hbefore tx ((LocalDb.own_eq_some _ _).mp own).1
  | commit s =>
      cases hown : w.1.db.own ⟨t, s⟩ with
      | none =>
          rw [LocalDb.commit_of_not_own hown]
          exact Or.inl ⟨hbefore, h.staged hbefore⟩
      | some tx =>
          obtain ⟨htx, howner⟩ := (LocalDb.own_eq_some _ _).mp hown
          obtain ⟨hcreator, hkind⟩ := h.staged hbefore tx htx
          rw [howner] at hcreator hkind
          obtain rfl : s = .request := hkind
          exact Or.inr ⟨rfl, hcreator, hpre hbefore⟩
  | rollback s =>
      cases hown : w.1.db.own ⟨t, s⟩ with
      | none =>
          rw [LocalDb.rollback_of_not_own hown]
          exact Or.inl ⟨hbefore, h.staged hbefore⟩
      | some tx =>
          rw [LocalDb.rollback_of_own hown]
          exact Or.inl ⟨hbefore, fun tx htx => by cases htx⟩

/-- A version that says the upload is missing is of a PENDING row, or of one that
says so. -/
theorem missing_of_move {w : Watching F B} {t : Nat} {o : Op F B} {db : LocalDb F} (h : Inv w)
    (hpre : Pre t o w) (hmove : DbMove t w.1.db o db) :
    ∀ tx, db.tx = some tx → db.created = false ∨
      (∃ row, db.row = some row ∧ row.status = .pending) ∨
        (SaysMissing tx.row → SaysMissing db.row) := by
  cases hmove with
  | same => exact h.missing
  | @claim s values row free visible pending =>
      intro tx htx
      obtain rfl := Option.some.inj htx
      rcases LocalDb.free_cases free with ⟨-, -, hsame⟩ | ⟨own, hown, -, -, hversion⟩
      · exact Or.inr (Or.inl ⟨row, hsame ▸ visible, pending⟩)
      · rcases h.missing own hown with huncreated | hpending | -
        · exact Or.inl huncreated
        · exact Or.inr (Or.inl hpending)
        · -- a settled row has no PENDING version
          by_cases hsettled : Settlement.Settled w.1.db
          · exact absurd pending (h.world.tx own hown hsettled row (hversion ▸ visible))
          · by_cases hcreated : w.1.db.created = true
            · right; left
              by_contra hno
              refine hsettled ⟨hcreated, fun row' hrow' hpending => hno ⟨row', hrow', hpending⟩⟩
            · exact Or.inl ((Bool.not_eq_true _).mp hcreated)
  | @update s values row sets free visible =>
      intro tx htx
      obtain rfl := Option.some.inj htx
      have hkept : SaysMissing (some (row.set values)) → SaysMissing (some row) := by
        rintro ⟨r, hr, hmessage⟩
        obtain rfl := Option.some.inj hr
        refine ⟨row, rfl, ?_⟩
        have hset : (row.set values).errorMessage = values.errorMessage.getD row.errorMessage := rfl
        cases hvalues : values.errorMessage with
        | none => rwa [hset, hvalues] at hmessage
        | some message =>
            rw [hset, hvalues] at hmessage
            exact absurd (hvalues.trans (congrArg some hmessage)) hpre.2
      rcases LocalDb.free_cases free with ⟨-, -, hsame⟩ | ⟨own, hown, -, -, hversion⟩
      · refine Or.inr (Or.inr fun hsays => ?_)
        have hrow : w.1.db.row = some row := hsame ▸ visible
        show SaysMissing w.1.db.row
        rw [hrow]
        exact hkept hsays
      · refine (h.missing own hown).imp_right (Or.imp_right fun hold hsays => ?_)
        have hrow : own.row = some row := hversion ▸ visible
        exact hold (hrow ▸ hkept hsays)
  | @insert s row fresh free => exact fun _ _ => Or.inl fresh
  | @delete s row free visible =>
      intro tx htx
      obtain rfl := Option.some.inj htx
      refine Or.inr (Or.inr ?_)
      rintro ⟨r, hr, -⟩
      cases hr
  | @tree s tx tree own =>
      intro tx' htx'
      obtain rfl := Option.some.inj htx'
      exact h.missing tx ((LocalDb.own_eq_some _ _).mp own).1
  | commit s =>
      cases hown : w.1.db.own ⟨t, s⟩ with
      | none =>
          rw [LocalDb.commit_of_not_own hown]
          exact h.missing
      | some tx =>
          rw [LocalDb.commit_of_own hown]
          exact fun tx htx => by cases htx
  | rollback s =>
      cases hown : w.1.db.own ⟨t, s⟩ with
      | none =>
          rw [LocalDb.rollback_of_not_own hown]
          exact h.missing
      | some tx =>
          rw [LocalDb.rollback_of_own hown]
          exact fun tx htx => by cases htx

/-! ## The discipline -/

section Discipline

variable [PyFloat F] {lib : Libraries F B L} {simulationId : Nat}

def note : System.Happening (service lib simulationId) → Ghost → Ghost
  | .entered t (.startSimulation ..), g => { g with creator := some t }
  | .entered t (.startSimulationFromCrm ..), g => { g with creator := some t }
  | .performed _ (.delete (some (.source _))) _, g => { g with issued := true }
  | _, g => g

/-- A commit that raises, though it has committed. -/
def Refuses (choice : Choice) (_t : Nat) : Op F B → World F B → Ghost → Prop
  | .commitLocal _, _, _ => choice.late = true
  | _, _, _ => False

variable (lib simulationId) in
def watch : System.Watch (service lib simulationId) where
  Ghost := Ghost
  note := note
  refuses := Refuses

theorem note_creator {t : Nat} {o : Op F B} {r : Except Exn o.Resp} {g : Ghost} :
    (note (.performed t o r : System.Happening (service lib simulationId)) g).creator =
      g.creator := by
  cases o
  case delete key => rcases key with _ | key | key <;> rfl
  all_goals rfl

/-- Only an upload's deletion is noted as issued. -/
theorem note_issued {t : Nat} {o : Op F B} {r : Except Exn o.Resp} {g : Ghost}
    (h : (note (.performed t o r : System.Happening (service lib simulationId)) g).issued = true) :
    g.issued = true ∨ ∃ k, o = .delete (some (.source k)) := by
  cases o
  case delete key =>
    rcases key with _ | k | k
    · exact Or.inl h
    · exact Or.inr ⟨k, rfl⟩
    · exact Or.inl h
  all_goals exact Or.inl h

omit [PyFloat F] in
theorem started_of_effect {t : Nat} {o : Op F B} {w w' : World F B} (h : Effect t w o w') :
    w'.started = w.started := by
  cases h <;> rfl

theorem exec_sound {choice : Choice} {t : Nat} {o : Op F B} {w w' : Watching F B}
    {r : Except Exn o.Resp} (h : Inv w) (hpre : Pre t o w)
    (hexec : (System.watched (watch lib simulationId)).exec choice t o w = some (r, w')) :
    Inv w' ∧ ∀ t', t' ≠ t → Rely t' w w' := by
  obtain ⟨-, hexec, hnote⟩ := System.watched_exec.mp hexec
  have hworld := Settlement.exec_sound h.world (pre_world hpre) hexec
  have heffect := exec_effect hexec
  have hkept := Settlement.DbKept.of_move h.world (pre_world hpre) heffect.toDb
  have hcreator : w'.2.creator = w.2.creator := by
    rw [hnote]
    exact note_creator
  have hissued : w'.2.issued = true → w.2.issued = true ∨ ∃ k, o = .delete (some (.source k)) := by
    rw [hnote]
    exact note_issued
  -- no row, and no deletion but by the creator
  have hquiet : w.1.db.created = false → w.2.issued = false → w.2.creator ≠ some t →
      w'.2.issued = false := by
    intro hcreated hunissued hother
    by_contra hnow
    rcases hissued ((Bool.not_eq_false _).mp hnow) with hold | ⟨k, rfl⟩
    · rw [hold] at hunissued
      cases hunissued
    · rcases hpre with hsettled | hmine
      · rw [hsettled.1] at hcreated
        cases hcreated
      · exact hother hmine.1
  have hcreated := fun hbefore => created_of_move h hpre heffect.toDb hbefore
  refine ⟨⟨hworld.1, ?_, ?_, ?_, ?_, missing_of_move h hpre heffect.toDb⟩, fun t' hne =>
    ⟨hworld.2 t' hne, ?_⟩⟩
  · rw [started_of_effect heffect, hcreator]
    exact h.unstarted
  · intro hnobody
    rw [hcreator] at hnobody
    obtain ⟨hbefore, hunissued⟩ := h.uncreated hnobody
    refine ⟨?_, hquiet hbefore hunissued (by rw [hnobody]; simp)⟩
    rcases hcreated hbefore with hstill | ⟨-, hcreator, -⟩
    · exact hstill.1
    · rw [hnobody] at hcreator
      cases hcreator
  · intro hafter
    have hbefore : w.1.db.created = false := by
      by_contra hbefore
      rw [hkept.created ((Bool.not_eq_false _).mp hbefore)] at hafter
      cases hafter
    rcases hcreated hbefore with hstill | ⟨rfl, -, -⟩
    · rw [hcreator]
      exact hstill.2
    · intro tx htx
      rw [hcreator]
      have hmove := heffect.toDb
      generalize w'.1.db = db at hmove hafter htx
      cases hmove with
      | same => exact h.staged hbefore tx htx
      | commit s =>
          cases hown : w.1.db.own ⟨t, .request⟩ with
          | none =>
              rw [LocalDb.commit_of_not_own hown] at htx
              exact h.staged hbefore tx htx
          | some own =>
              rw [LocalDb.commit_of_own hown] at htx
              cases htx
  · intro hnow hafter
    by_cases hbefore : w.1.db.created = true
    · rcases hissued hnow with hold | ⟨k, rfl⟩
      · exact hkept.settled (h.issued hold hbefore)
      · rcases hpre with hsettled | hmine
        · exact hkept.settled hsettled
        · rw [hmine.2.1] at hbefore
          cases hbefore
    · -- the creation is committed by this step, with no deletion before
      have hbefore := (Bool.not_eq_true _).mp hbefore
      rcases hcreated hbefore with hstill | ⟨rfl, -, hunissued⟩
      · rw [hstill.1] at hafter
        cases hafter
      · rcases hissued hnow with hold | ⟨k, hk⟩
        · rw [hunissued] at hold
          cases hold
        · cases hk
  · rintro ⟨hmine, hbefore, hunissued⟩
    have hother : w.2.creator ≠ some t := fun hcreator =>
      hne (Option.some.inj (hmine.symm.trans hcreator))
    refine ⟨hcreator.trans hmine, ?_, hquiet hbefore hunissued hother⟩
    rcases hcreated hbefore with hstill | ⟨-, hcreator, -⟩
    · exact hstill.1
    · exact absurd hcreator hother

/-- A start is the first one, and its task is the creator. -/
theorem enter_sound {t : Nat} {e : Entry F B} {w w' : Watching F B} {p : Act F B Unit}
    (h : Inv w)
    (henter : (System.watched (watch lib simulationId)).enter (t, e) w = some (w', p)) :
    Inv w' ∧ ∀ t, Rely t w w' := by
  obtain ⟨henter, hnote⟩ := System.watched_enter.mp henter
  obtain ⟨hworld, hrely⟩ := Settlement.enter_sound lib simulationId h.world henter
  have hstart : w'.1 = { w.1 with started := true } → w.1.started = false →
      w'.2 = { w.2 with creator := some t } → Inv w' ∧ ∀ t, Rely t w w' := by
    intro hw hunstarted hghost
    have hnobody := h.unstarted hunstarted
    have hdb : w'.1.db = w.1.db := by rw [hw]
    have hissued : w'.2.issued = w.2.issued := by rw [hghost]
    refine ⟨⟨hworld, ?_, ?_, ?_, ?_, ?_⟩, fun t => ⟨hrely t, fun hmine => ?_⟩⟩
    · rw [hw]
      intro hfalse
      cases hfalse
    · rw [hghost]
      intro hfalse
      cases hfalse
    · rw [hdb]
      intro hbefore tx htx
      rw [(h.staged hbefore tx htx).1] at hnobody
      cases hnobody
    · rw [hdb, hissued]
      exact h.issued
    · rw [hdb]
      exact h.missing
    · rw [hmine.1] at hnobody
      cases hnobody
  have hother : w'.1 = w.1 → w'.2 = w.2 → Inv w' ∧ ∀ t, Rely t w w' := by
    intro hw hghost
    obtain rfl : w' = w := Prod.ext hw hghost
    exact ⟨h, fun t => ⟨hrely t, id⟩⟩
  cases e with
  | startSimulation | startSimulationFromCrm =>
      simp only [service, enter] at henter
      split_ifs at henter with hstarted
      obtain ⟨hw, -⟩ := Prod.mk.inj (Option.some.inj henter)
      exact hstart hw.symm ((Bool.not_eq_true _).mp hstarted) hnote
  | deliver delivered =>
      simp only [service, enter] at henter
      split_ifs at henter
      obtain ⟨hw, -⟩ := Prod.mk.inj (Option.some.inj henter)
      exact hother hw.symm hnote
  | deleteSimulation | saveSuccess | saveFailure =>
      obtain ⟨hw, -⟩ := Prod.mk.inj (Option.some.inj henter)
      exact hother hw.symm hnote

omit [PyFloat F] in
/-- At most a transaction is dropped. -/
theorem Inv.drop {w w' : Watching F B} (h : Inv w) (hworld : Settlement.Inv w'.1)
    (hdb : w'.1.db = w.1.db ∨ w'.1.db = { w.1.db with tx := none })
    (hstarted : w'.1.started = w.1.started) (hghost : w'.2 = w.2) :
    Inv w' ∧ ∀ t, Untouched t w → Untouched t w' := by
  have hcreated : w'.1.db.created = w.1.db.created := by rcases hdb with hdb | hdb <;> rw [hdb]
  have hrow : w'.1.db.row = w.1.db.row := by rcases hdb with hdb | hdb <;> rw [hdb]
  have htx : ∀ tx, w'.1.db.tx = some tx → w.1.db.tx = some tx := by
    intro tx htx
    rcases hdb with hdb | hdb
    · rwa [hdb] at htx
    · rw [hdb] at htx
      cases htx
  refine ⟨⟨hworld, ?_, ?_, ?_, ?_, ?_⟩, fun t ⟨hmine, hbefore, hunissued⟩ => ?_⟩
  · rw [hstarted, hghost]
    exact h.unstarted
  · rw [hcreated, hghost]
    exact h.uncreated
  · rw [hcreated, hghost]
    exact fun hbefore tx htx' => h.staged hbefore tx (htx tx htx')
  · unfold Settlement.Settled
    rw [hcreated, hghost, hrow]
    exact h.issued
  · rw [hcreated, hrow]
    exact fun tx htx' => h.missing tx (htx tx htx')
  · exact ⟨hghost ▸ hmine, hcreated.trans hbefore, hghost ▸ hunissued⟩

variable (lib simulationId) in
def keeping : Discipline (System.watched (watch lib simulationId)) where
  inv := Inv
  rely := Rely
  unstarted t w := NoTx t w.1
  pre := Pre
  unstarted_rely := fun h hrely => h.kept hrely.world.tx
  rely_refl := fun _ _ => ⟨.of_db rfl, id⟩
  rely_trans := fun h h' =>
    ⟨(Settlement.settlement lib simulationId).rely_trans h.world h'.world,
      h'.untouched ∘ h.untouched⟩
  exec_sound := exec_sound
  enter_sound := fun {e _ _ _} h henter => enter_sound (t := e.1) (e := e.2) h henter
  abort_sound := fun {t w} h => by
    obtain ⟨hworld, hrely⟩ := Settlement.abort_sound (t := t) h.world
    have hdrop : Inv (w.1.abort t, w.2) ∧ ∀ t', Untouched t' w → Untouched t' (w.1.abort t, w.2) :=
      h.drop hworld ((World.abort_db t w.1).imp_right fun ⟨_, _, _, hdrop⟩ => hdrop) rfl rfl
    exact ⟨hdrop.1, fun t' hne => ⟨hrely t' hne, hdrop.2 t'⟩⟩
  event_sound := fun {e w} h => by
    obtain ⟨hworld, hrely⟩ := (Settlement.settlement lib simulationId).event_sound (e := e) h.world
    have hdrop : Inv ((service lib simulationId).event e w.1, w.2) ∧ ∀ t, Untouched t w →
        Untouched t ((service lib simulationId).event e w.1, w.2) :=
      h.drop hworld (Or.inl rfl) rfl rfl
    exact ⟨hdrop.1, fun t => ⟨hrely t, hdrop.2 t⟩⟩

end Discipline

/-! ## Programs -/

section Programs

variable [PyFloat F] {lib : Libraries F B L} {simulationId t : Nat}

/-- An operation of which nothing more is asked than in `Settlement`. -/
def plain : Op F B → Bool
  | .insertRow .. | .commitLocal .request | .delete (some (.source _)) | .updateRow .. => false
  | _ => true

omit [PyFloat F] in
theorem pre_of_plain {o : Op F B} {w : Watching F B} (ho : plain o = true)
    (h : Settlement.Pre t o w.1) : Pre t o w := by
  cases o
  case commitLocal s => cases s <;> first | exact h | cases ho
  case delete key => rcases key with _ | key | key <;> first | exact h | cases ho
  all_goals first | exact h | cases ho

/-- A triple of the settlement, under watch. -/
theorem safe_plain {p : Act F B α} {Q : Except Exn α → World F B → Prop} {w : Watching F B}
    (hops : p.AllOps fun o => plain o = true)
    (h : (Settlement.settlement lib simulationId).Safe t Q p w.1) :
    (keeping lib simulationId).Safe t (fun r w => Q r w.1) p w :=
  Safe.watched (fun _ hinv => hinv.world) (fun _ _ hrely => hrely.world)
    (hops.mono fun _ ho _ _ => pre_of_plain ho) h

omit [PyFloat F] in
theorem plain_of_records {o : Op F B} (h : o.records = true) : plain o = true := by
  cases o
  case commitLocal s => cases s <;> first | rfl | cases h
  all_goals first | rfl | cases h

omit [PyFloat F] in
theorem plain_of_processes {o : Op F B} (h : o.processes = true) : plain o = true := by
  cases o
  case commitLocal s => cases s <;> first | rfl | cases h
  all_goals first | rfl | cases h

theorem settled_stable : (keeping lib simulationId).Stable t
    fun w : Watching F B => Settlement.Settled w.1.db := fun h hrely => hrely.world.settled h

/-- The row settled, an upload may be deleted. -/
theorem safe_delete_settled {w : Watching F B} (hsettled : Settlement.Settled w.1.db)
    (key : Option ObjectKey) :
    (keeping lib simulationId).Safe t (fun _ w => Settlement.Settled w.1.db)
      (await (.delete key)) w := by
  refine safe_perform settled_stable hsettled (fun w _ h => ?_) fun choice r w w' hinv h hexec => ?_
  · rcases key with _ | key | key
    · trivial
    · exact Or.inl h
    · trivial
  · have hmove := exec_db (System.watched_exec.mp hexec).2.1
    rw [hmove.eq_of_not_writesDb rfl]
    exact h

/-! ### A delivery -/

theorem safe_handleMessage {w : Watching F B} (hw : Base t w.1) (delivered : Option Nat) :
    (keeping lib simulationId).Safe t (fun _ _ => True) (handleMessage lib simulationId delivered)
      w := by
  have hprocess : (keeping lib simulationId).Safe t _
      ((process lib simulationId delivered).ensuring (await .stopHeartbeat)) w :=
    safe_plain (.ensuring ((processes_process lib simulationId delivered).mono
      fun _ => plain_of_processes) (.perform rfl))
      ((Settlement.settles_process delivered).ensuring (Settlement.settles_await rfl) w.1 hw)
  refine Safe.andThen (hprocess.mono fun r w hr => ?_)
  cases r with
  | ok storageKey =>
      refine Safe.bind (safe_perform settled_stable (hr.2 storageKey rfl trivial)
        (fun _ _ h => h) fun choice r w w' hinv h hexec => ?_)
      cases r with
      | error e => trivial
      | ok u =>
          cases storageKey with
          | none => trivial
          | some key =>
              refine (safe_delete_settled ?_ _).mono fun _ _ _ => trivial
              have hmove := exec_db (System.watched_exec.mp hexec).2.1
              rw [hmove.eq_of_not_writesDb rfl]
              exact h
  | error e =>
      have hunhandled : (keeping lib simulationId).Safe t (fun _ _ => True)
          (saveFailure simulationId "unhandled_worker_error" >>= fun _ => await .ack) w :=
        safe_plain (.bind ((records_saveFailure ..).mono fun _ => plain_of_records)
          fun _ => .perform rfl) (Settlement.safe_unhandled hr.1)
      cases e with
      | cancelled => trivial
      | transientError text =>
          exact safe_plain (.perform rfl) (Settlement.polite_await rfl _)
      | _ => exact hunhandled

/-! ### A deletion -/

/-- A request that holds the row's deletion, or has found the row gone. -/
def Deleting (t : Nat) (w : Watching F B) : Prop :=
  w.1.db.created = true ∧ (Settlement.Settled w.1.db ∨ DeletionStaged t w.1)

theorem deleting_stable : (keeping lib simulationId).Stable t (Deleting t) := by
  rintro w w' ⟨hcreated, h⟩ hrely
  refine ⟨hrely.world.created hcreated, ?_⟩
  rcases h with hsettled | hstaged
  · exact Or.inl (hrely.world.settled hsettled)
  · exact Or.inr (hstaged.kept hrely.world.tx)

theorem noTx_stable : (keeping lib simulationId).Stable t fun w : Watching F B => NoTx t w.1 :=
  fun h hrely => h.kept hrely.world.tx

/-- Once the deletion has been flushed. -/
theorem deleting_of_deleteRow {choice : Choice} {w w' : World F B} {g : Ghost}
    (hcreated : w'.db.created = true)
    (hexec : exec choice t (.deleteRow .request) w = some (.ok (), w')) :
    Deleting t (w', g) := by
  refine ⟨hcreated, (deleteRow_staged (exec_ok rfl hexec)).imp_left fun ⟨_, hgone⟩ => ?_⟩
  exact ⟨hcreated, fun row hrow => by rw [hgone] at hrow; cases hrow⟩

theorem settled_of_deleted {choice : Choice} {w w' : Watching F B} (hinv : Inv w)
    (h : Deleting t w)
    (hexec : exec choice t (.commitLocal .request) w.1 = some (.ok (), w'.1)) :
    Settlement.Settled w'.1.db := by
  rcases h.2 with hsettled | ⟨tx, htx, howner, hrow⟩
  · exact Settlement.settled_exec (t := t) hinv.world (by trivial) hsettled hexec
  · have hw := (Prod.mk.inj (Option.some.inj (exec_ok rfl hexec))).2
    have hown : w.1.db.own ⟨t, .request⟩ = some tx := (LocalDb.own_eq_some _ _).mpr ⟨htx, howner⟩
    rw [← hw]
    simp only [LocalDb.commit_of_own hown]
    exact ⟨rfl, fun row h => by rw [hrow] at h; cases h⟩

theorem safe_deleteSimulation {w : Watching F B} (hw : NoTx t w.1) (id community : Nat) :
    (keeping lib simulationId).Safe t (fun _ _ => True)
      (deleteSimulation id community : Act F B Unit) w := by
  refine Safe.bind (safe_perform noTx_stable hw (fun _ _ _ => trivial)
    fun choice r w w₁ hinv hnoTx hexec => ?_)
  have hexec := (System.watched_exec.mp hexec).2.1
  cases r with
  | error e => trivial
  | ok found =>
      cases found with
      | none => trivial
      | some simulation =>
          -- the row was there
          obtain ⟨hfound, hsame⟩ := Prod.mk.inj (Option.some.inj (exec_ok rfl hexec))
          obtain ⟨hrow, -⟩ := Option.filter_eq_some_iff.mp (Except.ok.inj hfound)
          rw [hnoTx.visible] at hrow
          have hstart : w₁.1.db.created = true ∧ NoTx t w₁.1 := by
            rw [← hsame]
            exact ⟨hinv.world.created _ hrow, hnoTx⟩
          refine Safe.bind (safe_perform (d := keeping lib simulationId)
            (A := fun w => w.1.db.created = true ∧ NoTx t w.1)
            (fun h hrely => ⟨hrely.world.created h.1, h.2.kept hrely.world.tx⟩) hstart
            (fun _ _ _ => trivial) fun choice r w₂ w₃ hinv h hexec => ?_)
          have hexec := (System.watched_exec.mp hexec).2.1
          cases r with
          | error e => trivial
          | ok u =>
              have hkept := Settlement.DbKept.of_move (t := t) (o := .deleteRow .request)
                hinv.world trivial (exec_db hexec)
              have hdeleting : Deleting t w₃ := deleting_of_deleteRow (hkept.created h.1) hexec
              refine Safe.bind (safe_perform deleting_stable hdeleting (fun w _ h hbefore => ?_)
                fun choice r w₄ w₅ hinv h hexec => ?_)
              · rw [h.1] at hbefore
                cases hbefore
              have hexec := (System.watched_exec.mp hexec).2.1
              cases r with
              | error e => trivial
              | ok u =>
                  refine Safe.bind ((safe_delete_settled (settled_of_deleted hinv h hexec) _).mono
                    fun r w hsettled => ?_)
                  have hlog : ∀ entry w, (keeping lib simulationId).Safe t (fun _ _ => True)
                      (await (.logAudit .request entry) : Act F B Unit) w :=
                    fun entry w => safe_plain (.perform rfl) (Settlement.polite_await rfl _)
                  cases r with
                  | error e => trivial
                  | ok u =>
                      cases simulation.resultStorageKey with
                      | none => exact hlog _ w
                      | some key =>
                          refine Safe.bind ((safe_delete_settled hsettled _).mono fun r w _ => ?_)
                          cases r with
                          | error e => trivial
                          | ok u => exact hlog _ w

/-! ### A failed publish -/

theorem mine_commit {choice : Choice} {w w' : World F B} {r : Except Exn Unit} (h : Mine t w)
    (hexec : exec choice t (.commitLocal .own) w = some (r, w')) (hcreated : w'.db.created = true) :
    Mine t w' := by
  refine ⟨hcreated, fun tx htx howner => ?_⟩
  have hmove := exec_db hexec
  generalize w'.db = db at hmove htx
  cases hmove with
  | same => exact h.owner tx htx howner
  | commit =>
      cases hown : w.db.own ⟨t, .own⟩ with
      | none =>
          rw [LocalDb.commit_of_not_own hown] at htx
          exact h.owner tx htx howner
      | some own =>
          rw [LocalDb.commit_of_own hown] at htx
          cases htx

/-- A flush that leaves no PENDING row. -/
theorem updated {values : RowValues} {choice : Choice} {w w' : World F B} {r : Except Exn Unit}
    (h : Base t w) (hpending : values.status ≠ some .pending)
    (hunset : values.status = none → Settlement.Settled w.db)
    (hexec : exec choice t (.updateRow .own values) w = some (r, w')) :
    Mine t w' ∧ (r = .ok () → Settlement.Claimed t w' ∨ Settlement.Settled w'.db) := by
  constructor
  · have hmove := exec_db hexec
    generalize hafter : w'.db = db at hmove
    cases hmove with
    | same => exact (h.of_db hafter).mine
    | update sets free visible =>
        refine ⟨by rw [hafter]; exact h.created, fun tx htx _ => ?_⟩
        rw [hafter] at htx
        obtain rfl := Option.some.inj htx
        rfl
  · rintro rfl
    obtain ⟨x, hx, heq⟩ := Option.map_eq_some_iff.mp (exec_ok rfl hexec)
    obtain ⟨hr, rfl⟩ := Prod.mk.inj heq
    unfold LocalDb.update LocalDb.onRow at hx
    by_cases hempty : values.isEmpty = true
    · right
      simp only [hempty, if_true] at hx
      obtain rfl := Option.some.inj hx
      refine hunset ?_
      simp only [RowValues.isEmpty, Bool.and_eq_true, Option.isNone_iff_eq_none] at hempty
      exact hempty.1.1
    · left
      simp only [hempty, Bool.false_eq_true, if_false] at hx
      cases hlocked : w.db.locked ⟨t, .own⟩ with
      | true =>
          simp only [hlocked, if_true] at hx
          cases hrow : w.db.row with
          | some row => simp [hrow] at hx
          | none =>
              simp only [hrow] at hx
              obtain rfl := Option.some.inj hx
              cases hr
      | false =>
          simp only [hlocked, Bool.false_eq_true, if_false, h.noTx.visible] at hx
          cases hrow : w.db.row with
          | none =>
              simp only [hrow] at hx
              obtain rfl := Option.some.inj hx
              cases hr
          | some row =>
              simp only [hrow] at hx
              obtain rfl := Option.some.inj hx
              refine ⟨h.created, _, rfl, rfl, fun row' hrow' => ?_⟩
              obtain rfl := Option.some.inj hrow'
              rw [SimulationModel.set_status]
              cases hstatus : values.status with
              | none => exact (hunset hstatus).2 row hrow
              | some status => exact fun heq => hpending (hstatus.trans (congrArg some heq))

theorem changedBy_status (row : SimulationModel) (message : String) :
    (changedBy row .failed message).status ≠ some .pending := by
  unfold changedBy
  split_ifs <;> simp

theorem failed_of_unset {row : SimulationModel} {message : String}
    (h : (changedBy row .failed message).status = none) : row.status = .failed := by
  by_contra hne
  simp [changedBy, hne] at h

/-- The mark of a failed publish leaves the row settled. -/
theorem settles_markFailedToQueue (id : Nat) (reason : String) :
    Settlement.Settles lib simulationId t (markFailedToQueue id reason : Act F B Unit)
      fun _ => True := by
  refine Settlement.Settles.bind (P := fun _ => True) (Settlement.settles_session fun w hw =>
    Safe.bind (safe_perform Settlement.base_stable hw (fun _ _ _ => trivial)
      fun choice r w' w'' _ hbase hexec => ?_)) fun marked => ?_
  · cases r with
    | error e =>
        have hdb := (exec_db hexec).eq_of_not_writesDb rfl
        exact ⟨(hbase.of_db hdb).mine, fun _ h => by cases h⟩
    | ok row =>
        obtain ⟨rfl, rfl⟩ := Settlement.exec_getRow hbase hexec
        cases hrow : w''.db.row with
        | none => exact ⟨hbase.mine, fun _ _ _ => ⟨hbase.created, fun row h => by
            rw [hrow] at h
            cases h⟩⟩
        | some row =>
            have hfailed : row.status = .failed → Settlement.Settled w''.db := by
              refine fun hstatus => ⟨hbase.created, fun row' hrow' => ?_⟩
              obtain rfl := Option.some.inj (hrow.symm.trans hrow')
              rw [hstatus]
              decide
            refine Safe.bind (safe_perform (d := Settlement.settlement lib simulationId)
              (A := fun w : World F B => Base t w ∧ (row.status = .failed → Settlement.Settled w.db))
              (fun h hrely => ⟨h.1.kept hrely.created hrely.tx,
                hrely.settled ∘ h.2⟩)
              ⟨hbase, hfailed⟩ (fun _ _ _ => changedBy_status row _)
              fun choice r w₁ w₂ _ h hexec => ?_)
            obtain ⟨hmine, hupdated⟩ := updated h.1 (changedBy_status row _)
              (h.2 ∘ failed_of_unset) hexec
            cases r with
            | error e => exact ⟨hmine, fun _ h => by cases h⟩
            | ok u =>
                refine Safe.bind (safe_perform (d := Settlement.settlement lib simulationId)
                  (A := fun w : World F B =>
                    Mine t w ∧ (Settlement.Claimed t w ∨ Settlement.Settled w.db)) ?_
                  ⟨hmine, hupdated rfl⟩ (fun _ _ _ => trivial) fun choice r w₃ w₄ hinv h hexec => ?_)
                · intro w w' h hrely
                  refine ⟨?_, h.2.imp (fun hclaimed => ?_) hrely.settled⟩
                  · exact (Settlement.mine_stable : (Settlement.settlement lib simulationId).Stable t _)
                      h.1 hrely
                  · exact (Settlement.claimed_stable : (Settlement.settlement lib simulationId).Stable t
                      _) hclaimed hrely
                · have hcommitted : Mine t w₄ ∧ (r = .ok () → Settlement.Settled w₄.db) := by
                    rcases h.2 with hclaimed | hsettled
                    · exact hclaimed.commit hexec
                    · have hafter := Settlement.settled_exec (t := t) hinv (by trivial) hsettled hexec
                      exact ⟨mine_commit h.1 hexec hafter.1, fun _ => hafter⟩
                  cases r with
                  | error e => exact ⟨hcommitted.1, fun _ h => by cases h⟩
                  | ok u => exact ⟨hcommitted.1, fun _ _ _ => hcommitted.2 rfl⟩
  · cases marked with
    | none => exact Settlement.settles_pure fun h => h.2 trivial
    | some idCommunity =>
        refine (Settlement.settles_quiet ?_).mono fun _ h => h.2 trivial
        exact .ensuring (.bind (.perform rfl) fun _ => .perform rfl) (.perform rfl)

omit [PyFloat F] in
/-- The mark does not say that the upload is missing. -/
theorem changedBy_message (row : SimulationModel) (reason : String) :
    (changedBy row .failed (clip 2000 ("failed_to_queue: " ++ reason))).errorMessage ≠
      some (some "storage_object_missing") := by
  show (if _ then none else some (some (clip 2000 ("failed_to_queue: " ++ reason)))) ≠ _
  split_ifs
  · simp
  · intro h
    -- they differ in their first character
    have hmessage := congrArg (fun s => s.toList.head?) (Option.some.inj (Option.some.inj h))
    simp [clip] at hmessage

omit [PyFloat F] in
theorem asks_markFailedToQueue (id : Nat) (reason : String) :
    (markFailedToQueue id reason : Act F B Unit).AllOps
      fun o => ∀ w : Watching F B, Settlement.Pre t o w.1 → Pre t o w := by
  have hplain : ∀ {o : Op F B}, plain o = true →
      ∀ w : Watching F B, Settlement.Pre t o w.1 → Pre t o w := fun ho w h => pre_of_plain ho h
  refine .bind (.ensuring (.bind (.perform (hplain rfl)) fun row => ?_) (.perform (hplain rfl)))
    fun marked => ?_
  · cases row with
    | none => trivial
    | some row =>
        refine .bind (.perform fun w h => ⟨h, changedBy_message row reason⟩) fun _ => ?_
        exact .bind (.perform (hplain rfl)) fun _ => trivial
  · cases marked with
    | none => trivial
    | some idCommunity =>
        exact .ensuring (.bind (.perform (hplain rfl)) fun _ => .perform (hplain rfl))
          (.perform (hplain rfl))

/-- The publish of a created row; a failed one may delete the upload. -/
theorem safe_publishOrMark {w : Watching F B} (hw : Base t w.1) (id : Nat)
    {cleanup : Act F B Unit}
    (hcleanup : ∀ w, Settlement.Settled w.1.db →
      (keeping lib simulationId).Safe t (fun _ _ => True) cleanup w) :
    (keeping lib simulationId).Safe t (fun _ _ => True) (publishOrMark id cleanup) w := by
  refine Safe.tryCatch (safe_perform (d := keeping lib simulationId) (A := fun w => Base t w.1)
    (fun h hrely => h.kept hrely.world.created hrely.world.tx) hw
    (fun _ _ h => h.created) fun choice r w w' _ hbase hexec => ?_)
  cases r with
  | ok u => trivial
  | error e =>
      have hbase' : Base t w'.1 :=
        hbase.of_db ((exec_db (System.watched_exec.mp hexec).2.1).eq_of_not_writesDb rfl)
      by_cases he : e.isException = true
      · simp only [he, if_true]
        have hmark : (keeping lib simulationId).Safe t _ (markFailedToQueue id e.text) w' :=
          Safe.watched (fun _ hinv => hinv.world) (fun _ _ hrely => hrely.world)
            ((asks_markFailedToQueue id e.text).mono fun _ ho w _ => ho w)
            (settles_markFailedToQueue id e.text w'.1 hbase')
        refine Safe.bind (hmark.mono fun r w hr => ?_)
        cases r with
        | error e => trivial
        | ok u =>
            refine Safe.bind ((hcleanup w (hr.2 u rfl trivial)).mono fun r w _ => ?_)
            cases r <;> trivial
      · simp only [he]
        trivial

/-! ### A start -/

/-- Before the insertion. -/
def Starting (t : Nat) (w : Watching F B) : Prop := Untouched t w ∧ NoTx t w.1

theorem starting_stable : (keeping lib simulationId).Stable t (Starting t) := fun h hrely =>
  ⟨hrely.untouched h.1, h.2.kept hrely.world.tx⟩

/-- Nothing of the row, and no upload's deletion. -/
def silent (o : Op F B) : Bool := plain o && !o.writesDb

/-- No deletion is noted, and the creator is as it was. -/
theorem untouched_of_exec {choice : Choice} {o : Op F B} {w w' : Watching F B}
    {r : Except Exn o.Resp} (h : Untouched t w) (ho : ∀ k, o ≠ .delete (some (.source k)))
    (hcreated : w'.1.db.created = false)
    (hexec : (System.watched (watch lib simulationId)).exec choice t o w = some (r, w')) :
    Untouched t w' := by
  have hnote := (System.watched_exec.mp hexec).2.2
  refine ⟨?_, hcreated, ?_⟩
  · rw [hnote]
    exact note_creator.trans h.1
  · by_contra hissued
    have hissued := (Bool.not_eq_false _).mp hissued
    rw [hnote] at hissued
    rcases note_issued hissued with hold | ⟨k, hk⟩
    · rw [h.2.2] at hold
      cases hold
    · exact ho k hk

theorem safe_silent {p : Act F B α} {w : Watching F B}
    (hops : p.AllOps fun o => silent o = true ∧ ∀ w, Settlement.Pre t o w) (h : Starting t w) :
    (keeping lib simulationId).Safe t (fun _ w => Starting t w) p w := by
  refine Safe.of_allOps starting_stable (hops.mono fun o ho w hinv h => ?_) h
  obtain ⟨hplain, hreads⟩ := Bool.and_eq_true_iff.mp ho.1
  refine ⟨pre_of_plain hplain (ho.2 w.1), fun choice r w' hexec => ?_⟩
  have hdb : w'.1.db = w.1.db := (exec_db (System.watched_exec.mp hexec).2.1).eq_of_not_writesDb
    (by simpa using hreads)
  refine ⟨untouched_of_exec h.1 ?_ (by rw [hdb]; exact h.1.2.1) hexec, fun tx htx => ?_⟩
  · rintro k rfl
    cases hplain
  · rw [hdb] at htx
    exact h.2 tx htx

/-- An insertion that has committed, or that has not and never will. -/
theorem safe_createSimulation {w : Watching F B} (hw : Starting t w) (model : SimulationModel) :
    (keeping lib simulationId).Safe t
      (fun r w => (∀ id, r = .ok id → Base t w.1) ∧ ∀ e, r = .error e → Untouched t w)
      (createSimulation model) w := by
  refine Safe.bind (safe_perform starting_stable hw (fun w _ h => ⟨rfl, h.1.1⟩)
    fun choice r w w₁ hinv h hexec => ?_)
  have hworld := (System.watched_exec.mp hexec).2.1
  have hcreated : w₁.1.db.created = false := by
    have hmove := exec_db hworld
    generalize w₁.1.db = db at hmove
    cases hmove <;> exact h.1.2.1
  have huntouched : Untouched t w₁ := untouched_of_exec h.1 (fun k hk => by cases hk) hcreated hexec
  cases r with
  | error e => exact ⟨fun _ h => (by cases h), fun _ _ => huntouched⟩
  | ok id =>
      have hstaged : ∃ tx, w₁.1.db.tx = some tx ∧ tx.owner = ⟨t, .request⟩ := by
        obtain ⟨x, hx, heq⟩ := Option.map_eq_some_iff.mp (exec_ok rfl hworld)
        obtain ⟨hr, hw₁⟩ := Prod.mk.inj heq
        rw [← hw₁]
        unfold LocalDb.insert at hx
        split_ifs at hx
        · rw [← Option.some.inj hx] at hr
          cases hr
        · rw [← Option.some.inj hx]
          exact ⟨_, rfl, rfl⟩
        · rw [← Option.some.inj hx] at hr
          cases hr
      refine Safe.bind (safe_perform (d := keeping lib simulationId)
        (A := fun w => Untouched t w ∧ ∃ tx, w.1.db.tx = some tx ∧ tx.owner = ⟨t, .request⟩)
        ?_ ⟨huntouched, hstaged⟩ (fun w _ h _ => h.1.2.2) fun choice r w₂ w₃ _ h hexec => ?_)
      · rintro w w' ⟨h, tx, htx, howner⟩ hrely
        exact ⟨hrely.untouched h, tx, (hrely.world.tx tx (by rw [howner])).mp htx, howner⟩
      · obtain ⟨haccepted, hworld, -⟩ := System.watched_exec.mp hexec
        cases r with
        | ok u =>
            refine ⟨fun _ _ => ?_, fun _ h => by cases h⟩
            obtain ⟨tx, htx, howner⟩ := h.2
            have hw₃ := (Prod.mk.inj (Option.some.inj (exec_ok rfl hworld))).2
            have hown : w₂.1.db.own ⟨t, .request⟩ = some tx :=
              (LocalDb.own_eq_some _ _).mpr ⟨htx, howner⟩
            rw [← hw₃, LocalDb.commit_of_own hown]
            exact ⟨rfl, fun _ h => by cases h⟩
        | error e =>
            -- it has not committed
            refine ⟨fun _ h => (by cases h), fun _ _ => ?_⟩
            have hsame : w₃.1 = w₂.1 := by
              rcases exec_punctual rfl ((Bool.not_eq_true _).mp haccepted) hworld with hsame | hanswer
              · exact hsame
              · cases (Prod.mk.inj (Option.some.inj hanswer)).1
            refine untouched_of_exec h.1 (fun k hk => by cases hk) ?_ hexec
            rw [hsame]
            exact h.1.2.1

/-- The creation of a file's row: a row that is not committed never will be. -/
theorem safe_createOrDelete {w : Watching F B} (hw : Starting t w) (model : SimulationModel)
    (storageKey : SourceKey) :
    (keeping lib simulationId).Safe t (fun r w => ∀ id, r = .ok id → Base t w.1)
      (onException (createSimulation model) fun e => do
        await (.delete (some (.source storageKey)))
        raise e) w := by
  refine Safe.tryCatch ((safe_createSimulation hw model).mono fun r w hr => ?_)
  cases r with
  | ok id => exact hr.1
  | error e =>
      by_cases he : e.isException = true
      · simp only [he, if_true]
        refine Safe.bind (safe_perform (d := keeping lib simulationId) (A := Untouched t)
          (fun h hrely => hrely.untouched h) (hr.2 e rfl) (fun _ _ h => Or.inr h)
          fun choice r w w' _ _ _ => ?_)
        cases r <;> exact fun _ h => by cases h
      · simp only [he]
        exact fun _ h => by cases h

theorem safe_created {w : Watching F B} (hw : Base t w.1) (id : Nat) (entry : AuditEntry)
    {cleanup : Act F B Unit}
    (hcleanup : ∀ w, Settlement.Settled w.1.db →
      (keeping lib simulationId).Safe t (fun _ _ => True) cleanup w)
    (a : α) :
    (keeping lib simulationId).Safe t (fun _ _ => True)
      (do
        await (.logAudit .request entry)
        publishOrMark id cleanup
        pure a) w := by
  have hlog : (keeping lib simulationId).Safe t _ (await (.logAudit .request entry)) w :=
    safe_plain (.perform rfl) (Settlement.settles_await rfl w.1 hw)
  refine Safe.bind (hlog.mono fun r w hr => ?_)
  cases r with
  | error e => trivial
  | ok u =>
      refine Safe.bind ((safe_publishOrMark hr.1 id hcleanup).mono fun r w _ => ?_)
      cases r <;> trivial

theorem safe_startSimulation {w : Watching F B} (hw : Starting t w) (newId : Nat) (uuid : Uuid)
    (req : SimulateRequest) (file : UploadFile B) (community : Nat) :
    (keeping lib simulationId).Safe t (fun _ _ => True)
      (startSimulation lib newId uuid req file community) w := by
  refine Safe.bind ((safe_silent (.perform ⟨rfl, fun _ => by trivial⟩) hw).mono fun r w hw => ?_)
  rcases r with e | _ | key
  · trivial
  · trivial
  · refine Safe.bind ((safe_silent ?_ hw).mono fun r w hw => ?_)
    · refine .bind (.perform ⟨rfl, fun _ => by trivial⟩) fun content => ?_
      split
      · trivial
      · split <;> trivial
    · cases r with
      | error e => trivial
      | ok content =>
          by_cases hsize : uploadTooLarge lib key content (uploadName file) = true
          · simp only [hsize, if_true]
            trivial
          · simp only [hsize]
            refine Safe.bind ((safe_silent ?_ hw).mono fun r w hw => ?_)
            · refine .tryCatch (.perform ⟨rfl, fun _ => by trivial⟩) fun e => ?_
              split <;> trivial
            · cases r with
              | error e => trivial
              | ok u =>
                  refine Safe.bind ((safe_createOrDelete hw _ _).mono fun r w hr => ?_)
                  cases r with
                  | error e => trivial
                  | ok id =>
                      exact safe_created (hr id rfl) id _
                        (fun w h => (safe_delete_settled h _).mono fun _ _ _ => trivial) _

theorem safe_startSimulationFromCrm {w : Watching F B} (hw : Starting t w) (newId : Nat)
    (req : SimulateFromCrmRequest) (community : Nat) :
    (keeping lib simulationId).Safe t (fun _ _ => True)
      (startSimulationFromCrm newId req community : Act F B _) w := by
  refine Safe.bind ((safe_silent (.perform ⟨rfl, fun _ => by trivial⟩) hw).mono fun r w hw => ?_)
  rcases r with e | _ | key
  · trivial
  · trivial
  · refine Safe.bind ((safe_silent ?_ hw).mono fun r w hw => ?_)
    · unfold previewCrmData
      split
      · trivial
      · refine .bind (.perform ⟨rfl, fun _ => by trivial⟩) fun key => ?_
        cases key with
        | none => trivial
        | some key =>
            refine .bind (.perform ⟨rfl, fun _ => by trivial⟩) fun found => ?_
            cases found with
            | false => trivial
            | true => exact .bind (.perform ⟨rfl, fun _ => by trivial⟩) fun _ => trivial
    · cases r with
      | error e => trivial
      | ok preflight =>
          cases hblockers : preflight.blockers with
          | cons first rest =>
              simp only [hblockers]
              trivial
          | nil =>
              simp only [hblockers]
              refine Safe.bind ((safe_createSimulation hw _).mono fun r w hr => ?_)
              cases r with
              | error e => trivial
              | ok id =>
                  refine safe_created (hr.1 id rfl) id _ (fun w _ => ?_) _
                  trivial

/-! ### The entries -/

theorem safe_answered {body : Act F B α} {w : Watching F B}
    (h : (keeping lib simulationId).Safe t (fun _ _ => True) body w) :
    (keeping lib simulationId).Safe t (fun _ _ => True) (answered body) w := by
  have hclose : ∀ {o : Op F B}, plain o = true → Settlement.harmless o = true →
      ∀ w, (keeping lib simulationId).Safe t (fun _ _ => True) (await o) w :=
    fun hplain hharmless _ => safe_plain (.perform hplain) (Settlement.polite_await hharmless _)
  refine Safe.bind (Safe.ensuring (Safe.mono (Q := fun _ _ => True)
    (Safe.ensuring (h.mono fun _ w _ => (hclose rfl rfl w).mono fun r _ _ => ?_))
    fun outcome w _ => (hclose rfl rfl w).mono fun r _ _ => ?_))
  · cases r <;> trivial
  · cases r with
    | ok u => cases outcome <;> trivial
    | error e => trivial

/-- Every entry is safe. -/
theorem safe_entered {e : Entry F B} {w w' : Watching F B} {p : Act F B Unit} (h : Inv w)
    (hnoTx : NoTx t w.1)
    (henter : (System.watched (watch lib simulationId)).enter (t, e) w = some (w', p)) :
    (keeping lib simulationId).Safe t (fun _ _ => True) p w' := by
  obtain ⟨henter, hnote⟩ := System.watched_enter.mp henter
  have hstart : w'.1 = { w.1 with started := true } → w.1.started = false →
      w'.2 = { w.2 with creator := some t } → Starting t w' := by
    intro hw hunstarted hghost
    obtain ⟨hcreated, hissued⟩ := h.uncreated (h.unstarted hunstarted)
    refine ⟨⟨by rw [hghost], by rw [hw]; exact hcreated, by rw [hghost]; exact hissued⟩, ?_⟩
    rw [hw]
    exact hnoTx
  cases e with
  | startSimulation uuid req file community =>
      simp only [service, enter] at henter
      split_ifs at henter with hstarted
      obtain ⟨hw, rfl⟩ := Prod.mk.inj (Option.some.inj henter)
      exact safe_answered (safe_startSimulation
        (hstart hw.symm ((Bool.not_eq_true _).mp hstarted) hnote) _ _ _ _ _)
  | startSimulationFromCrm req community =>
      simp only [service, enter] at henter
      split_ifs at henter with hstarted
      obtain ⟨hw, rfl⟩ := Prod.mk.inj (Option.some.inj henter)
      exact safe_answered (safe_startSimulationFromCrm
        (hstart hw.symm ((Bool.not_eq_true _).mp hstarted) hnote) _ _ _)
  | deleteSimulation community =>
      obtain ⟨hw, rfl⟩ := Prod.mk.inj (Option.some.inj henter)
      exact safe_answered (safe_deleteSimulation (hw ▸ hnoTx) _ _)
  | deliver delivered =>
      simp only [service, enter] at henter
      split_ifs at henter with hstored
      obtain ⟨hw, rfl⟩ := Prod.mk.inj (Option.some.inj henter)
      refine safe_handleMessage ?_ delivered
      rw [← hw]
      exact ⟨h.world.published (Nat.pos_of_ne_zero hstored), hnoTx⟩
  | saveSuccess result path =>
      obtain ⟨-, rfl⟩ := Prod.mk.inj (Option.some.inj henter)
      exact safe_plain ((records_saveSuccess ..).mono fun _ => plain_of_records)
        (Settlement.polite_harmless ((records_saveSuccess ..).mono
          fun _ => Settlement.harmless_of_records) _)
  | saveFailure errorMessage =>
      obtain ⟨-, rfl⟩ := Prod.mk.inj (Option.some.inj henter)
      exact safe_plain ((records_saveFailure ..).mono fun _ => plain_of_records)
        (Settlement.polite_harmless ((records_saveFailure ..).mono
          fun _ => Settlement.harmless_of_records) _)

end Programs

/-! ## Runs -/

section Runs

variable [PyFloat F] {lib : Libraries F B L} {simulationId : Nat}

/-- A commit that raises has not committed. -/
def honest (c : State lib simulationId) (l : System.Label (service lib simulationId)) : Prop :=
  ∀ t choice s next, l = .step t choice → c.tasks t = .running (.op (.commitLocal s) next) →
    choice.late = false

/-- The deletion of an upload has been issued in `h`. -/
def Issued (h : List (System.Happening (service lib simulationId))) : Prop :=
  ∃ t k r, .performed t (.delete (some (.source k))) r ∈ h

theorem note_keeps_issued {x : System.Happening (service lib simulationId)} {g : Ghost}
    (h : g.issued = true) : (note x g).issued = true := by
  unfold note
  split <;> first | exact h | rfl

/-- The ghost state has every deletion of the history. -/
theorem after_issued {h : List (System.Happening (service lib simulationId))} (hissued : Issued h)
    (g : Ghost) : ((watch lib simulationId).after g h).issued = true := by
  obtain ⟨t, k, r, hmem⟩ := hissued
  induction h using List.reverseRecOn with
  | nil => cases hmem
  | append_singleton h x ih =>
      have hafter : (watch lib simulationId).after g (h ++ [x]) =
          note x ((watch lib simulationId).after g h) := by
        simp [System.Watch.after, watch]
      rw [hafter]
      rcases List.mem_append.mp hmem with hold | hnew
      · exact note_keeps_issued (ih hold)
      · obtain rfl := List.mem_singleton.mp hnew
        rfl

theorem sound_of_run {c c' : State lib simulationId}
    {h : List (System.Happening (service lib simulationId))} (hidle : Idle c)
    (hfresh : c.world.Fresh) (hrun : (service lib simulationId).Runs (fun _ => honest) c h c') :
    (keeping lib simulationId).Sound (c'.watched (watch lib simulationId)
      ((watch lib simulationId).after ⟨none, false⟩ h)) := by
  have hnone : ∀ tx, c.world.db.tx ≠ some tx := fun tx htx => by
    rw [hfresh.tx] at htx
    cases htx
  have hstart : (keeping lib simulationId).Sound (c.watched (watch lib simulationId)
      ⟨none, false⟩) := by
    refine ⟨⟨⟨fun row hrow => ?_, fun hstored => ?_, fun tx htx => absurd htx (hnone tx),
      fun t hack => ?_⟩, fun _ => rfl, fun _ => ⟨hfresh.created, rfl⟩,
      fun _ tx htx => absurd htx (hnone tx), fun hissued => (by cases hissued),
      fun tx htx => absurd htx (hnone tx)⟩, fun t _ tx htx => absurd htx (hnone tx),
      fun t p htask => ?_⟩
    · have hrow : c.world.db.row = some row := hrow
      rw [hfresh.row] at hrow
      cases hrow
    · have hstored : 0 < c.world.nats.stored := hstored
      rw [hfresh.stored] at hstored
      cases hstored
    · have hack : (t, .ack) ∈ c.world.nats.replies := hack
      rw [hfresh.replies] at hack
      cases hack
    · have htask : c.tasks t = .running p := htask
      rw [hidle t] at htask
      cases htask
  refine reaches_sound hstart (fun c t e w p hallowed hinv hnoTx henter => ?_)
    (hrun.watched (g := watch lib simulationId) ⟨none, false⟩
      fun h c₁ t choice o k hallowed htask hrefuses => ?_)
  · obtain ⟨rfl, -⟩ := hallowed
    exact safe_entered hinv hnoTx henter
  · cases o <;> try exact hrefuses
    case commitLocal s =>
      have hlate : choice.late = true := hrefuses
      rw [hallowed t choice s _ rfl htask] at hlate
      cases hlate

omit [PyFloat F] in
/-- While the committed row is PENDING, no upload's deletion has been issued. -/
theorem not_issued_of_pending {w : Watching F B} (h : Inv w) {row : SimulationModel}
    (hrow : w.1.db.row = some row) (hpending : row.status = .pending) : w.2.issued = false := by
  by_contra hissued
  have hsettled := h.issued ((Bool.not_eq_false _).mp hissued) (h.world.created row hrow)
  exact hsettled.2 row hrow hpending

/-- In every run of starts, deletions and deliveries: whenever a task is about to
delete an upload, the committed row is absent or not PENDING; and a step that
marks the row with a missing upload comes before any deletion of one. -/
theorem source_kept {c c' : State lib simulationId}
    {h : List (System.Happening (service lib simulationId))} (hidle : Idle c)
    (hfresh : c.world.Fresh) (hrun : (service lib simulationId).Runs (fun _ => honest) c h c') :
    (∀ t k next, c'.tasks t = .running (.op (.delete (some (.source k))) next) →
      ∀ row, c'.world.db.row = some row → row.status ≠ .pending) ∧
    ∀ l c'', (service lib simulationId).next l c' = some c'' →
      SaysMissing c''.world.db.row → ¬ SaysMissing c'.world.db.row → ¬ Issued h := by
  have hsound := sound_of_run hidle hfresh hrun
  have hinv := hsound.inv
  refine ⟨fun t k next htask row hrow => ?_, fun l c'' hnext hsays hnot hissued => ?_⟩
  · rcases hsound.pre (o := .delete (some (.source k))) htask with hsettled | huntouched
    · exact hsettled.2 row hrow
    · have hcreated := hinv.world.created row hrow
      rw [huntouched.2.1] at hcreated
      cases hcreated
  · have hissued := after_issued hissued ⟨none, false⟩
    have hstep := dbStep_of_next hnext
    generalize c''.world.db = db at hstep hsays
    cases hstep with
    | same | drop => exact hnot hsays
    | @move t choice o db k task hmove =>
        rcases hmove.row with hsame | ⟨s, tx, rfl, hown, hcommitted⟩
        · rw [hsame] at hsays
          exact hnot hsays
        · obtain ⟨htx, howner⟩ := (LocalDb.own_eq_some _ _).mp hown
          rw [hcommitted] at hsays
          rcases hinv.missing tx htx with huncreated | ⟨row, hrow, hpending⟩ | hsaid
          · -- the creation is committed before any deletion
            obtain ⟨-, hkind⟩ := hinv.staged huncreated tx htx
            rw [howner] at hkind
            obtain rfl : s = .request := hkind
            have hbefore := hsound.pre (o := .commitLocal .request) task huncreated
            exact absurd (hissued.symm.trans hbefore) (by decide)
          · have hbefore := not_issued_of_pending hinv hrow hpending
            exact absurd (hissued.symm.trans hbefore) (by decide)
          · exact hnot (hsaid hsays)

end Runs

/-! ## Two deliveries -/

/-- A task is about to delete an upload, or to download one. -/
def atUpload (c : State smallLib 1) (t : Nat) : Bool × Bool :=
  (c.tasks t matches .running (.op (.delete (some (.source _))) _),
    c.tasks t matches .running (.op (.download _) _))

/-- The first delivery has saved its result and is about to delete the upload
that the second one is about to read. -/
def overlapping : List (System.Label (service smallLib 1)) :=
  .enter 0 (Entry.startSimulation smallUuid
      { name := "run", idKey := 7, injectionName := "injection" }
      { content := (), filename := some "data.csv" } 3) ::
    (steps 0 9 ++ [.enter 1 (Entry.deliver (some 1)), .enter 2 (Entry.deliver (some 2))] ++
      steps 2 4 ++ steps 1 19)

/-- No answer of a service comes too late. -/
def onTime (_ : State smallLib 1) : System.Label (service smallLib 1) → Bool
  | .step _ choice => !choice.late
  | _ => true

theorem source_kept_overlapping :
    ∃ (c : State smallLib 1) (k k' : SourceKey) (next : Except Exn Unit → Act ℚ Unit Unit)
      (next' : Except Exn Unit → Act ℚ Unit Unit),
      c.tasks 1 = .running (.op (.delete (some (.source k))) next) ∧
        c.tasks 2 = .running (.op (.download k') next') ∧ c.world.db.row.isSome = true ∧
        ∀ row, c.world.db.row = some row → row.status ≠ .pending := by
  have hruns : ((System.runAll onTime overlapping Finality.start).any fun c =>
      (atUpload c 1).1 && (atUpload c 2).2 && c.world.db.row.isSome) = true := by decide +kernel
  obtain ⟨c, hc, hend⟩ := (Option.any_eq_true _ _).mp hruns
  simp only [Bool.and_eq_true] at hend
  obtain ⟨⟨hdeletes, hdownloads⟩, hrow⟩ := hend
  have hrun : (service smallLib 1).Runs (fun _ => honest) Finality.start
      (System.historyOf overlapping Finality.start) c := by
    refine (System.runs_of_runAll hc).mono fun _ c l hl => ?_
    rintro t choice s next rfl -
    exact (Bool.not_eq_true' _).mp hl
  obtain ⟨k, next, hdelete⟩ : ∃ k next,
      c.tasks 1 = .running (.op (.delete (some (.source k))) next) := by
    simp only [atUpload] at hdeletes
    split at hdeletes
    · exact ⟨_, _, by assumption⟩
    · cases hdeletes
  obtain ⟨k', next', hdownload⟩ : ∃ k' next', c.tasks 2 = .running (.op (.download k') next') := by
    simp only [atUpload] at hdownloads
    split at hdownloads
    · exact ⟨_, _, by assumption⟩
    · cases hdownloads
  exact ⟨c, k, k', next, next', hdelete, hdownload, hrow,
    (source_kept (fun _ => rfl) Finality.start_fresh hrun).1 1 k next hdelete⟩

end SimulationKey.Theorems.SourceKept
