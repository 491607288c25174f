import SimulationKey.Kit.Watched
import SimulationKey.Theorems.Retries

/-!
# Who owns a result

Deliveries and deletions of a simulation. `save_success` stores the result before
its commit, under one key, and a deletion removes the result that the row named
when it was read.

Where no failure is committed over a stored result, and a deletion that commits
over one has read its key, a stored result is always owned: by the row, which is
PENDING or SUCCESS, or by a deletion that has yet to remove it. A row that stays
PENDING past the last delivery owns none, where no claim was given up over one.

* **watch** — `Progress` says how far each deletion has come.
* **claims** — while the row is PENDING, a stored result is under a claim (`Held`).
* **runs** — nothing is in progress and the message is acked, or delivered for the
  last time (`Quiescent`): the owner is a row with the status SUCCESS
  (`owned_by_success`).
-/

namespace SimulationKey.Theorems.Orphans

open Kit Kit.Prog Kit.Discipline
open Settlement (Begins)

variable {F B L α : Type}

/-! ## The watch -/

/-- A task has read a row that names its result, has committed a deletion, has
issued the deletion of a result. -/
structure Progress where
  read : Bool
  committed : Bool
  removed : Bool

def Progress.none : Progress := ⟨false, false, false⟩

/-- It has yet to remove the result. -/
def Progress.owes (p : Progress) : Bool := p.read && p.committed && !p.removed

/-- The world, and the progress of every task. -/
abbrev Watching (F B : Type) : Type := World F B × (Nat → Progress)

section Watch

variable [PyFloat F] {lib : Libraries F B L} {simulationId : Nat}

/-- What an operation adds to its task's progress. -/
def advance : (o : Op F B) → Except Exn o.Resp → Progress → Progress
  | .getSimulationRow .., .ok (some row), p =>
    { p with read := p.read || row.resultStorageKey.isSome }
  | .commitLocal .request, .ok (), p => { p with committed := true }
  | .delete (some (.result _)), _, p => { p with removed := true }
  | _, _, p => p

def note : System.Happening (service lib simulationId) → (Nat → Progress) → (Nat → Progress)
  | .performed t o r, g => Function.update g t (advance o r (g t))
  | _, g => g

theorem note_self {t : Nat} {o : Op F B} {r : Except Exn o.Resp} {g : Nat → Progress} :
    (note (.performed t o r : System.Happening (service lib simulationId)) g) t =
      advance o r (g t) := Function.update_self ..

theorem note_other {t t' : Nat} {o : Op F B} {r : Except Exn o.Resp} {g : Nat → Progress}
    (ht : t' ≠ t) :
    (note (.performed t o r : System.Happening (service lib simulationId)) g) t' = g t' :=
  Function.update_of_ne ht ..

/-- A deletion in storage that does not succeed; the commit of a deletion that
raises though it has committed, or that has not read the key of the stored result;
the commit of a failure over a stored result. -/
def Refuses (key : ResultKey) (choice : Choice) (t : Nat) :
    Op F B → World F B → (Nat → Progress) → Prop
  | .delete _, _, _ => choice ≠ .ok
  | .commitLocal .request, w, g =>
    choice.late = true ∨ w.storage.results key ≠ none ∧ (w.db.own ⟨t, .request⟩).isSome = true ∧
      (g t).read = false
  | .commitLocal .own, w, _ =>
    w.storage.results key ≠ none ∧
      ∃ tx row, w.db.own ⟨t, .own⟩ = some tx ∧ tx.row = some row ∧ row.status = .failed
  | _, _, _ => False

variable (lib simulationId) in
def watch (key : ResultKey) : System.Watch (service lib simulationId) where
  Ghost := Nat → Progress
  note := note
  refuses := Refuses key

theorem progress_of_exec {key : ResultKey} {choice : Choice} {t : Nat} {o : Op F B}
    {w w' : Watching F B} {r : Except Exn o.Resp}
    (hexec : (System.watched (watch lib simulationId key)).exec choice t o w = some (r, w')) :
    w'.2 t = advance o r (w.2 t) ∧ ∀ t', t' ≠ t → w'.2 t' = w.2 t' := by
  have hnote : w'.2 = note (.performed t o r : System.Happening (service lib simulationId)) w.2 :=
    (System.watched_exec.mp hexec).2.2
  rw [hnote]
  exact ⟨note_self, fun t' ht => note_other ht⟩

/-! ## The discipline -/

/-- A version of the simulation's row: it names no other result. -/
structure Keyed (key : ResultKey) (row : SimulationModel) : Prop where
  community : row.idCommunity = key.community
  result : ∀ k, row.resultStorageKey = some k → k = key

structure Inv (key : ResultKey) (w : Watching F B) : Prop where
  created : w.1.db.created = true
  keyed : ∀ row, w.1.db.row = some row → Keyed key row
  own : ∀ tx, w.1.db.tx = some tx → tx.owner.kind = .own →
    (∃ row, w.1.db.row = some row ∧ row.status = .pending) ∧
      ∃ row, tx.row = some row ∧ row.status ≠ .pending ∧ Keyed key row
  request : ∀ tx, w.1.db.tx = some tx → tx.owner.kind = .request → tx.row = none
  stored : w.1.storage.results key ≠ none →
    (∀ row, w.1.db.row = some row → row.status ≠ .failed) ∧
      (w.1.db.row = none → ∃ t, (w.2 t).owes = true)

structure Rely (t : Nat) (w w' : Watching F B) : Prop where
  created : w.1.db.created = true → w'.1.db.created = true
  tx : TxKept t w.1 w'.1
  progress : w'.2 t = w.2 t

/-- Rows are claimed for an outcome in sessions of the task's own and deleted in
requests; a result is stored under a claim. -/
def Pre (key : ResultKey) (t : Nat) : Op F B → Watching F B → Prop
  | .insertRow .., _ | .updateRow .., _ => False
  | .claim s values, _ =>
    s = .own ∧ (∃ status, values.status = some status ∧ status ≠ .pending) ∧
      ∀ k, values.resultStorageKey = some (some k) → k = key
  | .deleteRow s, _ => s = .request
  | .commitLocal .request, w => (w.2 t).removed = false
  | .uploadFile .., w => ∃ tx, w.1.db.tx = some tx ∧ tx.owner = ⟨t, .own⟩
  | .delete (some (.result k)), _ => k = key
  | _, _ => True

omit [PyFloat F] in
theorem Keyed.set {key : ResultKey} {row : SimulationModel} {values : RowValues}
    (h : Keyed key row) (hvalues : ∀ k, values.resultStorageKey = some (some k) → k = key) :
    Keyed key (row.set values) := by
  refine ⟨h.community, fun k hk => ?_⟩
  rw [SimulationModel.set_resultStorageKey] at hk
  cases hset : values.resultStorageKey with
  | none => exact h.result k (by simpa [hset] using hk)
  | some k' => exact hvalues k (by rw [hset] at hk ⊢; exact congrArg some hk)

/-- What the local database keeps; only a commit changes the row. -/
structure DbKept (key : ResultKey) (db : LocalDb F) : Prop where
  created : db.created = true
  keyed : ∀ row, db.row = some row → Keyed key row
  own : ∀ tx, db.tx = some tx → tx.owner.kind = .own →
    (∃ row, db.row = some row ∧ row.status = .pending) ∧
      ∃ row, tx.row = some row ∧ row.status ≠ .pending ∧ Keyed key row
  request : ∀ tx, db.tx = some tx → tx.owner.kind = .request → tx.row = none

omit [PyFloat F] in
theorem Inv.kept {key : ResultKey} {w : Watching F B} (h : Inv key w) : DbKept key w.1.db :=
  ⟨h.created, h.keyed, h.own, h.request⟩

omit [PyFloat F] in
theorem DbKept.drop {key : ResultKey} {db : LocalDb F} (h : DbKept key db) :
    DbKept key { db with tx := none } :=
  ⟨h.created, h.keyed, fun _ htx => (by cases htx), fun _ htx => by cases htx⟩

omit [PyFloat F] in
theorem DbKept.of_move {key : ResultKey} {w : Watching F B} {t : Nat} {o : Op F B}
    {db : LocalDb F} (h : Inv key w) (hpre : Pre key t o w) (hmove : DbMove t w.1.db o db) :
    DbKept key db := by
  cases hmove with
  | same => exact h.kept
  | update | insert => exact hpre.elim
  | @claim s values row free visible pending =>
      obtain ⟨rfl, ⟨status, hstatus, houtcome⟩, hvalues⟩ := hpre
      have hset : (row.set values).status ≠ .pending := by
        rw [SimulationModel.set_status, hstatus]
        exact houtcome
      refine ⟨h.created, h.keyed, fun tx htx _ => ?_, fun tx htx hkind => ?_⟩
      · obtain rfl := Option.some.inj htx
        rcases LocalDb.free_cases free with ⟨-, -, hsame⟩ | ⟨own, hown, howner, -, hversion⟩
        · have hrow : w.1.db.row = some row := hsame ▸ visible
          exact ⟨⟨row, hrow, pending⟩, _, rfl, hset, (h.keyed row hrow).set hvalues⟩
        · obtain ⟨-, row', hrow', hsettled, -⟩ := h.own own hown (by rw [howner])
          obtain rfl := Option.some.inj (hrow'.symm.trans (hversion ▸ visible))
          exact absurd pending hsettled
      · obtain rfl := Option.some.inj htx
        cases hkind
  | @delete s row free visible =>
      obtain rfl : s = .request := hpre
      refine ⟨h.created, h.keyed, fun tx htx hkind => ?_, fun tx htx _ => ?_⟩
      · obtain rfl := Option.some.inj htx
        cases hkind
      · obtain rfl := Option.some.inj htx
        rfl
  | @tree s tx tree own =>
      have htx := ((LocalDb.own_eq_some _ _).mp own).1
      refine ⟨h.created, h.keyed, fun tx' htx' => ?_, fun tx' htx' => ?_⟩
      · obtain rfl := Option.some.inj htx'
        exact h.own tx htx
      · obtain rfl := Option.some.inj htx'
        exact h.request tx htx
  | commit s =>
      cases hown : w.1.db.own ⟨t, s⟩ with
      | none =>
          rw [LocalDb.commit_of_not_own hown]
          exact h.kept
      | some tx =>
          obtain ⟨htx, howner⟩ := (LocalDb.own_eq_some _ _).mp hown
          rw [LocalDb.commit_of_own hown]
          refine ⟨rfl, fun row hrow => ?_, fun _ htx => (by cases htx), fun _ htx => by cases htx⟩
          have hrow : tx.row = some row := hrow
          cases s with
          | own =>
              obtain ⟨-, row', hrow', -, hkeyed⟩ := h.own tx htx (by rw [howner])
              obtain rfl := Option.some.inj (hrow.symm.trans hrow')
              exact hkeyed
          | request =>
              rw [h.request tx htx (by rw [howner])] at hrow
              cases hrow
  | rollback s =>
      cases hown : w.1.db.own ⟨t, s⟩ with
      | none =>
          rw [LocalDb.rollback_of_not_own hown]
          exact h.kept
      | some tx =>
          rw [LocalDb.rollback_of_own hown]
          exact h.kept.drop

omit [PyFloat F] in
/-- A result comes to be stored by its upload. -/
theorem uploads_of_effect {key : ResultKey} {t : Nat} {o : Op F B} {w w' : World F B}
    (heffect : Effect t w o w') (hbefore : w.storage.results key = none)
    (hafter : w'.storage.results key ≠ none) : (∃ k path, o = .uploadFile k path) := by
  cases heffect with
  | none | db | audit | nats | files | finished => exact absurd hbefore hafter
  | storage hmove =>
      cases hmove with
      | source => exact absurd hbefore hafter
      | result k path series => exact ⟨k, path, rfl⟩
      | delete k =>
          refine absurd ?_ hafter
          rcases k with _ | k | k
          · exact hbefore
          · exact hbefore
          · by_cases hk : key = k
            · simp [ObjectStore.delete, hk]
            · simpa [ObjectStore.delete, Function.update_of_ne hk] using hbefore

omit [PyFloat F] in
/-- What is owed is owed until the result's deletion is issued. -/
theorem owes_advance {o : Op F B} {r : Except Exn o.Resp} {p : Progress}
    (ho : ∀ k, o ≠ .delete (some (.result k))) (h : p.owes = true) :
    (advance o r p).owes = true := by
  unfold advance
  split
  · simp only [Progress.owes, Bool.and_eq_true, Bool.or_eq_true] at h ⊢
    exact ⟨⟨Or.inl h.1.1, h.1.2⟩, h.2⟩
  · simp only [Progress.owes, Bool.and_eq_true] at h ⊢
    exact ⟨⟨h.1.1, trivial⟩, h.2⟩
  · exact absurd rfl (ho _)
  · exact h

theorem stored_of_exec {key : ResultKey} {choice : Choice} {t : Nat} {o : Op F B}
    {w w' : Watching F B} {r : Except Exn o.Resp} (h : Inv key w) (hpre : Pre key t o w)
    (hexec : (System.watched (watch lib simulationId key)).exec choice t o w = some (r, w'))
    (hafter : w'.1.storage.results key ≠ none) :
    (∀ row, w'.1.db.row = some row → row.status ≠ .failed) ∧
      (w'.1.db.row = none → ∃ t, (w'.2 t).owes = true) := by
  obtain ⟨haccepted, hworld, -⟩ := System.watched_exec.mp hexec
  obtain ⟨hself, hothers⟩ := progress_of_exec hexec
  by_cases hremoves : ∃ k, o = .delete (some (.result k))
  · -- it is removed
    obtain ⟨k, rfl⟩ := hremoves
    obtain rfl : k = key := hpre
    have hok : choice = .ok := by_contra haccepted
    rw [hok] at hworld
    have hw' := (Prod.mk.inj (Option.some.inj hworld)).2
    rw [← hw'] at hafter
    exact absurd (by simp [ObjectStore.delete]) hafter
  have howes : (∃ t, (w.2 t).owes = true) → ∃ t, (w'.2 t).owes = true := by
    rintro ⟨t', howes⟩
    refine ⟨t', ?_⟩
    by_cases ht : t' = t
    · subst ht
      rw [hself]
      exact owes_advance (fun k hk => hremoves ⟨k, hk⟩) howes
    · rw [hothers t' ht]
      exact howes
  have hmove := exec_db hworld
  by_cases hbefore : w.1.storage.results key = none
  · -- it is uploaded, under a claim
    obtain ⟨k, path, rfl⟩ := uploads_of_effect (exec_effect hworld) hbefore hafter
    obtain ⟨tx, htx, howner⟩ := hpre
    obtain ⟨⟨row, hrow, hpending⟩, -⟩ := h.own tx htx (by rw [howner])
    rw [hmove.eq_of_not_writesDb rfl]
    refine ⟨fun row' hrow' => ?_, fun hgone => ?_⟩
    · obtain rfl := Option.some.inj (hrow.symm.trans hrow')
      rw [hpending]
      decide
    · rw [hrow] at hgone
      cases hgone
  obtain ⟨hunfailed, howed⟩ := h.stored hbefore
  have hsame : w'.1.db.row = w.1.db.row →
      (∀ row, w'.1.db.row = some row → row.status ≠ .failed) ∧
        (w'.1.db.row = none → ∃ t, (w'.2 t).owes = true) := by
    intro hsame
    rw [hsame]
    exact ⟨hunfailed, fun hgone => howes (howed hgone)⟩
  rcases hmove.row with hrow | ⟨s, tx, rfl, hown, hrow⟩
  · exact hsame hrow
  obtain ⟨htx, howner⟩ := (LocalDb.own_eq_some _ _).mp hown
  cases s with
  | own =>
      obtain ⟨-, row, hversion, -⟩ := h.own tx htx (by rw [howner])
      rw [hrow]
      refine ⟨fun row' hrow' hfailed => ?_, fun hgone => ?_⟩
      · exact haccepted ⟨hbefore, tx, row', hown, hrow', hfailed⟩
      · rw [hversion] at hgone
        cases hgone
  | request =>
      have hpunctual : choice.late = false :=
        (Bool.not_eq_true _).mp fun hlate => haccepted (Or.inl hlate)
      rcases exec_punctual rfl hpunctual hworld with hsame' | hanswer
      · exact hsame (by rw [hsame'])
      · -- the deletion has read the key
        obtain rfl := (Prod.mk.inj (Option.some.inj hanswer)).1
        have hread : (w.2 t).read = true := by
          by_contra hread
          exact haccepted (Or.inr ⟨hbefore, by rw [hown]; rfl, (Bool.not_eq_true _).mp hread⟩)
        have hremoved : (w.2 t).removed = false := hpre
        refine ⟨fun row' hrow' => ?_, fun _ => ⟨t, ?_⟩⟩
        · rw [hrow, h.request tx htx (by rw [howner])] at hrow'
          cases hrow'
        · rw [hself]
          simp [advance, Progress.owes, hread, hremoved]

theorem exec_sound {key : ResultKey} {choice : Choice} {t : Nat} {o : Op F B}
    {w w' : Watching F B} {r : Except Exn o.Resp} (h : Inv key w) (hpre : Pre key t o w)
    (hexec : (System.watched (watch lib simulationId key)).exec choice t o w = some (r, w')) :
    Inv key w' ∧ ∀ t', t' ≠ t → Rely t' w w' := by
  have hmove := exec_db (System.watched_exec.mp hexec).2.1
  have hkept := DbKept.of_move h hpre hmove
  refine ⟨⟨hkept.created, hkept.keyed, hkept.own, hkept.request, stored_of_exec h hpre hexec⟩,
    fun t' hne => ⟨fun _ => hkept.created, fun tx howner => hmove.others ?_,
      (progress_of_exec hexec).2 t' hne⟩⟩
  rw [howner]
  exact hne

omit [PyFloat F] in
/-- Entries, the ends of tasks and events: at most a transaction is dropped. -/
theorem Inv.drop {key : ResultKey} {w w' : Watching F B} (h : Inv key w)
    (hdb : w'.1.db = w.1.db ∨ w'.1.db = { w.1.db with tx := none })
    (hstorage : w'.1.storage = w.1.storage) (hghost : w'.2 = w.2) : Inv key w' := by
  have hkept : DbKept key w'.1.db := by
    rcases hdb with hdb | hdb <;> rw [hdb]
    · exact h.kept
    · exact h.kept.drop
  have hrow : w'.1.db.row = w.1.db.row := by rcases hdb with hdb | hdb <;> rw [hdb]
  refine ⟨hkept.created, hkept.keyed, hkept.own, hkept.request, ?_⟩
  rw [hstorage, hrow, hghost]
  exact h.stored

omit [PyFloat F] in
theorem Rely.of_db {t : Nat} {w w' : Watching F B} (hdb : w'.1.db = w.1.db)
    (hghost : w'.2 = w.2) : Rely t w w' :=
  ⟨fun h => hdb ▸ h, fun tx _ => by rw [hdb], by rw [hghost]⟩

variable (lib simulationId) in
def ownership (key : ResultKey) : Discipline (System.watched (watch lib simulationId key)) where
  inv := Inv key
  rely := Rely
  unstarted t w := NoTx t w.1 ∧ w.2 t = .none
  pre := Pre key
  unstarted_rely := fun h hrely =>
    ⟨h.1.kept hrely.tx, hrely.progress.trans h.2⟩
  rely_refl := fun _ _ => .of_db rfl rfl
  rely_trans := fun h h' =>
    ⟨h'.created ∘ h.created, fun tx howner => (h.tx tx howner).trans (h'.tx tx howner),
      h'.progress.trans h.progress⟩
  exec_sound := exec_sound
  enter_sound := fun {e w w' p} h henter => by
    obtain ⟨t, e⟩ := e
    obtain ⟨henter, hghost⟩ := System.watched_enter.mp henter
    obtain ⟨started, hw⟩ := enter_world henter
    have hdb : w'.1.db = w.1.db := by rw [hw]
    have hghost : w'.2 = w.2 := hghost
    exact ⟨h.drop (Or.inl hdb) (by rw [hw]) hghost, fun t => .of_db hdb hghost⟩
  abort_sound := fun {t w} h => by
    refine ⟨h.drop ((World.abort_db t w.1).imp_right fun ⟨_, _, _, hdrop⟩ => hdrop) rfl rfl,
      fun t' hne => ⟨fun hcreated => ?_, fun tx howner => World.abort_others ?_, rfl⟩⟩
    · show (w.1.abort t).db.created = true
      rcases World.abort_db t w.1 with hsame | ⟨-, -, -, hdrop⟩
      · rw [hsame]
        exact hcreated
      · rw [hdrop]
        exact hcreated
    · rw [howner]
      exact hne
  event_sound := fun h => ⟨h.drop (Or.inl rfl) rfl rfl, fun _ => .of_db rfl rfl⟩

end Watch

/-! ## Deliveries -/

section Triples

variable [PyFloat F] {lib : Libraries F B L} {simulationId t : Nat} {key : ResultKey}

/-- The task has committed no deletion. -/
def Uncommitted (t : Nat) (w : Watching F B) : Prop := (w.2 t).committed = false

/-- A handler between two sessions, in one, and in one that holds a claim. -/
def Rest (t : Nat) (w : Watching F B) : Prop := Base t w.1 ∧ Uncommitted t w

def Inside (t : Nat) (w : Watching F B) : Prop := Mine t w.1 ∧ Uncommitted t w

def Holding (t : Nat) (w : Watching F B) : Prop := Settlement.Claimed t w.1 ∧ Uncommitted t w

theorem uncommitted_stable : (ownership lib simulationId key).Stable t (Uncommitted t) :=
  fun h hrely => by
    unfold Uncommitted
    rw [hrely.progress]
    exact h

theorem rest_stable : (ownership lib simulationId key).Stable t (Rest t) := fun h hrely =>
  ⟨⟨hrely.created h.1.created, fun tx htx howner =>
    h.1.noTx tx ((hrely.tx tx howner).mpr htx) howner⟩, uncommitted_stable h.2 hrely⟩

theorem inside_stable : (ownership lib simulationId key).Stable t (Inside t) := fun h hrely =>
  ⟨⟨hrely.created h.1.created, fun tx htx howner =>
    h.1.owner tx ((hrely.tx tx howner).mpr htx) howner⟩, uncommitted_stable h.2 hrely⟩

theorem holding_stable : (ownership lib simulationId key).Stable t (Holding t) := by
  rintro w w' ⟨⟨hcreated, tx, htx, howner, houtcome⟩, huncommitted⟩ hrely
  exact ⟨⟨hrely.created hcreated, tx, (hrely.tx tx (by rw [howner])).mp htx, howner, houtcome⟩,
    uncommitted_stable huncommitted hrely⟩

omit [PyFloat F] in
theorem advance_committed {o : Op F B} {r : Except Exn o.Resp} {p : Progress}
    (ho : o ≠ .commitLocal .request) : (advance o r p).committed = p.committed := by
  unfold advance
  split
  · rfl
  · exact absurd rfl ho
  · rfl
  · rfl

theorem uncommitted_of_exec {choice : Choice} {o : Op F B} {w w' : Watching F B}
    {r : Except Exn o.Resp} (h : Uncommitted t w) (ho : o ≠ .commitLocal .request)
    (hexec : (System.watched (watch lib simulationId key)).exec choice t o w = some (r, w')) :
    Uncommitted t w' := by
  unfold Uncommitted
  rw [(progress_of_exec hexec).1, advance_committed ho]
  exact h

/-- An operation outside the local database that asks for nothing. -/
def neutral : Op F B → Bool
  | .uploadFile .. | .delete (some (.result _)) => false
  | o => !o.writesDb

omit [PyFloat F] in
theorem neutral_pre {o : Op F B} (ho : neutral o = true) (w : Watching F B) : Pre key t o w := by
  cases o
  case delete k => rcases k with _ | k | k <;> trivial
  all_goals trivial

omit [PyFloat F] in
theorem neutral_writesDb {o : Op F B} (ho : neutral o = true) : o.writesDb = false := by
  cases o
  case delete k => rfl
  all_goals first | rfl | cases ho

theorem rest_exec {choice : Choice} {o : Op F B} {w w' : Watching F B} {r : Except Exn o.Resp}
    (h : Rest t w) (ho : o.writesDb = false)
    (hexec : (System.watched (watch lib simulationId key)).exec choice t o w = some (r, w')) :
    Rest t w' := by
  refine ⟨h.1.of_db ((exec_db (System.watched_exec.mp hexec).2.1).eq_of_not_writesDb ho),
    uncommitted_of_exec h.2 ?_ hexec⟩
  rintro rfl
  cases ho

theorem yields_neutral {p : Act F B α} (hops : p.AllOps fun o => neutral o = true) :
    (ownership lib simulationId key).Yields t (Rest t) p fun _ _ => True :=
  .of_allOps rest_stable (hops.mono fun _ ho w _ hrest =>
    ⟨neutral_pre ho w, fun _ _ _ hexec => rest_exec hrest (neutral_writesDb ho) hexec⟩)
    fun _ _ _ => trivial

theorem yields_session {body : Act F B α}
    (hbody : ∀ w, Rest t w → (ownership lib simulationId key).Safe t (fun _ w => Inside t w) body w) :
    (ownership lib simulationId key).Yields t (Rest t) (withLocalSession .own body)
      fun _ _ => True := by
  intro w hw
  refine Safe.ensuring ((hbody w hw).mono fun outcome w hinside => ?_)
  refine safe_perform (d := ownership lib simulationId key) inside_stable hinside
    (fun _ _ _ => trivial) fun choice r w' w'' _ hinside hexec => ?_
  have hclosed := exec_closeLocal (System.watched_exec.mp hexec).2.1
  have hrest : Rest t w'' := by
    refine ⟨?_, uncommitted_of_exec hinside.2 (by simp) hexec⟩
    rw [hclosed]
    exact hinside.1.close
  cases r with
  | ok u => exact ⟨hrest, fun _ _ => trivial⟩
  | error e => exact ⟨hrest, fun _ _ => trivial⟩

/-- What an outcome's transaction holds besides the row. -/
def carried : Op F B → Bool
  | .insertTree .own _ | .uploadFile .. => true
  | _ => false

theorem holding_exec {choice : Choice} {o : Op F B} {w w' : Watching F B} {r : Except Exn o.Resp}
    (h : Holding t w) (ho : carried o = true)
    (hexec : (System.watched (watch lib simulationId key)).exec choice t o w = some (r, w')) :
    Holding t w' := by
  have hworld := (System.watched_exec.mp hexec).2.1
  cases o with
  | insertTree | uploadFile =>
      exact ⟨h.1.exec rfl hworld, uncommitted_of_exec h.2 (by simp) hexec⟩
  | _ => cases ho

omit [PyFloat F] in
theorem carried_pre {o : Op F B} {w : Watching F B} (ho : carried o = true) (h : Holding t w) :
    Pre key t o w := by
  obtain ⟨tx, htx, howner, -⟩ := h.1.tx
  cases o with
  | insertTree s tree => trivial
  | uploadFile k path => exact ⟨tx, htx, howner⟩
  | _ => cases ho

theorem yields_claimAndCommit {values : SimulationModel → RowValues}
    {rest : SimulationModel → Act F B Unit}
    (hvalues : ∀ row, ∃ status, (values row).status = some status ∧ status ≠ .pending)
    (hkeys : ∀ row, Keyed key row → ∀ k, (values row).resultStorageKey = some (some k) → k = key)
    (hrest : ∀ row, (rest row).AllOps fun o => carried o = true) :
    (ownership lib simulationId key).Yields t (Rest t) (claimAndCommit values rest)
      fun _ _ => True := by
  have hinside : ∀ {w : Watching F B}, Rest t w → Inside t w := fun h => ⟨h.1.mine, h.2⟩
  refine yields_session fun w hw => Safe.bind (safe_perform rest_stable hw (fun _ _ _ => trivial)
    fun choice r w' w'' hinv hrest' hexec => ?_)
  have hrest'' : Rest t w'' := rest_exec hrest' rfl hexec
  cases r with
  | error e => exact hinside hrest''
  | ok row =>
      obtain ⟨rfl, -⟩ := Settlement.exec_getRow hrest'.1 (System.watched_exec.mp hexec).2.1
      cases hrow : w'.1.db.row with
      | none => exact hinside hrest''
      | some simulation =>
          have hkeyed : Keyed key simulation := hinv.keyed simulation hrow
          refine Safe.bind (safe_perform rest_stable hrest''
            (fun _ _ _ => ⟨rfl, hvalues simulation, hkeys simulation hkeyed⟩)
            fun choice r w₁ w₂ _ hrest₁ hexec => ?_)
          have hworld := (System.watched_exec.mp hexec).2.1
          have huncommitted : Uncommitted t w₂ := uncommitted_of_exec hrest₁.2 (by simp) hexec
          cases r with
          | error e => exact ⟨Settlement.mine_of_claim hrest₁.1 hworld, huncommitted⟩
          | ok n =>
              obtain ⟨hnone, hflipped⟩ :=
                Settlement.settled_or_claimed hrest₁.1 (hvalues simulation) hworld
              by_cases hn : n = 0
              · simp only [hn, if_true]
                exact ⟨(hnone hn).1.mine, huncommitted⟩
              · simp only [hn, if_false]
                have hholding : Holding t w₂ := ⟨hflipped hn, huncommitted⟩
                refine Safe.bind ((Safe.of_allOps holding_stable
                  ((hrest simulation).mono fun _ ho w _ h => ⟨carried_pre ho h,
                    fun choice r w' hexec => holding_exec h ho hexec⟩) hholding).mono
                  fun r w hholding => ?_)
                cases r with
                | error e => exact ⟨hholding.1.mine, hholding.2⟩
                | ok u =>
                    refine Safe.bind (safe_perform holding_stable hholding (fun _ _ _ => trivial)
                      fun choice r w₃ w₄ _ hholding hexec => ?_)
                    have hcommitted : Inside t w₄ :=
                      ⟨(hholding.1.commit (System.watched_exec.mp hexec).2.1).1,
                        uncommitted_of_exec hholding.2 (by simp) hexec⟩
                    cases r <;> exact hcommitted

theorem yields_recorded {committed : Act F B (Option Nat)} {id : Nat} {payload : AuditPayload}
    {hint : SimulationStatus}
    (hcommitted : (ownership lib simulationId key).Yields t (Rest t) committed fun _ _ => True) :
    (ownership lib simulationId key).Yields t (Rest t)
      (committed >>= fun
        | none => pure ()
        | some idCommunity => announce id idCommunity payload hint) fun _ _ => True := by
  refine hcommitted.next fun found => ?_
  cases found with
  | none => exact .pure fun _ _ => trivial
  | some idCommunity =>
      exact yields_neutral (.bind (.ensuring (.bind (.perform rfl) fun _ => .perform rfl)
        (.perform rfl)) fun _ => .perform rfl)

theorem yields_saveFailure (id : Nat) (errorMessage : String) :
    (ownership lib simulationId key).Yields t (Rest t) (saveFailure id errorMessage)
      fun _ _ => True :=
  yields_recorded (yields_claimAndCommit (fun _ => ⟨.failed, rfl, by decide⟩)
    (fun _ _ k hk => by cases hk) fun _ => trivial)

theorem yields_saveSuccess (hkey : key.simulation = simulationId) (result : KeySimResult F)
    (path : Nat) :
    (ownership lib simulationId key).Yields t (Rest t) (saveSuccess simulationId result path)
      fun _ _ => True := by
  refine yields_recorded (yields_claimAndCommit (fun _ => ⟨.success, rfl, by decide⟩)
    (fun row hkeyed k hk => ?_) fun _ => .bind (.perform rfl) fun _ => .perform rfl)
  obtain rfl : resultKeyOf simulationId row = k := Option.some.inj (Option.some.inj hk)
  obtain ⟨community, simulation⟩ := key
  obtain rfl : simulation = simulationId := hkey
  simp [resultKeyOf, hkeyed.community]

theorem handles (hkey : key.simulation = simulationId) :
    Handles (ownership lib simulationId key) simulationId t (Rest t)
      (fun _ _ => True) (fun _ => True) (fun _ _ => True) where
  routine o ho := yields_neutral (.perform (by cases o <;> first | rfl | cases ho))
  snapshot := yields_session fun w hw => safe_perform rest_stable hw (fun _ _ _ => trivial)
    fun choice r w' w'' _ hrest hexec => by
      have hrest'' : Rest t w'' := rest_exec hrest rfl hexec
      exact ⟨hrest''.1.mine, hrest''.2⟩
  failure m _ := yields_saveFailure simulationId m
  success result path := yields_saveSuccess hkey result path
  download row k _ := by
    refine Yields.mono (K := fun _ _ => True) ?_ fun _ _ _ _ _ => trivial
    refine (Yields.tryCatch ((yields_neutral (p := await (.download k)) (.perform rfl)).next
      fun content => .pure fun _ _ => trivial) fun e => ?_).knowing .always
    cases e with
    | objectNotFound text =>
        exact (yields_saveFailure simulationId _).next fun _ => .pure fun _ _ => trivial
    | _ => exact .raise _
  seen _ := .always
  saved := .always
  exit _ := .always
  gone _ _ := trivial
  settled _ _ _ _ := trivial
  exit_saved _ _ _ _ := trivial
  exit_without _ _ _ _ _ := trivial

/-- The task has no claim under way. -/
def Unclaimed (t : Nat) (w : Watching F B) : Prop := w.1.db.own ⟨t, .own⟩ = none

theorem unclaimed_stable : (ownership lib simulationId key).Stable t (Unclaimed t) :=
  fun h hrely => (LocalDb.own_eq_none _ _).mpr fun tx htx howner =>
    (LocalDb.own_eq_none _ _).mp h tx ((hrely.tx tx (by rw [howner])).mpr htx) howner

/-- A task that has ended owes nothing and holds nothing. -/
def Post (t : Nat) (_ : Except Exn Unit) (w : Watching F B) : Prop :=
  Unclaimed t w ∧ (w.2 t).owes = false

theorem post_stable (r : Except Exn Unit) : (ownership lib simulationId key).Stable t (Post t r) :=
  fun h hrely => ⟨unclaimed_stable h.1 hrely, by rw [hrely.progress]; exact h.2⟩

omit [PyFloat F] in
theorem post_of_rest {w : Watching F B} (h : Rest t w) (r : Except Exn Unit) : Post t r w := by
  have hcommitted : (w.2 t).committed = false := h.2
  exact ⟨h.1.noTx.own .own, by simp [Progress.owes, hcommitted]⟩

theorem safe_handleMessage (hkey : key.simulation = simulationId) {w : Watching F B}
    (hw : Rest t w) (delivered : Option Nat) :
    (ownership lib simulationId key).Safe t (Post t) (handleMessage lib simulationId delivered)
      w := by
  have hneutral : ∀ {p : Act F B Unit} {w : Watching F B}, Rest t w →
      (p.AllOps fun o => neutral o = true) →
        (ownership lib simulationId key).Safe t (Post t) p w :=
    fun hw hops => (yields_neutral hops _ hw).mono fun r _ hr => post_of_rest hr.1 r
  refine Safe.andThen ((((handles hkey).process lib delivered).ensuring (fun _ => .always)
    ((handles hkey).routine .stopHeartbeat rfl) w hw).mono fun r w hr => ?_)
  have hunhandled : (ownership lib simulationId key).Safe t (Post t)
      (saveFailure simulationId "unhandled_worker_error" >>= fun _ => await .ack) w :=
    (((yields_saveFailure simulationId _).next fun _ => yields_neutral (p := await .ack)
      (.perform rfl)) w hr.1).mono fun r _ hr => post_of_rest hr.1 r
  cases r with
  | ok storageKey =>
      refine hneutral hr.1 (.bind (.perform rfl) fun _ => ?_)
      cases storageKey with
      | none => trivial
      | some k => exact .perform rfl
  | error e =>
      cases e with
      | cancelled => exact post_of_rest hr.1 _
      | transientError text => exact hneutral hr.1 (.perform rfl)
      | _ => exact hunhandled

/-! ## Deletions -/

/-- How far the task has come. -/
def At (t : Nat) (p : Progress) (w : Watching F B) : Prop := w.2 t = p

theorem at_stable {p : Progress} : (ownership lib simulationId key).Stable t (At t p) :=
  fun h hrely => hrely.progress.trans h

theorem at_of_exec {choice : Choice} {o : Op F B} {w w' : Watching F B} {r : Except Exn o.Resp}
    {p : Progress} (h : At t p w)
    (hexec : (System.watched (watch lib simulationId key)).exec choice t o w = some (r, w')) :
    At t (advance o r p) w' := by
  unfold At at h ⊢
  rw [(progress_of_exec hexec).1, h]

/-- An operation that adds nothing to the progress of a task that owes nothing. -/
theorem safe_idle {o : Op F B} {p : Progress} {w : Watching F B} (hw : At t p w)
    (hpre : ∀ w, Pre key t o w) (hadvance : ∀ r, advance o r p = p) :
    (ownership lib simulationId key).Safe t (fun _ w => At t p w) (await o) w :=
  safe_perform at_stable hw (fun w _ _ => hpre w) fun _ r _ _ _ h hexec =>
    hadvance r ▸ at_of_exec h hexec

/-- The row, where it is there to be read, and the deletion's progress. -/
theorem visible_keyed {w : Watching F B} (h : Inv key w) {s : SessionKind} {community : Nat}
    {found : Option SimulationModel} {choice : Choice} {w' : World F B}
    (hnoTx : NoTx t w.1)
    (hexec : exec choice t (.getSimulationRow s community) w.1 = some (.ok found, w')) :
    ∀ row, found = some row → Keyed key row := by
  rintro row rfl
  obtain ⟨hfound, -⟩ := Prod.mk.inj (Option.some.inj (exec_ok rfl hexec))
  obtain ⟨hvisible, -⟩ := Option.filter_eq_some_iff.mp (Except.ok.inj hfound)
  have hown : w.1.db.own ⟨t, s⟩ = none :=
    (LocalDb.own_eq_none _ _).mpr fun tx htx howner => hnoTx tx htx (by rw [howner])
  simp only [LocalDb.visible, hown] at hvisible
  exact h.keyed row hvisible

/-- A deletion in storage succeeds. -/
theorem deleted_of_exec {choice : Choice} {k : Option ObjectKey} {w w' : Watching F B}
    {r : Except Exn Unit}
    (hexec : (System.watched (watch lib simulationId key)).exec choice t (.delete k) w =
      some (r, w')) : r = .ok () := by
  obtain ⟨haccepted, hworld, -⟩ := System.watched_exec.mp hexec
  have hok : choice = .ok := by_contra haccepted
  rw [hok] at hworld
  exact (Prod.mk.inj (Option.some.inj hworld)).1.symm

/-- From its commit on, a deletion removes the result that its row named. -/
theorem safe_removal {w : Watching F B} (row : SimulationModel) (hkeyed : Keyed key row)
    (entry : AuditEntry) (hw : At t ⟨row.resultStorageKey.isSome, true, false⟩ w) :
    (ownership lib simulationId key).Safe t (fun _ w => (w.2 t).owes = false)
      (do
        await (.delete (row.fileStorageKey.map .source))
        match row.resultStorageKey with
        | none => pure ()
        | some k => await (.delete (some (.result k)))
        await (.logAudit .request entry)) w := by
  have hlog : ∀ {p : Progress} {w : Watching F B}, p.owes = false → At t p w →
      (ownership lib simulationId key).Safe t (fun _ w => (w.2 t).owes = false)
        (await (.logAudit .request entry) : Act F B Unit) w := by
    intro p w howes hw
    refine (safe_idle hw (fun _ => by trivial) fun _ => rfl).mono fun r w h => ?_
    rw [show w.2 t = p from h]
    exact howes
  refine Safe.bind (safe_perform at_stable hw (fun _ _ _ => ?_) fun choice r w w' _ h hexec => ?_)
  · cases row.fileStorageKey <;> trivial
  obtain rfl := deleted_of_exec hexec
  have h : At t ⟨row.resultStorageKey.isSome, true, false⟩ w' := by
    have hafter := at_of_exec h hexec
    cases hsource : row.fileStorageKey <;> rw [hsource] at hafter <;> exact hafter
  cases hresult : row.resultStorageKey with
  | none =>
      rw [hresult] at h
      exact hlog rfl h
  | some k =>
      rw [hresult] at h
      refine Safe.bind (safe_perform at_stable h (fun _ _ _ => hkeyed.result k hresult)
        fun choice r w w' _ h hexec => ?_)
      obtain rfl := deleted_of_exec hexec
      exact hlog rfl (at_of_exec h hexec)

theorem safe_deleteSimulation {w : Watching F B} (hnoTx : NoTx t w.1) (hw : At t .none w)
    (id community : Nat) :
    (ownership lib simulationId key).Safe t (fun _ w => (w.2 t).owes = false)
      (deleteSimulation id community : Act F B Unit) w := by
  have howes : ∀ {p : Progress} {w : Watching F B}, p.committed = false → At t p w →
      (w.2 t).owes = false := by
    intro p w hcommitted h
    rw [show w.2 t = p from h]
    simp [Progress.owes, hcommitted]
  refine Safe.bind (safe_perform (d := ownership lib simulationId key)
    (A := fun w => NoTx t w.1 ∧ At t .none w) (fun h hrely =>
      ⟨fun tx htx howner => h.1 tx ((hrely.tx tx howner).mpr htx) howner, at_stable h.2 hrely⟩)
    ⟨hnoTx, hw⟩ (fun _ _ _ => trivial) fun choice r w w' hinv h hexec => ?_)
  have hread := at_of_exec h.2 hexec
  cases r with
  | error e => exact howes (by rfl) hread
  | ok found =>
      have hkeyed := visible_keyed hinv h.1 (System.watched_exec.mp hexec).2.1
      cases found with
      | none => exact howes (by rfl) hread
      | some row =>
          have hread : At t ⟨row.resultStorageKey.isSome, false, false⟩ w' := by
            simpa [advance, Progress.none] using hread
          refine Safe.bind (safe_perform at_stable hread (fun _ _ _ => rfl)
            fun choice r w w' _ h hexec => ?_)
          have hdeleted := at_of_exec h hexec
          cases r with
          | error e => exact howes (by rfl) hdeleted
          | ok u =>
              refine Safe.bind (safe_perform at_stable hdeleted (fun w _ h => ?_)
                fun choice r w w' _ h hexec => ?_)
              · show (w.2 t).removed = false
                rw [show w.2 t = _ from h]
                rfl
              have hcommitted := at_of_exec h hexec
              cases r with
              | error e => exact howes (by rfl) hcommitted
              | ok u => exact safe_removal row (hkeyed row rfl) _ hcommitted

theorem safe_answered {body : Act F B α} {w : Watching F B}
    (h : (ownership lib simulationId key).Safe t (fun _ w => (w.2 t).owes = false) body w) :
    (ownership lib simulationId key).Safe t (fun _ w => (w.2 t).owes = false) (answered body)
      w := by
  have hclose : ∀ {o : Op F B} {w : Watching F B}, (w.2 t).owes = false →
      (∀ w, Pre key t o w) → (∀ r p, advance o r p = p) →
        (ownership lib simulationId key).Safe t (fun _ w => (w.2 t).owes = false) (await o) w := by
    intro o w howes hpre hadvance
    refine (safe_idle (p := w.2 t) rfl hpre fun r => hadvance r _).mono fun r w' h => ?_
    rw [show w'.2 t = w.2 t from h]
    exact howes
  refine Safe.bind (Safe.ensuring (Safe.mono (Q := fun _ w => (w.2 t).owes = false)
    (Safe.ensuring (h.mono fun outcome w h =>
      (hclose h (fun _ => by trivial) fun _ _ => rfl).mono fun r _ h => ?_))
    fun outcome w h => (hclose h (fun _ => by trivial) fun _ _ => rfl).mono fun r _ h => ?_))
  · cases r <;> exact h
  · cases r with
    | ok u => cases outcome <;> exact h
    | error e => exact h

/-- Only a claim is held in a session of the task's own. -/
theorem unclaimed_of_exec {choice : Choice} {o : Op F B} {w w' : Watching F B}
    {r : Except Exn o.Resp} (ho : ∀ s values, o ≠ .claim s values) (hpre : Pre key t o w)
    (h : Unclaimed t w)
    (hexec : (System.watched (watch lib simulationId key)).exec choice t o w = some (r, w')) :
    Unclaimed t w' := by
  have hmove := exec_db (System.watched_exec.mp hexec).2.1
  unfold Unclaimed at h ⊢
  generalize w'.1.db = db at hmove ⊢
  cases hmove with
  | same => exact h
  | claim => exact absurd rfl (ho _ _)
  | update | insert => exact hpre.elim
  | @delete s row free visible =>
      obtain rfl : s = .request := hpre
      refine (LocalDb.own_eq_none _ _).mpr fun tx htx howner => ?_
      obtain rfl := Option.some.inj htx
      cases howner
  | @tree s tx tree own =>
      have htx := ((LocalDb.own_eq_some _ _).mp own).1
      refine (LocalDb.own_eq_none _ _).mpr fun tx' htx' => ?_
      obtain rfl := Option.some.inj htx'
      exact (LocalDb.own_eq_none _ _).mp h tx htx
  | commit s | rollback s =>
      refine (LocalDb.own_eq_none _ _).mpr fun tx htx => ?_
      refine (LocalDb.own_eq_none _ _).mp h tx ?_
      cases hown : w.1.db.own ⟨t, s⟩ with
      | none => simpa [LocalDb.commit, LocalDb.rollback, hown] using htx
      | some own => simp [LocalDb.commit, LocalDb.rollback, hown] at htx

theorem safe_deletion {w : Watching F B} (hnoTx : NoTx t w.1) (hw : At t .none w)
    (id community : Nat) :
    (ownership lib simulationId key).Safe t (Post t)
      (answered (deleteSimulation id community : Act F B Unit)) w := by
  have hunclaiming : (answered (deleteSimulation id community : Act F B Unit)).AllOps
      fun o => ∀ s values, o ≠ .claim s values := by
    refine .bind (.ensuring (.ensuring (.bind (.perform (by simp)) fun found => ?_)
      (.perform (by simp))) (.perform (by simp))) fun _ => trivial
    cases found with
    | none => trivial
    | some row =>
        refine .bind (.perform (by simp)) fun _ => .bind (.perform (by simp)) fun _ =>
          .bind (.perform (by simp)) fun _ => ?_
        cases row.resultStorageKey with
        | none => exact .perform (by simp)
        | some k => exact .bind (.perform (by simp)) fun _ => .perform (by simp)
  exact (safe_answered (safe_deleteSimulation hnoTx hw id community)).frame_of_allOps
    unclaimed_stable (hunclaiming.mono fun _ ho _ _ _ _ _ hpre h hexec =>
      unclaimed_of_exec ho hpre h hexec) (hnoTx.own .own)

end Triples

/-! ## Runs -/

section Runs

variable [PyFloat F] {lib : Libraries F B L} {simulationId : Nat} {key : ResultKey}

/-- In `h` the task has read a row that names its result. -/
def ReadKey (h : List (System.Happening (service lib simulationId))) (t : Nat) : Prop :=
  ∃ s community row, .performed t (.getSimulationRow s community) (.ok (some row)) ∈ h ∧
    row.resultStorageKey.isSome = true

/-- In `h` the task has committed a deletion. -/
def Committed (h : List (System.Happening (service lib simulationId))) (t : Nat) : Prop :=
  .performed t (.commitLocal .request) (.ok ()) ∈ h

/-- Deliveries and deletions. Every deletion in storage succeeds, and a deletion of
the row is carried through once it has committed. -/
structure Serves (h : List (System.Happening (service lib simulationId)))
    (c : State lib simulationId) (l : System.Label (service lib simulationId)) : Prop where
  entries : ∀ t e, l = .enter t e →
    (∃ delivered, e = .deliver delivered) ∨ ∃ community, e = .deleteSimulation community
  deletes : ∀ t choice k next, l = .step t choice →
    c.tasks t = .running (.op (.delete k) next) → choice = .ok
  punctual : ∀ t choice next, l = .step t choice →
    c.tasks t = .running (.op (.commitLocal .request) next) → choice.late = false
  carried : ∀ t, l = .abort t → ¬ Committed h t

/-- The row still waits for its outcome. -/
def Unsettled (c : State lib simulationId) : Prop :=
  ∃ row, c.world.db.row = some row ∧ row.status = .pending

/-- A session is closed, or a task dies, with its claim uncommitted over a stored
result. -/
def GivesUp (key : ResultKey) (c : State lib simulationId)
    (l : System.Label (service lib simulationId)) : Prop :=
  c.world.storage.results key ≠ none ∧ ∃ t, (c.world.db.own ⟨t, .own⟩).isSome = true ∧
    (l = .abort t ∨ ∃ choice next, l = .step t choice ∧
      c.tasks t = .running (.op (.closeLocal .own) next))

/-- No failure is committed over a stored result, no deletion by a request that has
not read its key, and no claim is given up over one in a run that ends in `last` with
the row unsettled. -/
structure Allowed (key : ResultKey) (last : State lib simulationId)
    (h : List (System.Happening (service lib simulationId))) (c : State lib simulationId)
    (l : System.Label (service lib simulationId)) : Prop extends Serves h c l where
  failure : ∀ t choice next tx row, l = .step t choice →
    c.tasks t = .running (.op (.commitLocal .own) next) →
      c.world.db.own ⟨t, .own⟩ = some tx → tx.row = some row → row.status = .failed →
        c.world.storage.results key = none
  deletion : ∀ t choice next, l = .step t choice →
    c.tasks t = .running (.op (.commitLocal .request) next) →
      (c.world.db.own ⟨t, .request⟩).isSome = true → c.world.storage.results key ≠ none →
        ReadKey h t
  kept : Unsettled last → ¬ GivesUp key c l

/-- The message has been delivered as often as the broker delivers one. -/
def Spent (h : List (System.Happening (service lib simulationId))) : Prop :=
  maxDeliver ≤ h.countP fun
    | .entered _ (.deliver _) => true
    | _ => false

/-- Nothing is in progress, and the message, if there is one, is acked or spent. -/
structure Quiescent (h : List (System.Happening (service lib simulationId)))
    (c : State lib simulationId) : Prop where
  ended : ∀ t p, c.tasks t = .running p → ∃ r, p = .ret r
  settled : 0 < c.world.nats.stored → (∃ t, (t, .ack) ∈ c.world.nats.replies) ∨ Spent h

/-! The progress of a task is read off the history. -/

omit [PyFloat F] in
theorem committed_of_advance {o : Op F B} {r : Except Exn o.Resp} {p : Progress}
    (h : (advance o r p).committed = true) :
    p.committed = true ∨ ∃ ho : o = .commitLocal .request, ho ▸ r = .ok () := by
  unfold advance at h
  split at h
  · exact Or.inl h
  · exact Or.inr ⟨rfl, rfl⟩
  · exact Or.inl h
  · exact Or.inl h

omit [PyFloat F] in
theorem read_advance {o : Op F B} {r : Except Exn o.Resp} {p : Progress}
    (h : p.read = true) : (advance o r p).read = true := by
  unfold advance
  split
  · simp [h]
  · exact h
  · exact h
  · exact h

theorem after_progress (key : ResultKey)
    (h : List (System.Happening (service lib simulationId))) (t : Nat) :
    (((watch lib simulationId key).after (fun _ => .none) h t).committed = true → Committed h t) ∧
      (ReadKey h t → ((watch lib simulationId key).after (fun _ => .none) h t).read = true) := by
  induction h using List.reverseRecOn with
  | nil => exact ⟨(by intro h; cases h), fun ⟨_, _, _, hmem, _⟩ => by cases hmem⟩
  | append_singleton h x ih =>
      have hafter : (watch lib simulationId key).after (fun _ => .none) (h ++ [x]) =
          note x ((watch lib simulationId key).after (fun _ => .none) h) := by
        simp [System.Watch.after, watch]
      rw [hafter]
      obtain ⟨g, hg⟩ : ∃ g : Nat → Progress,
          (watch lib simulationId key).after (fun _ => .none) h = g := ⟨_, rfl⟩
      rw [hg] at ih ⊢
      constructor
      · intro hcommitted
        have hold : (g t).committed = true → Committed (h ++ [x]) t := fun hg =>
          List.mem_append_left _ (ih.1 hg)
        cases x with
        | performed t' o r =>
            by_cases ht : t = t'
            · subst ht
              rw [note_self] at hcommitted
              rcases committed_of_advance hcommitted with hg | ⟨rfl, rfl⟩
              · exact hold hg
              · exact List.mem_append_right _ (List.mem_singleton_self _)
            · rw [note_other ht] at hcommitted
              exact hold hcommitted
        | entered | aborted | event => exact hold hcommitted
      · rintro ⟨s, community, row, hmem, hnames⟩
        rcases List.mem_append.mp hmem with hbefore | hnow
        · have hread := ih.2 ⟨s, community, row, hbefore, hnames⟩
          cases x with
          | performed t' o r =>
              by_cases ht : t = t'
              · subst ht
                rw [note_self]
                exact read_advance hread
              · rw [note_other ht]
                exact hread
          | entered | aborted | event => exact hread
        · obtain rfl := List.mem_singleton.mp hnow
          rw [note_self]
          simp [advance, hnames]

/-- A task that is cut off has committed no deletion. -/
theorem uncommitted_of_stopped {c c' : State lib simulationId}
    {h : List (System.Happening (service lib simulationId))}
    (hrun : (service lib simulationId).Runs Serves c h c') {t : Nat}
    (hstopped : c'.tasks t = .stopped) : ¬ Committed h t := by
  induction hrun with
  | refl => exact fun hcommitted => List.not_mem_nil hcommitted
  | @tail h c₁ c₂ l run ok step ih =>
      intro hcommitted
      rcases List.mem_append.mp hcommitted with hbefore | hnow
      · rcases System.stopped_cases step hstopped with hstopped | rfl
        · exact ih hstopped hbefore
        · exact ok.carried t rfl hbefore
      · obtain ⟨p, hrunning⟩ := System.running_of_performed step hnow
        rw [hstopped] at hrunning
        cases hrunning

/-- Along a run, the ownership of the result. -/
theorem meets_of_runs {last c c' : State lib simulationId}
    {h : List (System.Happening (service lib simulationId))} {row : SimulationModel}
    (hbegins : Begins c) (hrow : c.world.db.row = some row) (hunnamed : row.resultStorageKey = none)
    (hkey : resultKeyOf simulationId row = key) (hnone : c.world.storage.results key = none)
    (hrun : (service lib simulationId).Runs (Allowed key last) c h c') :
    (ownership lib simulationId key).Meets Post
      (c'.watched (watch lib simulationId key)
        ((watch lib simulationId key).after (fun _ => .none) h)) := by
  have hsimulation : key.simulation = simulationId := by
    rw [← hkey]
    rfl
  -- the run does nothing that the watch refuses
  have hwatched := hrun.watched (g := watch lib simulationId key) (fun _ => .none)
    fun h c₁ t choice o k hallowed htask hrefuses => by
      cases o <;> try exact hrefuses
      case delete key => exact hrefuses (hallowed.deletes t choice key _ rfl htask)
      case commitLocal s =>
        cases s with
        | own =>
            obtain ⟨hthere, tx, row, hown, hversion, hfailed⟩ := hrefuses
            exact hthere (hallowed.failure t choice _ tx row rfl htask hown hversion hfailed)
        | request =>
            rcases hrefuses with hlate | ⟨hthere, hown, hunread⟩
            · rw [hallowed.punctual t choice _ rfl htask] at hlate
              cases hlate
            · have hread := (after_progress key h t).2
                (hallowed.deletion t choice _ rfl htask hown hthere)
              exact absurd (hread.symm.trans hunread) (by decide)
  have hnoTx : ∀ tx, c.world.db.tx ≠ some tx := fun tx htx => by
    rw [hbegins.tx] at htx
    cases htx
  have hstart : (ownership lib simulationId key).Meets Post
      (c.watched (watch lib simulationId key) fun _ => .none) := by
    refine ⟨⟨hbegins.created row hrow, fun row' hrow' => ?_, fun tx htx => absurd htx (hnoTx tx),
      fun tx htx => absurd htx (hnoTx tx), fun hthere => absurd hnone hthere⟩,
      fun t _ => ⟨fun tx htx => absurd htx (hnoTx tx), rfl⟩, fun t p htask => ?_⟩
    · obtain rfl := Option.some.inj (hrow.symm.trans hrow')
      refine ⟨?_, fun k hk => ?_⟩
      · rw [← hkey]
        rfl
      · rw [hunnamed] at hk
        cases hk
    · have htask : c.tasks t = .running p := htask
      rw [hbegins.idle t] at htask
      cases htask
  refine reaches_meets hstart (fun t r => post_stable r)
    (fun c t e w p hallowed hinv hidle henter => ?_) hwatched
  obtain ⟨rfl, h, hallowed⟩ := hallowed
  obtain ⟨t, e⟩ := e
  obtain ⟨hentered, hghost⟩ := System.watched_enter.mp henter
  have hprogress : w.2 t = .none := by
    rw [show w.2 = c.world.2 from hghost]
    exact hidle.2
  rcases hallowed.entries t e rfl with ⟨delivered, rfl⟩ | ⟨community, rfl⟩
  · simp only [service, enter] at hentered
    split_ifs at hentered
    obtain ⟨hw, rfl⟩ := Prod.mk.inj (Option.some.inj hentered)
    refine safe_handleMessage hsimulation ⟨⟨?_, ?_⟩, ?_⟩ delivered
    · rw [← hw]; exact hinv.created
    · rw [← hw]; exact hidle.1
    · show (w.2 t).committed = false
      rw [hprogress]
      rfl
  · obtain ⟨hw, rfl⟩ := Prod.mk.inj (Option.some.inj hentered)
    refine safe_deletion ?_ hprogress _ _
    rw [← hw]
    exact hidle.1

/-! ## Claims over a stored result -/

/-- While the row waits, a stored result is some claim's. -/
def Held (key : ResultKey) (c : State lib simulationId) : Prop :=
  c.world.storage.results key ≠ none → Unsettled c →
    ∃ t, (c.world.db.own ⟨t, .own⟩).isSome = true

omit [PyFloat F] in
/-- A claim is held on until its outcome is committed, or its session is closed. -/
theorem held_of_move {t t₀ : Nat} {o : Op F B} {w : Watching F B} {db : LocalDb F}
    (hinv : Inv key w) (hpre : Pre key t o w) (hmove : DbMove t w.1.db o db)
    (hheld : (w.1.db.own ⟨t₀, .own⟩).isSome = true)
    (hclosed : o = .closeLocal .own → (w.1.db.own ⟨t, .own⟩).isSome = false)
    (hunsettled : ∃ row, db.row = some row ∧ row.status = .pending) :
    ∃ t, (db.own ⟨t, .own⟩).isSome = true := by
  obtain ⟨tx, hown⟩ := Option.isSome_iff_exists.mp hheld
  obtain ⟨htx, howner⟩ := (LocalDb.own_eq_some _ _).mp hown
  cases hmove with
  | same => exact ⟨t₀, hheld⟩
  | update | insert => exact hpre.elim
  | @claim s values row free visible pending =>
      obtain ⟨rfl, -⟩ := hpre
      exact ⟨t, by simp [LocalDb.own, LocalDb.stage]⟩
  | @delete s row free visible =>
      -- a claim under way locks the row
      obtain rfl : s = .request := hpre
      have hmine := (LocalDb.not_locked_iff _ _).mp free tx htx
      cases hmine.symm.trans howner
  | @tree s tx' tree own =>
      obtain ⟨htx', -⟩ := (LocalDb.own_eq_some _ _).mp own
      obtain rfl := Option.some.inj (htx'.symm.trans htx)
      exact ⟨t₀, by simp [LocalDb.own, LocalDb.addTree, howner]⟩
  | commit s =>
      cases hmine : w.1.db.own ⟨t, s⟩ with
      | none =>
          rw [LocalDb.commit_of_not_own hmine]
          exact ⟨t₀, hheld⟩
      | some tx' =>
          -- the commit of a claim gives the row its outcome
          obtain ⟨htx', -⟩ := (LocalDb.own_eq_some _ _).mp hmine
          obtain rfl := Option.some.inj (htx'.symm.trans htx)
          obtain ⟨-, row, hversion, hsettled, -⟩ := hinv.own tx' htx (by rw [howner])
          rw [LocalDb.commit_of_own hmine] at hunsettled
          obtain ⟨row', hrow', hpending⟩ := hunsettled
          obtain rfl := Option.some.inj (hversion.symm.trans hrow')
          exact absurd hpending hsettled
  | rollback s =>
      cases hmine : w.1.db.own ⟨t, s⟩ with
      | none =>
          rw [LocalDb.rollback_of_not_own hmine]
          exact ⟨t₀, hheld⟩
      | some tx' =>
          obtain ⟨htx', howner'⟩ := (LocalDb.own_eq_some _ _).mp hmine
          obtain rfl := Option.some.inj (htx'.symm.trans htx)
          obtain ⟨rfl, rfl⟩ := SessionId.mk.inj (howner'.symm.trans howner)
          rw [hclosed rfl] at hheld
          cases hheld

theorem held_of_next {c c' : State lib simulationId} {g : Nat → Progress}
    {l : System.Label (service lib simulationId)}
    (hmeets : (ownership lib simulationId key).Meets Post
      (c.watched (watch lib simulationId key) g))
    (hkept : ¬ GivesUp key c l) (hheld : Held key c)
    (hstep : (service lib simulationId).next l c = some c') : Held key c' := by
  intro hthere hunsettled
  have hmoves := System.moves_of_next hstep
  unfold Unsettled at hunsettled
  generalize c'.world = w' at hmoves hthere hunsettled ⊢
  cases hmoves with
  | enter henter =>
      obtain ⟨started, rfl⟩ := enter_world henter
      exact hheld hthere hunsettled
  | event crm => exact hheld hthere hunsettled
  | abort t =>
      rcases World.abort_db t c.world with hsame | ⟨tx, htx, howner, hdrop⟩
      · rw [show ((service lib simulationId).abort t c.world).db = c.world.db from hsame]
          at hunsettled ⊢
        exact hheld hthere hunsettled
      · rw [show ((service lib simulationId).abort t c.world).db =
          { c.world.db with tx := none } from hdrop] at hunsettled
        obtain ⟨t₀, hown⟩ := hheld hthere hunsettled
        obtain ⟨tx', hown'⟩ := Option.isSome_iff_exists.mp hown
        obtain ⟨htx', howner'⟩ := (LocalDb.own_eq_some _ _).mp hown'
        obtain rfl := Option.some.inj (htx.symm.trans htx')
        obtain rfl : t₀ = t := by rw [← howner, howner']
        exact absurd ⟨hthere, t₀, hown, Or.inl rfl⟩ hkept
  | @step t choice o k r w htask hexec =>
      have hpre : Pre key t o (c.world, g) := hmeets.pre htask
      have hmove := exec_db hexec
      by_cases hbefore : c.world.storage.results key = none
      · -- the result is uploaded, under a claim
        obtain ⟨k, path, rfl⟩ := uploads_of_effect (exec_effect hexec) hbefore hthere
        obtain ⟨tx, htx, howner⟩ := hpre
        rw [hmove.eq_of_not_writesDb rfl]
        exact ⟨t, by rw [(LocalDb.own_eq_some _ _).mpr ⟨htx, howner⟩]; rfl⟩
      by_cases hsettled : Unsettled c
      · -- the claim it was under is still there
        obtain ⟨t₀, hown⟩ := hheld hbefore hsettled
        refine held_of_move (w := (c.world, g)) hmeets.inv hpre hmove hown ?_ hunsettled
        rintro rfl
        by_contra hclosing
        exact hkept ⟨hbefore, t, (Bool.not_eq_false _).mp hclosing,
          Or.inr ⟨choice, k, rfl, htask⟩⟩
      · -- the row has its outcome, for good
        obtain ⟨row, hrow, hpending⟩ := hunsettled
        rcases hmove.row with hsame | ⟨s, tx, rfl, hown, hversion⟩
        · exact absurd ⟨row, hsame ▸ hrow, hpending⟩ hsettled
        obtain ⟨htx, howner⟩ := (LocalDb.own_eq_some _ _).mp hown
        cases s with
        | own => exact absurd (hmeets.inv.own tx htx (by rw [howner])).1 hsettled
        | request =>
            have hgone := hmeets.inv.request tx htx (by rw [howner])
            rw [hversion, hgone] at hrow
            cases hrow

theorem held_of_runs {last c c' : State lib simulationId}
    {h : List (System.Happening (service lib simulationId))} {row : SimulationModel}
    (hbegins : Begins c) (hrow : c.world.db.row = some row) (hunnamed : row.resultStorageKey = none)
    (hkey : resultKeyOf simulationId row = key) (hnone : c.world.storage.results key = none)
    (hlast : Unsettled last)
    (hrun : (service lib simulationId).Runs (Allowed key last) c h c') : Held key c' := by
  induction hrun with
  | refl => exact fun hthere => absurd hnone hthere
  | @tail h c₁ c₂ l run ok step ih =>
      exact held_of_next (meets_of_runs hbegins hrow hunnamed hkey hnone run) (ok.kept hlast) ih
        step

/-- A task that is cut off holds no claim. -/
theorem unclaimed_of_stopped {c c' : State lib simulationId}
    {allowed : List (System.Happening (service lib simulationId)) → State lib simulationId →
      System.Label (service lib simulationId) → Prop}
    {h : List (System.Happening (service lib simulationId))}
    (hidle : Idle c) (hrun : (service lib simulationId).Runs allowed c h c') {t : Nat}
    (hstopped : c'.tasks t = .stopped) : c'.world.db.own ⟨t, .own⟩ = none := by
  induction hrun with
  | refl =>
      rw [hidle t] at hstopped
      cases hstopped
  | @tail h c₁ c₂ l run ok step ih =>
      rcases System.stopped_cases step hstopped with hbefore | rfl
      · refine (LocalDb.own_eq_none _ _).mpr fun tx htx howner => ?_
        have hdb := dbStep_of_next step
        generalize c₂.world.db = db at hdb htx
        cases hdb with
        | @move t' choice o db k htask hmove =>
            have hother : tx.owner.task ≠ t' := by
              rw [howner]
              rintro rfl
              rw [hbefore] at htask
              cases htask
            exact (LocalDb.own_eq_none _ _).mp (ih hbefore) tx ((hmove.others hother).mpr htx)
              howner
        | drop => cases htx
        | same => exact (LocalDb.own_eq_none _ _).mp (ih hbefore) tx htx howner
      · have hmoves := System.moves_of_next step
        generalize c₂.world = w at hmoves ⊢
        cases hmoves with
        | abort => exact LocalDb.own_rollback _ _

section AtRest

variable {c c' : State lib simulationId} {h : List (System.Happening (service lib simulationId))}
  {row : SimulationModel} (hbegins : Begins c) (hrow : c.world.db.row = some row)
  (hunnamed : row.resultStorageKey = none)
  (hnone : c.world.storage.results (resultKeyOf simulationId row) = none)
  (hrun : (service lib simulationId).Runs (Allowed (resultKeyOf simulationId row) c') c h c')
  (hended : ∀ t p, c'.tasks t = .running p → ∃ r, p = .ret r)

include hbegins hrow hunnamed hnone hrun hended

/-- Once nothing is in progress, no deletion is left to carry through. -/
theorem owes_nothing (t : Nat) :
    ((watch lib simulationId (resultKeyOf simulationId row)).after (fun _ => .none) h t).owes =
      false := by
  have hend := meets_of_runs hbegins hrow hunnamed rfl hnone hrun
  by_contra howes
  have howes := (Bool.not_eq_false _).mp howes
  have hcommitted : Committed h t := (after_progress (resultKeyOf simulationId row) h t).1 (by
    simp only [Progress.owes, Bool.and_eq_true] at howes
    exact howes.1.2)
  cases htask : c'.tasks t with
  | idle =>
      have hprogress : (watch lib simulationId (resultKeyOf simulationId row)).after
          (fun _ => .none) h t = .none := (hend.idle t htask).2
      rw [hprogress] at howes
      exact absurd howes (by decide)
  | stopped =>
      exact uncommitted_of_stopped (hrun.mono fun _ _ _ h => h.toServes) htask hcommitted
  | running p =>
      obtain ⟨r, rfl⟩ := hended t p htask
      exact absurd (howes.symm.trans (hend.ended htask).2) (by decide)

/-- Nor is a claim under way. -/
theorem unclaimed_atRest (t : Nat) : c'.world.db.own ⟨t, .own⟩ = none := by
  have hend := meets_of_runs hbegins hrow hunnamed rfl hnone hrun
  cases htask : c'.tasks t with
  | idle => exact (hend.idle t htask).1.own .own
  | stopped => exact unclaimed_of_stopped hbegins.idle hrun htask
  | running p =>
      obtain ⟨r, rfl⟩ := hended t p htask
      exact (hend.ended htask).1

end AtRest

/-- A result is stored only for a row with the status SUCCESS, once nothing is in
progress and no message is outstanding. -/
theorem owned_by_success {c c' : State lib simulationId}
    {h : List (System.Happening (service lib simulationId))} {row : SimulationModel}
    (hbegins : Begins c) (hrow : c.world.db.row = some row) (hunnamed : row.resultStorageKey = none)
    (hnone : c.world.storage.results (resultKeyOf simulationId row) = none)
    (hrun : (service lib simulationId).Runs (Allowed (resultKeyOf simulationId row) c') c h c')
    (hquiet : Quiescent h c')
    (hstored : c'.world.storage.results (resultKeyOf simulationId row) ≠ none) :
    ∃ row', c'.world.db.row = some row' ∧ row'.status = .success := by
  have hend := meets_of_runs hbegins hrow hunnamed rfl hnone hrun
  obtain ⟨hunfailed, howed⟩ := hend.inv.stored hstored
  cases hafter : c'.world.db.row with
  | none =>
      obtain ⟨t, howes⟩ := howed hafter
      have hnobody := owes_nothing hbegins hrow hunnamed hnone hrun hquiet.ended t
      exact absurd (howes.symm.trans hnobody) (by decide)
  | some row' =>
      refine ⟨row', rfl, ?_⟩
      cases hstatus : row'.status with
      | success => rfl
      | failed => exact absurd hstatus (hunfailed row' hafter)
      | pending =>
          have hunsettled : Unsettled c' := ⟨row', hafter, hstatus⟩
          obtain ⟨t, hclaimed⟩ :=
            held_of_runs hbegins hrow hunnamed rfl hnone hunsettled hrun hstored hunsettled
          rw [unclaimed_atRest hbegins hrow hunnamed hnone hrun hquiet.ended t] at hclaimed
          cases hclaimed

end Runs

/-! ## A commit that fails after the upload -/

def smallResult : ResultKey := resultKeyOf 1 smallRow

/-- The first `n` tasks handle deliveries; deletions in storage succeed. -/
def serves (n : Nat) (c : State smallLib 1) : System.Label (service smallLib 1) → Bool
  | .enter t (.deliver _) => t < n
  | .step t choice =>
    match c.tasks t with
    | .running (.op (.delete _) _) => (choice matches Choice.ok)
    | .running (.op (.commitLocal .request) _) => false
    | _ => true
  | _ => false

theorem serves_sound {n : Nat} {h : List (System.Happening (service smallLib 1))}
    {c : State smallLib 1} {l : System.Label (service smallLib 1)} (hl : serves n c l = true) :
    Serves h c l := by
  refine ⟨?_, ?_, ?_, ?_⟩
  · rintro t e rfl
    cases e with
    | deliver delivered => exact Or.inl ⟨delivered, rfl⟩
    | _ => cases hl
  · rintro t choice k next rfl htask
    simp only [serves, htask] at hl
    split at hl
    · rfl
    · cases hl
  · rintro t choice next rfl htask
    simp [serves, htask] at hl
  · rintro t rfl
    cases hl

/-- No failure is committed over the result. -/
def spares (c : State smallLib 1) : System.Label (service smallLib 1) → Bool
  | .step t _ =>
    match c.tasks t with
    | .running (.op (.commitLocal .own) _) =>
      (c.world.storage.results smallResult).isNone ||
        !(c.world.db.own ⟨t, .own⟩).any fun tx => tx.row.any (·.status = .failed)
    | _ => true
  | _ => true

theorem spares_sound {n : Nat} {h : List (System.Happening (service smallLib 1))}
    {c last : State smallLib 1} {l : System.Label (service smallLib 1)}
    (hserves : serves n c l = true) (hspares : spares c l = true) (hlast : ¬ Unsettled last) :
    Allowed smallResult last h c l := by
  refine ⟨serves_sound hserves, ?_, ?_, fun hunsettled => absurd hunsettled hlast⟩
  · rintro t choice next tx row rfl htask hown hversion hfailed
    simpa [spares, htask, hown, hversion, hfailed] using hspares
  · rintro t choice next rfl htask
    simp [serves, htask] at hserves

/-- The handlers have ended, and the result is stored. -/
def atRest (n : Nat) (c : State smallLib 1) : Bool :=
  ((List.range n).all fun t => (c.tasks t matches .running (.ret _))) &&
    (c.world.storage.results smallResult).isSome

theorem ended_of_atRest {n : Nat} {c : State smallLib 1}
    {h : List (System.Happening (service smallLib 1))}
    (hrun : (service smallLib 1).Runs (fun _ c l => serves n c l = true) Retries.start h c)
    (hrest : atRest n c = true) :
    (∀ t p, c.tasks t = .running p → ∃ r, p = .ret r) ∧
      c.world.storage.results smallResult ≠ none := by
  simp only [atRest, Bool.and_eq_true, List.all_eq_true, List.mem_range] at hrest
  obtain ⟨hended, hstored⟩ := hrest
  refine ⟨fun t p htask => ?_, fun hnone => ?_⟩
  · -- only the handlers have been started
    obtain ⟨h₀, c₀, e, w, p₀, a, hok, -, -⟩ := hrun.origin rfl htask
    cases e with
    | deliver delivered =>
        have hret := hended t (of_decide_eq_true hok)
        rw [htask] at hret
        cases p with
        | ret r => exact ⟨r, rfl⟩
        | op o next => cases hret
    | _ => cases hok
  · rw [hnone] at hstored
    cases hstored

/-- The commit of the first handler fails after its upload. -/
def failingCommit : List (System.Label (service smallLib 1)) :=
  .enter 0 (Entry.deliver (some 1)) ::
    ((List.replicate 10 Choice.ok ++ [Choice.fail (.other "connection closed")] ++
      List.replicate 4 Choice.ok).map (.step 0))

/-- The redelivery that follows. -/
def redelivery (count steps : Nat) : List (System.Label (service smallLib 1)) :=
  .enter 1 (Entry.deliver (some count)) :: List.replicate steps (.step 1 Choice.ok)

/-- The redelivery has acked. -/
def acked (c : State smallLib 1) : Bool := c.world.nats.replies.contains (1, .ack)

theorem quiescent_of_acked {c : State smallLib 1}
    {h : List (System.Happening (service smallLib 1))}
    (hrun : (service smallLib 1).Runs (fun _ c l => serves 2 c l = true) Retries.start h c)
    (hrest : atRest 2 c = true) (hacked : acked c = true) :
    Quiescent h c ∧ c.world.storage.results smallResult ≠ none := by
  obtain ⟨hended, hstored⟩ := ended_of_atRest hrun hrest
  exact ⟨⟨hended, fun _ => Or.inl ⟨1, by simpa [acked] using hacked⟩⟩, hstored⟩

/-- The redelivery stores the result again, and commits. -/
theorem owned_by_success_redelivered :
    ∃ c : State smallLib 1, c.world.storage.results smallResult ≠ none ∧
      ∃ row, c.world.db.row = some row ∧ row.status = .success := by
  have hruns : ((System.runAll (fun c l => serves 2 c l && spares c l)
      (failingCommit ++ redelivery 2 20) Retries.start).any fun c => atRest 2 c && acked c &&
        c.world.db.row.all (·.status ≠ .pending)) = true := by decide +kernel
  obtain ⟨c, hc, hend⟩ := (Option.any_eq_true _ _).mp hruns
  simp only [Bool.and_eq_true] at hend
  obtain ⟨⟨hrest, hacked⟩, hsettled⟩ := hend
  have hrun := System.runs_of_runAll hc
  obtain ⟨hquiet, hstored⟩ := quiescent_of_acked
    (hrun.mono fun _ _ _ hl => ((Bool.and_eq_true _ _).mp hl).1) hrest hacked
  have hlast : ¬ Unsettled c := by
    rintro ⟨row, hrow, hpending⟩
    rw [hrow] at hsettled
    simp [hpending] at hsettled
  refine ⟨c, hstored, ?_⟩
  have hrow : Retries.start.world.db.row = some smallRow := rfl
  refine owned_by_success Retries.start_begins hrow rfl rfl (hrun.mono fun _ _ _ hl => ?_) hquiet
    hstored
  obtain ⟨hserves, hspares⟩ := (Bool.and_eq_true _ _).mp hl
  exact spares_sound hserves hspares hlast

/-- The redelivery gives up at the delivery limit: the row is FAILED and the result
is left. -/
theorem orphaned_at_limit :
    ¬ ∀ (c c' : State smallLib 1) (h : List (System.Happening (service smallLib 1)))
      (row : SimulationModel), Begins c → c.world.db.row = some row → row.status = .pending →
      row.resultStorageKey = none → c.world.storage.results (resultKeyOf 1 row) = none →
      (service smallLib 1).Runs Serves c h c' → Quiescent h c' →
      c'.world.storage.results (resultKeyOf 1 row) ≠ none →
      ∃ row', c'.world.db.row = some row' ∧ row'.status = .success := by
  intro howned
  have hruns : ((System.runAll (serves 2) (failingCommit ++ redelivery 10 13) Retries.start).any
      fun c => atRest 2 c && acked c && c.world.db.row.any (·.status = .failed)) = true := by
    decide +kernel
  obtain ⟨c, hc, hend⟩ := (Option.any_eq_true _ _).mp hruns
  simp only [Bool.and_eq_true] at hend
  obtain ⟨⟨hrest, hacked⟩, hfailed⟩ := hend
  have hrun := System.runs_of_runAll hc
  obtain ⟨hquiet, hstored⟩ := quiescent_of_acked hrun hrest hacked
  obtain ⟨row, hrow, hsuccess⟩ := howned Retries.start c _ smallRow Retries.start_begins rfl rfl
    rfl rfl (hrun.mono fun _ _ _ hl => serves_sound hl) hquiet hstored
  rw [hrow] at hfailed
  simp [hsuccess] at hfailed

/-- A delivery that finds the database down. -/
def cutOff (t : Nat) : List (System.Label (service smallLib 1)) :=
  let down : Choice := .fail (.other "connection closed")
  .enter t (Entry.deliver (some (t + 1))) :: [down, .ok, .ok, down, .ok].map (.step t)

/-- No delivery after the failed commit gets through to the database: the row waits
for an outcome that no delivery is left to record, and the result is left. -/
theorem left_past_max_deliver :
    ∃ (c : State smallLib 1) (h : List (System.Happening (service smallLib 1))),
      (service smallLib 1).Runs Serves Retries.start h c ∧ Quiescent h c ∧ Unsettled c ∧
        c.world.storage.results smallResult ≠ none := by
  have hruns : ((System.runAll (serves 11) (failingCommit ++ (List.range' 1 10).flatMap cutOff)
      Retries.start).any fun c => atRest 11 c && c.world.db.row.any (·.status = .pending)) =
        true := by
    decide +kernel
  have hspent : Spent (System.historyOf (failingCommit ++ (List.range' 1 10).flatMap cutOff)
      Retries.start) := by
    unfold Spent
    decide +kernel
  obtain ⟨c, hc, hend⟩ := (Option.any_eq_true _ _).mp hruns
  obtain ⟨hrest, hpending⟩ := (Bool.and_eq_true _ _).mp hend
  have hrun := System.runs_of_runAll hc
  obtain ⟨hended, hstored⟩ := ended_of_atRest hrun hrest
  refine ⟨c, _, hrun.mono fun _ _ _ hl => serves_sound hl, ⟨hended, fun _ => Or.inr hspent⟩, ?_,
    hstored⟩
  obtain ⟨row, hrow, hstatus⟩ := (Option.any_eq_true _ _).mp hpending
  exact ⟨row, hrow, of_decide_eq_true hstatus⟩

end SimulationKey.Theorems.Orphans
