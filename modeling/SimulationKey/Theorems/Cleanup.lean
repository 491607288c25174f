import SimulationKey.Kit.Watched
import SimulationKey.Theorems.Retries

/-!
# A settled simulation releases its upload

Deliveries of a simulation over an upload, whatever becomes of each. A handler
that acks after `_process` has returned deletes the upload that `_process` hands
back; one that acks in its catch-all, or whose ack raises, deletes nothing.

* **watch** — `Ghost` says whether a deletion of the upload has been issued, and
  which handlers have come to mark the row in their catch-all;
* **exits** — `_process` hands back the row's upload, or none when the upload is
  missing (`Exit`), by the rule `Handles.process`.
-/

namespace SimulationKey.Theorems.Cleanup

open Kit Kit.Prog Kit.Discipline
open Settlement (Begins)

variable {F B L α : Type}

/-! ## The upload -/

/-- A row over an upload, as a start writes it. -/
structure Names (key : SourceKey) (row : SimulationModel) : Prop where
  source : row.source = .file
  key : row.fileStorageKey = some key
  name : row.fileName ≠ none

theorem Names.set {key : SourceKey} {row : SimulationModel} (h : Names key row)
    (values : RowValues) : Names key (row.set values) :=
  ⟨h.source, h.key, h.name⟩

/-- The row is there, with its upload, in the version a transaction holds too. -/
structure Named (key : SourceKey) (db : LocalDb F) : Prop where
  row : ∃ row, db.row = some row ∧ Names key row
  tx : ∀ tx, db.tx = some tx → ∃ row, tx.row = some row ∧ Names key row

theorem Named.visible {key : SourceKey} {db : LocalDb F} (h : Named key db) {me : SessionId}
    {row : SimulationModel} (hfree : db.locked me = false) (hvisible : db.visible me = some row) :
    Names key row := by
  rcases LocalDb.free_cases hfree with ⟨-, -, hsame⟩ | ⟨tx, htx, -, -, hown⟩
  · obtain ⟨row', hrow', hnames⟩ := h.row
    obtain rfl := Option.some.inj (hrow'.symm.trans (hsame ▸ hvisible))
    exact hnames
  · obtain ⟨row', hrow', hnames⟩ := h.tx tx htx
    obtain rfl := Option.some.inj (hrow'.symm.trans (hown ▸ hvisible))
    exact hnames

/-- No delivery takes the upload from its row. -/
theorem Named.of_move {key : SourceKey} {w : World F B} {t : Nat} {o : Op F B} {db : LocalDb F}
    (h : Named key w.db) (hpre : Retries.Pre t o w) (hmove : DbMove t w.db o db) :
    Named key db := by
  cases hmove with
  | same => exact h
  | update | insert | delete => exact hpre.elim
  | @claim s values row free visible pending =>
      refine ⟨h.row, fun tx htx => ?_⟩
      obtain rfl := Option.some.inj htx
      exact ⟨_, rfl, (h.visible free visible).set values⟩
  | @tree s tx tree own =>
      refine ⟨h.row, fun tx' htx' => ?_⟩
      obtain rfl := Option.some.inj htx'
      exact h.tx tx ((LocalDb.own_eq_some _ _).mp own).1
  | commit s =>
      cases hown : w.db.own ⟨t, s⟩ with
      | none =>
          rw [LocalDb.commit_of_not_own hown]
          exact h
      | some tx =>
          rw [LocalDb.commit_of_own hown]
          exact ⟨h.tx tx ((LocalDb.own_eq_some _ _).mp hown).1, fun tx htx => by cases htx⟩
  | rollback s =>
      cases hown : w.db.own ⟨t, s⟩ with
      | none =>
          rw [LocalDb.rollback_of_not_own hown]
          exact h
      | some tx =>
          rw [LocalDb.rollback_of_own hown]
          exact ⟨h.row, fun tx htx => by cases htx⟩

theorem Named.abort {key : SourceKey} {w : World F B} (h : Named key w.db) (t : Nat) :
    Named key (w.abort t).db := by
  rcases World.abort_db t w with hsame | ⟨tx, -, -, hdrop⟩
  · rw [hsame]
    exact h
  · rw [hdrop]
    exact ⟨h.row, fun tx htx => by cases htx⟩

/-! ## The watch -/

structure Ghost where
  issued : Bool
  unhandled : Nat → Bool

/-- The exception that the outside raises. -/
def raised : Choice → Option Exn
  | .fail e | .lost e => some e
  | .ok | .swallowed => none

/-- The mark of the catch-all. -/
def unhandledValues : RowValues := failureValues "unhandled_worker_error"

section Watch

variable [PyFloat F] {lib : Libraries F B L} {simulationId : Nat}

def note (key : SourceKey) : System.Happening (service lib simulationId) → Ghost → Ghost
  | .performed _ (.delete (some (.source k))) _, g => { g with issued := g.issued || k = key }
  | .performed t (.claim _ values) _, g =>
    if values = unhandledValues then { g with unhandled := Function.update g.unhandled t true }
    else g
  | _, g => g

/-- A missing object that is not missing, an ack in the catch-all, an ack that raises after
its effect. -/
def Refuses (choice : Choice) (t : Nat) : Op F B → World F B → Ghost → Prop
  | .download k, w, _ =>
    (∃ text, raised choice = some (.objectNotFound text)) ∧ w.storage.sources k ≠ none
  | .ack, _, g => choice.late = true ∨ g.unhandled t = true
  | _, _, _ => False

variable (lib simulationId) in
def watch (key : SourceKey) : System.Watch (service lib simulationId) where
  Ghost := Ghost
  note := note key
  refuses := Refuses

/-- The worker under watch. -/
abbrev Watching (F B : Type) : Type := World F B × Ghost

/-- The object is not in storage. -/
def Missing (key : SourceKey) (w : Watching F B) : Prop := w.1.storage.sources key = none

structure Inv (key : SourceKey) (w : Watching F B) : Prop where
  world : Retries.Inv w.1
  named : Named key w.1.db

structure Rely (key : SourceKey) (t : Nat) (w w' : Watching F B) : Prop where
  world : Retries.Rely t w.1 w'.1
  missing : Missing key w → Missing key w'
  issued : w.2.issued = true → w'.2.issued = true
  unhandled : w.2.unhandled t = true → w'.2.unhandled t = true
  acked : (t, .ack) ∈ w'.1.nats.replies → (t, .ack) ∈ w.1.nats.replies

/-- No delivery uploads a source. -/
def Pre (t : Nat) : Op F B → Watching F B → Prop
  | .upload .., _ => False
  | o, w => Retries.Pre t o w.1

/-! ## What an operation changes -/

theorem issued_note {key : SourceKey} {x : System.Happening (service lib simulationId)} {g : Ghost}
    (h : g.issued = true) : (note key x g).issued = true := by
  unfold note
  split
  · simp [h]
  · split_ifs <;> exact h
  · exact h

theorem unhandled_note {key : SourceKey} {x : System.Happening (service lib simulationId)}
    {g : Ghost} {t : Nat} (h : g.unhandled t = true) : (note key x g).unhandled t = true := by
  unfold note
  split
  · exact h
  · rename_i t' s values r
    split_ifs
    · by_cases ht : t = t'
      · simp [ht]
      · simpa [ht] using h
    · exact h
  · exact h

omit [PyFloat F] in
theorem missing_of_effect {key : SourceKey} {t : Nat} {o : Op F B} {w w' : World F B}
    (ho : ∀ k content, o ≠ .upload k content) (h : w.storage.sources key = none)
    (heffect : Effect t w o w') : w'.storage.sources key = none := by
  cases heffect with
  | none | db | audit | nats | files | finished => exact h
  | storage hmove =>
      cases hmove with
      | source k content => exact absurd rfl (ho k content)
      | result k path series => exact h
      | delete k =>
          rcases k with _ | k | k
          · exact h
          · by_cases hk : key = k
            · simp [ObjectStore.delete, hk]
            · simpa [ObjectStore.delete, Function.update_of_ne hk] using h
          · exact h

omit [PyFloat F] in
/-- An upload goes only by its deletion. -/
theorem deletes_of_effect {key : SourceKey} {t : Nat} {o : Op F B} {w w' : World F B}
    (heffect : Effect t w o w') (hthere : w.storage.sources key ≠ none)
    (hmissing : w'.storage.sources key = none) : o = .delete (some (.source key)) := by
  cases heffect with
  | none | db | audit | nats | files | finished => exact absurd hmissing hthere
  | storage hmove =>
      cases hmove with
      | source k content =>
          refine absurd ?_ hthere
          by_cases hk : key = k
          · simp [ObjectStore.putSource, hk] at hmissing
          · simpa [ObjectStore.putSource, Function.update_of_ne hk] using hmissing
      | result => exact absurd hmissing hthere
      | delete k =>
          rcases k with _ | k | k
          · exact absurd hmissing hthere
          · by_cases hk : key = k
            · rw [hk]
            · refine absurd ?_ hthere
              simpa [ObjectStore.delete, Function.update_of_ne hk] using hmissing
          · exact absurd hmissing hthere

omit [PyFloat F] in
/-- An operation acks for its own task only. -/
theorem acked_of_effect {t t' : Nat} {o : Op F B} {w w' : World F B} (ho : t' ≠ t ∨ o ≠ .ack)
    (heffect : Effect t w o w') (hack : (t', .ack) ∈ w'.nats.replies) :
    (t', .ack) ∈ w.nats.replies := by
  cases heffect with
  | none | db | audit | storage | files | finished => exact hack
  | nats hmove =>
      cases hmove with
      | publish => exact hack
      | ack =>
          rcases List.mem_append.mp hack with hold | hnew
          · exact hold
          · rcases ho with ht | ho
            · exact absurd (congrArg Prod.fst (List.mem_singleton.mp hnew)) ht
            · exact absurd rfl ho
      | nak =>
          rcases List.mem_append.mp hack with hold | hnew
          · exact hold
          · cases congrArg Prod.snd (List.mem_singleton.mp hnew)

omit [PyFloat F] in
theorem pre_world {t : Nat} {o : Op F B} {w : Watching F B} (h : Pre t o w) :
    Retries.Pre t o w.1 := by
  cases o <;> first | exact h | exact h.elim

omit [PyFloat F] in
theorem pre_upload {t : Nat} {o : Op F B} {w : Watching F B} (h : Pre t o w) :
    ∀ k content, o ≠ .upload k content := by
  rintro k content rfl
  exact h

theorem exec_sound {key : SourceKey} {choice : Choice} {t : Nat} {o : Op F B}
    {w w' : Watching F B} {r : Except Exn o.Resp} (h : Inv key w) (hpre : Pre t o w)
    (hexec : (System.watched (watch lib simulationId key)).exec choice t o w = some (r, w')) :
    Inv key w' ∧ ∀ t', t' ≠ t → Rely key t' w w' := by
  obtain ⟨-, hexec, hnote⟩ := System.watched_exec.mp hexec
  have hworld := Retries.exec_sound h.world (pre_world hpre) hexec
  have heffect := exec_effect hexec
  refine ⟨⟨hworld.1, h.named.of_move (pre_world hpre) heffect.toDb⟩, fun t' hne => ?_⟩
  exact
    { world := hworld.2 t' hne
      missing := fun hmissing => missing_of_effect (pre_upload hpre) hmissing heffect
      issued := fun hissued => by rw [hnote]; exact issued_note hissued
      unhandled := fun hunhandled => by rw [hnote]; exact unhandled_note hunhandled
      acked := acked_of_effect (Or.inl hne) heffect }

omit [PyFloat F] in
/-- Neither entries nor the ends of processes are noted. -/
theorem rely_same {key : SourceKey} {t : Nat} {w w' : Watching F B}
    (hworld : Retries.Rely t w.1 w'.1) (hstorage : w'.1.storage = w.1.storage)
    (hnats : w'.1.nats = w.1.nats) (hghost : w'.2 = w.2) : Rely key t w w' where
  world := hworld
  missing h := by rw [Missing, hstorage]; exact h
  issued h := hghost ▸ h
  unhandled h := hghost ▸ h
  acked h := hnats ▸ h

variable (lib simulationId) in
def cleanup (key : SourceKey) : Discipline (System.watched (watch lib simulationId key)) where
  inv := Inv key
  rely := Rely key
  unstarted t w := NoTx t w.1 ∧ (t, .ack) ∉ w.1.nats.replies
  pre := Pre
  unstarted_rely := fun h hrely =>
    ⟨fun tx htx howner => h.1 tx ((hrely.world.tx tx howner).mpr htx) howner,
      fun hack => h.2 (hrely.acked hack)⟩
  rely_refl := fun _ _ => rely_same (Retries.Rely.of_db rfl) rfl rfl rfl
  rely_trans := fun h h' =>
    { world := (Retries.deliveries lib simulationId).rely_trans h.world h'.world
      missing := h'.missing ∘ h.missing
      issued := h'.issued ∘ h.issued
      unhandled := h'.unhandled ∘ h.unhandled
      acked := h.acked ∘ h'.acked }
  exec_sound := exec_sound
  enter_sound := fun {e w w' p} h henter => by
    obtain ⟨t, e⟩ := e
    obtain ⟨henter, hghost⟩ := System.watched_enter.mp henter
    obtain ⟨started, hw⟩ := enter_world henter
    have hsame : w'.1.db = w.1.db ∧ w'.1.storage = w.1.storage ∧ w'.1.nats = w.1.nats := by
      rw [hw]
      exact ⟨rfl, rfl, rfl⟩
    refine ⟨⟨⟨?_, ?_⟩, ?_⟩, fun t' => rely_same (.of_db hsame.1) hsame.2.1 hsame.2.2 hghost⟩
    · rw [hsame.1]; exact h.world.created
    · rw [hsame.1]; exact h.world.tx
    · rw [hsame.1]; exact h.named
  abort_sound := fun {t w} h => by
    obtain ⟨hinv, hrely⟩ := Retries.abort_sound (t := t) h.world
    exact ⟨⟨hinv, h.named.abort t⟩, fun t' hne => rely_same (hrely t' hne) rfl rfl rfl⟩
  event_sound := fun h =>
    ⟨⟨⟨h.world.created, h.world.tx⟩, h.named⟩, fun _ => rely_same (.of_db rfl) rfl rfl rfl⟩

end Watch

/-! ## Triples -/

section Triples

variable [PyFloat F] {lib : Libraries F B L} {simulationId t : Nat} {key : SourceKey}

/-- Between two sessions, with no ack sent. -/
def Rest (t : Nat) (w : Watching F B) : Prop :=
  Base t w.1 ∧ (t, .ack) ∉ w.1.nats.replies

theorem rest_stable : (cleanup lib simulationId key).Stable t (Rest t) := fun h hrely =>
  ⟨⟨hrely.world.created h.1.created, fun tx htx howner =>
    h.1.noTx tx ((hrely.world.tx tx howner).mpr htx) howner⟩, fun hack => h.2 (hrely.acked hack)⟩

/-- An operation that sends no ack and uploads nothing. -/
def still : Op F B → Bool
  | .ack | .upload .. => false
  | _ => true

omit [PyFloat F] in
theorem ne_ack {o : Op F B} (ho : still o = true) : o ≠ .ack := by
  rintro rfl
  cases ho

omit [PyFloat F] in
theorem still_of_records {o : Op F B} (h : o.records = true) : still o = true := by
  cases o <;> first | rfl | cases h

omit [PyFloat F] in
theorem pre_of_still {o : Op F B} {w : Watching F B} (ho : still o = true)
    (hpre : Retries.Pre t o w.1) : Pre t o w := by
  cases o <;> first | exact hpre | cases ho

theorem rest_exec {o : Op F B} {choice : Choice} {w w' : Watching F B} {r : Except Exn o.Resp}
    (h : Rest t w) (hdb : o.writesDb = false) (ho : o ≠ .ack)
    (hexec : exec choice t o w.1 = some (r, w'.1)) : Rest t w' :=
  ⟨Retries.base_exec h.1 hdb hexec, fun hack =>
    h.2 (acked_of_effect (Or.inr ho) (exec_effect hexec) hack)⟩

/-- A triple of the deliveries, under watch. -/
theorem yields_watched {p : Act F B α}
    (hp : (Retries.deliveries lib simulationId).Yields t (Base t) p fun _ _ => True)
    (hops : p.AllOps fun o => still o = true) :
    (cleanup lib simulationId key).Yields t (Rest t) p fun _ _ => True := by
  intro w hw
  have hsafe : (cleanup lib simulationId key).Safe t _ p w :=
    Safe.watched (fun _ hinv => hinv.world) (fun _ _ hrely => hrely.world)
      (hops.mono fun o ho _ _ => pre_of_still ho) (hp w.1 hw.1)
  have hunacked : (cleanup lib simulationId key).Stable t
      fun w : Watching F B => (t, .ack) ∉ w.1.nats.replies :=
    fun h hrely hack => h (hrely.acked hack)
  refine (Safe.beside hunacked (hops.mono fun o ho choice w r w' _ _ h hexec hack => h ?_) hw.2
    hsafe).mono fun r w hr => ⟨⟨hr.2.1, hr.1⟩, fun _ _ => trivial⟩
  exact acked_of_effect (Or.inr (ne_ack ho)) (exec_effect (System.watched_exec.mp hexec).2.1) hack

/-- The upload that `_process` hands back, or none where it is missing. -/
def Exit (key : SourceKey) (storageKey : Option SourceKey) (w : Watching F B) : Prop :=
  storageKey = some key ∨ Missing key w

theorem missing_lasting : (cleanup lib simulationId key).Lasting t (Missing key) :=
  ⟨fun h hrely => hrely.missing h, fun _ hpre h hexec =>
    missing_of_effect (pre_upload hpre) h (exec_effect (System.watched_exec.mp hexec).2.1)⟩

theorem exit_lasting (storageKey : Option SourceKey) :
    (cleanup lib simulationId key).Lasting t (Exit key storageKey) :=
  ⟨fun h hrely => h.imp_right hrely.missing, fun hinv hpre h hexec =>
    h.imp_right fun hmissing => missing_lasting.exec hinv hpre hmissing hexec⟩

/-- The snapshot is the row, with its upload. -/
theorem yields_snapshot :
    (cleanup lib simulationId key).Yields t (Rest t) snapshotSimulation
      fun row _ => ∃ r, row = some r ∧ Names key r := by
  intro w hw
  have hread : (cleanup lib simulationId key).Safe t
      (fun row _ => ∀ a, row = .ok a → ∃ r, a = some r ∧ Names key r) snapshotSimulation w := by
    refine Safe.ensuring (safe_perform rest_stable hw (fun _ _ hrest => hrest.1.noTx)
      fun choice r w' w'' hinv hrest hexec => ?_)
    have hnames : ∀ a, r = .ok a → ∃ row, a = some row ∧ Names key row := by
      rintro a rfl
      obtain ⟨rfl, -⟩ := Settlement.exec_getRow hrest.1 (System.watched_exec.mp hexec).2.1
      exact hinv.named.row
    refine safe_perform (A := fun _ => True) (fun _ _ => trivial) trivial (fun _ _ _ => trivial)
      fun choice r' _ _ _ _ _ => ?_
    cases r' with
    | ok u => exact hnames
    | error e => exact fun _ h => by cases h
  have hrest : (cleanup lib simulationId key).Safe t _ snapshotSimulation w :=
    yields_watched Retries.handles.snapshot (.ensuring (.perform rfl) (.perform rfl)) w hw
  exact (Safe.both hrest hread).mono fun r w hr => ⟨hr.1.1, hr.2⟩

/-- A download that is told of a missing object found none, or the outside said so. -/
theorem download_cases {choice : Choice} {w w' : World F B} {text : String}
    (hexec : exec choice t (.download key) w = some (.error (.objectNotFound text), w')) :
    w.storage.sources key = none ∨ raised choice = some (.objectNotFound text) := by
  cases choice with
  | ok =>
      left
      simp only [exec, answer] at hexec
      split at hexec
      · assumption
      · cases hexec
  | fail e =>
      right
      simp only [exec] at hexec
      split_ifs at hexec
      obtain ⟨heq, -⟩ := Prod.mk.inj (Option.some.inj hexec)
      rw [raised, Except.error.inj heq]
  | lost e =>
      right
      simp only [exec] at hexec
      split_ifs at hexec
      obtain ⟨x, -, heq⟩ := Option.map_eq_some_iff.mp hexec
      obtain ⟨heq, -⟩ := Prod.mk.inj heq
      rw [raised, Except.error.inj heq]
  | swallowed => simp [exec, Op.swallows] at hexec

theorem missing_of_download {choice : Choice} {w w' : Watching F B} {text : String}
    (hexec : (System.watched (watch lib simulationId key)).exec choice t (.download key) w =
      some (.error (.objectNotFound text), w')) : Missing key w' := by
  obtain ⟨haccepted, hexec, -⟩ := System.watched_exec.mp hexec
  refine missing_of_effect (by simp) ?_ (exec_effect hexec)
  rcases download_cases hexec with hmissing | hraised
  · exact hmissing
  · by_contra hthere
    exact haccepted ⟨⟨text, hraised⟩, hthere⟩

/-- A download of the upload ends the run only where the object is missing. -/
theorem yields_downloadSource :
    (cleanup lib simulationId key).Yields t (Rest t)
      (downloadSource simulationId key : Act F B (Except (Option SourceKey) B))
      fun r w => ∀ terminal, r = .error terminal → Missing key w := by
  refine Yields.tryCatch_knowing (X := fun e w => (∃ text, e = .objectNotFound text) → Missing key w)
    (fun w hw => ?_) (fun e => .imp missing_lasting) fun e => ?_
  · refine Safe.bind (safe_perform rest_stable hw (fun _ _ _ => trivial)
      fun choice r w' w'' hinv hrest hexec => ?_)
    have hrest' : Rest t w'' :=
      rest_exec hrest rfl (by simp) (System.watched_exec.mp hexec).2.1
    cases r with
    | ok content => exact ⟨hrest', fun a ha terminal h => (by
        obtain rfl := Except.ok.inj ha
        cases h), fun e h => by cases h⟩
    | error e =>
        refine ⟨hrest', fun a ha => (by cases ha), fun e' he' => ?_⟩
        obtain rfl := Except.error.inj he'
        rintro ⟨text, rfl⟩
        exact missing_of_download hexec
  · cases e with
    | objectNotFound text =>
        exact (yields_watched (Retries.yields_saveFailure simulationId _)
          ((records_saveFailure ..).mono fun _ => still_of_records)).next
          fun _ => .pure fun _ _ hmissing _ _ => hmissing ⟨text, rfl⟩
    | _ => exact .raise _

/-! ### The catch-all -/

/-- The handler of `t` has come to its catch-all's mark. -/
def Unhandled (t : Nat) (w : Watching F B) : Prop := w.2.unhandled t = true

theorem unhandled_lasting : (cleanup lib simulationId key).Lasting t (Unhandled t) :=
  ⟨fun h hrely => hrely.unhandled h, fun _ _ h hexec => by
    have hnote := (System.watched_exec.mp hexec).2.2
    unfold Unhandled
    rw [hnote]
    exact unhandled_note h⟩

/-- Once known, through operations that ask for nothing. -/
theorem safe_unhandled {p : Act F B α} {w : Watching F B}
    (hops : p.AllOps fun o => ∀ w, Pre t o w) (h : Unhandled t w) :
    (cleanup lib simulationId key).Safe t (fun _ w => Unhandled t w) p w :=
  (Safe.known unhandled_lasting h
    ((Polite.of_allOps (d := cleanup lib simulationId key) (hops.mono fun _ ho w _ => ho w)) w)).mono
      fun _ _ hr => hr.1

/-- The mark of the catch-all is claimed where it returns: the row is there. -/
theorem yields_unhandled :
    (cleanup lib simulationId key).Yields t (Rest t)
      (saveFailure simulationId "unhandled_worker_error") fun _ w => Unhandled t w := by
  intro w hw
  have hclaim : (cleanup lib simulationId key).Safe t (fun r w => ∀ a, r = .ok a → Unhandled t w)
      (claimAndCommit (fun _ => unhandledValues) fun _ => pure () : Act F B (Option Nat)) w := by
    have hclose : ∀ (outcome : Except Exn (Option Nat)) (w : Watching F B),
        (∀ a, outcome = .ok a → Unhandled t w) →
          (cleanup lib simulationId key).Safe t (fun _ w => ∀ a, outcome = .ok a → Unhandled t w)
            (await (.closeLocal .own)) w := by
      intro outcome w h
      exact (Safe.known (.forall fun a => .imp unhandled_lasting) h
        (Polite.of_allOps (d := cleanup lib simulationId key) (p := await (.closeLocal .own))
          (.perform fun _ _ => trivial) w)).mono fun _ _ hr => hr.1
    refine Safe.ensuring (Safe.mono (Q := fun outcome w => ∀ a, outcome = .ok a → Unhandled t w)
      (Safe.bind (safe_perform rest_stable hw (fun _ _ hrest => hrest.1.noTx)
        fun choice r w₁ w₂ hinv hrest hexec => ?_)) fun outcome w h => (hclose outcome w h).mono
          fun r w h => ?_)
    · cases r with
      | error e => exact fun _ h => by cases h
      | ok row =>
          obtain ⟨rfl, -⟩ := Settlement.exec_getRow hrest.1 (System.watched_exec.mp hexec).2.1
          obtain ⟨row, hrow, -⟩ := hinv.named.row
          simp only [hrow]
          refine Safe.bind (safe_perform (A := fun _ => True) (fun _ _ => trivial) trivial
            (fun _ _ _ => trivial) fun choice r w₃ w₄ _ _ hexec => ?_)
          have hunhandled : Unhandled t w₄ := by
            have hnote := (System.watched_exec.mp hexec).2.2
            unfold Unhandled
            rw [hnote]
            simp [watch, note]
          cases r with
          | error e => exact fun _ h => by cases h
          | ok n =>
              refine (safe_unhandled ?_ hunhandled).mono fun _ _ h _ _ => h
              by_cases hn : n = 0
              · simp only [hn, if_true]
                trivial
              · simp only [hn, if_false]
                exact .bind trivial fun _ => .bind (.perform fun _ => trivial) fun _ => trivial
    · cases r with
      | ok u => exact h
      | error e => exact fun _ h => by cases h
  have hrest : (cleanup lib simulationId key).Safe t _
      (saveFailure simulationId "unhandled_worker_error") w :=
    yields_watched (Retries.yields_saveFailure simulationId "unhandled_worker_error")
      ((records_saveFailure ..).mono fun _ => still_of_records) w hw
  refine (Safe.both hrest (Safe.bind (hclaim.mono fun r w hr => ?_))).mono
    fun r w hr => ⟨hr.1.1, hr.2⟩
  cases r with
  | error e => exact fun _ h => by cases h
  | ok committed =>
      cases committed with
      | none => exact fun _ _ => hr _ rfl
      | some idCommunity =>
          refine (safe_unhandled ?_ (hr _ rfl)).mono fun _ _ h _ _ => h
          exact .bind (.ensuring (.bind (.perform fun _ => trivial) fun _ => .perform fun _ => trivial)
            (.perform fun _ => trivial)) fun _ => .perform fun _ => trivial

theorem handles : Handles (cleanup lib simulationId key) simulationId t (Rest t)
    (fun row _ => ∃ r, row = some r ∧ Names key r) (fun _ => True) (Exit key) where
  routine o ho := yields_watched (Retries.handles.routine o ho)
    (.perform (by cases o <;> first | rfl | cases ho))
  snapshot := yields_snapshot
  failure m hm := yields_watched (Retries.handles.failure m hm)
    ((records_saveFailure ..).mono fun _ => still_of_records)
  success result path := yields_watched (Retries.handles.success result path)
    ((records_saveSuccess ..).mono fun _ => still_of_records)
  download row k hk := by
    intro w hw
    obtain ⟨⟨r, hr, hnames⟩, hrest⟩ := hw
    obtain rfl := Option.some.inj hr
    obtain rfl := Option.some.inj (hk.symm.trans hnames.key)
    refine (yields_downloadSource w hrest).mono fun r w hr' => ?_
    exact ⟨⟨⟨row, rfl, hnames⟩, hr'.1⟩, fun a ha terminal h => Or.inr (hr'.2 a ha terminal h)⟩
  seen _ := .always
  saved := .always
  exit := exit_lasting
  gone _ h := by
    obtain ⟨r, hr, -⟩ := h
    cases hr
  settled row _ h _ := by
    obtain ⟨r, hr, hnames⟩ := h
    obtain rfl := Option.some.inj hr
    exact Or.inl hnames.key
  exit_saved row _ h _ := by
    obtain ⟨r, hr, hnames⟩ := h
    obtain rfl := Option.some.inj hr
    exact Or.inl hnames.key
  exit_without row _ h _ hwithout := by
    obtain ⟨r, hr, hnames⟩ := h
    obtain rfl := Option.some.inj hr
    -- a row over an upload has all three
    rcases hwithout with hcrm | hkey | hname
    · rw [hnames.source] at hcrm
      cases hcrm
    · rw [hnames.key] at hkey
      cases hkey
    · exact absurd hname hnames.name

/-! ### The reply -/

/-- Once it has acked, the deletion is issued, or there is nothing to delete. -/
def Post (key : SourceKey) (t : Nat) (_ : Except Exn Unit) (w : Watching F B) : Prop :=
  (t, .ack) ∈ w.1.nats.replies → w.2.issued = true ∨ Missing key w

theorem post_stable (r : Except Exn Unit) :
    (cleanup lib simulationId key).Stable t (Post key t r) := fun h hrely hack =>
  (h (hrely.acked hack)).imp hrely.issued hrely.missing

/-- An ack is not sent in the catch-all; one that raises has not been sent. -/
theorem ack_cases {choice : Choice} {r : Except Exn Unit} {w w' : Watching F B}
    (hexec : (System.watched (watch lib simulationId key)).exec choice t .ack w = some (r, w')) :
    ¬ Unhandled t w ∧ (r = .ok () ∨ w'.1 = w.1) := by
  obtain ⟨haccepted, hexec, -⟩ := System.watched_exec.mp hexec
  refine ⟨fun hunhandled => haccepted (Or.inr hunhandled), ?_⟩
  have hpunctual : choice.late = false :=
    (Bool.not_eq_true _).mp fun hlate => haccepted (Or.inl hlate)
  rcases exec_punctual rfl hpunctual hexec with hsame | hanswer
  · exact Or.inr hsame
  · exact Or.inl (Prod.mk.inj (Option.some.inj hanswer)).1.symm

theorem safe_handleMessage {w : Watching F B} (hw : Rest t w) (delivered : Option Nat) :
    (cleanup lib simulationId key).Safe t (Post key t) (handleMessage lib simulationId delivered)
      w := by
  have hunacked : ∀ {w : Watching F B} {r : Except Exn Unit}, Rest t w → Post key t r w :=
    fun hrest hack => absurd hack hrest.2
  refine Safe.andThen (((handles.process lib delivered).ensuring exit_lasting
    (handles.routine .stopHeartbeat rfl) w hw).mono fun r w hr => ?_)
  have hunhandled : (cleanup lib simulationId key).Safe t (Post key t)
      (saveFailure simulationId "unhandled_worker_error" >>= fun _ => await .ack) w := by
    refine Safe.bind ((yields_unhandled w hr.1).mono fun r w hr => ?_)
    cases r with
    | error e => exact hunacked hr.1
    | ok u =>
        exact safe_perform unhandled_lasting.stable (hr.2 u rfl) (fun _ _ _ => trivial)
          fun choice r w' w'' _ h hexec => absurd h (ack_cases hexec).1
  cases r with
  | ok storageKey =>
      refine Safe.bind (safe_perform (A := fun w => Exit key storageKey w ∧ Rest t w)
        (fun h hrely => ⟨(exit_lasting storageKey).stable h.1 hrely, rest_stable h.2 hrely⟩)
        ⟨hr.2 storageKey rfl, hr.1⟩ (fun _ _ _ => trivial)
        fun choice r w' w'' hinv h hexec => ?_)
      have hexit : Exit key storageKey w'' := (exit_lasting storageKey).exec hinv (by trivial) h.1 hexec
      cases r with
      | error e =>
          rcases (ack_cases hexec).2 with hok | hsame
          · cases hok
          · refine fun hack => absurd ?_ h.2.2
            rwa [← hsame]
      | ok u =>
          cases storageKey with
          | none =>
              rcases hexit with hkey | hmissing
              · cases hkey
              · exact fun _ => Or.inr hmissing
          | some k =>
              refine safe_perform (exit_lasting (some k)).stable hexit (fun _ _ _ => trivial)
                fun choice r w₁ w₂ hinv h hexec _ => ?_
              rcases h with hkey | hmissing
              · left
                obtain rfl := Option.some.inj hkey
                rw [(System.watched_exec.mp hexec).2.2]
                simp [watch, note]
              · exact Or.inr (missing_lasting.exec hinv (by trivial) hmissing hexec)
  | error e =>
      cases e with
      | cancelled => exact hunacked hr.1
      | transientError text =>
          exact safe_perform rest_stable hr.1 (fun _ _ _ => trivial)
            fun choice r w' w'' _ hrest hexec =>
              hunacked (rest_exec hrest rfl (by simp) (System.watched_exec.mp hexec).2.1)
      | _ => exact hunhandled

end Triples

/-! ## Runs -/

section Runs

variable [PyFloat F] {lib : Libraries F B L} {simulationId : Nat} {key : SourceKey}

/-- The handler of `t` has come to its catch-all's mark in `h`. -/
def InCatchAll (h : List (System.Happening (service lib simulationId))) (t : Nat) : Prop :=
  ∃ s r, .performed t (.claim s unhandledValues) r ∈ h

/-- The deletion of the upload has been issued in `h`. -/
def Issued (key : SourceKey) (h : List (System.Happening (service lib simulationId))) : Prop :=
  ∃ t r, .performed t (.delete (some (.source key))) r ∈ h

/-- Deliveries, where only a missing object is reported missing. -/
structure Delivers (c : State lib simulationId) (l : System.Label (service lib simulationId)) :
    Prop where
  deliveries : ∀ t e, l = .enter t e → ∃ delivered, e = .deliver delivered
  truthful : ∀ t choice k next text, l = .step t choice →
    c.tasks t = .running (.op (.download k) next) →
      raised choice = some (.objectNotFound text) → c.world.storage.sources k = none

/-- No handler acks in its catch-all, and no ack raises after it has reached the broker. -/
structure Allowed (h : List (System.Happening (service lib simulationId)))
    (c : State lib simulationId) (l : System.Label (service lib simulationId)) : Prop
    extends Delivers c l where
  acks : ∀ t choice next, l = .step t choice → c.tasks t = .running (.op .ack next) →
    choice.late = false ∧ ¬ InCatchAll h t

theorem issued_of_note {x : System.Happening (service lib simulationId)} {g : Ghost}
    (h : (note key x g).issued = true) :
    g.issued = true ∨ ∃ t r, x = .performed t (.delete (some (.source key))) r := by
  unfold note at h
  split at h
  · rename_i t k r
    rcases Bool.or_eq_true_iff.mp h with hold | hnew
    · exact Or.inl hold
    · obtain rfl := of_decide_eq_true hnew
      exact Or.inr ⟨t, r, rfl⟩
  · split_ifs at h <;> exact Or.inl h
  · exact Or.inl h

theorem unhandled_of_note {x : System.Happening (service lib simulationId)} {g : Ghost} {t : Nat}
    (h : (note key x g).unhandled t = true) :
    g.unhandled t = true ∨ ∃ s r, x = .performed t (.claim s unhandledValues) r := by
  unfold note at h
  split at h
  · exact Or.inl h
  · rename_i t' s values r
    split_ifs at h with hvalues
    · by_cases ht : t = t'
      · subst ht hvalues
        exact Or.inr ⟨s, r, rfl⟩
      · exact Or.inl (by simpa [Function.update_of_ne ht] using h)
    · exact Or.inl h
  · exact Or.inl h

/-- The ghost state is read off the history. -/
theorem after_ghost (key : SourceKey) (h : List (System.Happening (service lib simulationId))) :
    (((watch lib simulationId key).after ⟨false, fun _ => false⟩ h).issued = true →
      Issued key h) ∧
    ∀ t, ((watch lib simulationId key).after ⟨false, fun _ => false⟩ h).unhandled t = true →
      InCatchAll h t := by
  induction h using List.reverseRecOn with
  | nil => exact ⟨(by intro h; cases h), (by intro t h; cases h)⟩
  | append_singleton h x ih =>
      have hlast : x ∈ h ++ [x] := List.mem_append_right _ (List.mem_singleton_self x)
      have hafter : (watch lib simulationId key).after ⟨false, fun _ => false⟩ (h ++ [x]) =
          note key x ((watch lib simulationId key).after ⟨false, fun _ => false⟩ h) := by
        simp [System.Watch.after, watch]
      rw [hafter]
      refine ⟨fun hg => ?_, fun t hg => ?_⟩
      · rcases issued_of_note hg with hold | ⟨t, r, rfl⟩
        · obtain ⟨t, r, hmem⟩ := ih.1 hold
          exact ⟨t, r, List.mem_append_left _ hmem⟩
        · exact ⟨t, r, hlast⟩
      · rcases unhandled_of_note hg with hold | ⟨s, r, rfl⟩
        · obtain ⟨s, r, hmem⟩ := ih.2 t hold
          exact ⟨s, r, List.mem_append_left _ hmem⟩
        · exact ⟨s, r, hlast⟩

/-- An upload goes only where its deletion is issued. -/
theorem missing_before {allowed : List (System.Happening (service lib simulationId)) →
      State lib simulationId → System.Label (service lib simulationId) → Prop}
    {c c' : State lib simulationId} {h : List (System.Happening (service lib simulationId))}
    (hrun : (service lib simulationId).Runs allowed c h c')
    (hmissing : c'.world.storage.sources key = none) :
    Issued key h ∨ c.world.storage.sources key = none := by
  induction hrun with
  | refl => exact Or.inr hmissing
  | @tail h c₁ c₂ l run ok step ih =>
      by_cases hbefore : c₁.world.storage.sources key = none
      · refine (ih hbefore).imp_left fun ⟨t, r, hmem⟩ => ⟨t, r, List.mem_append_left _ hmem⟩
      · left
        suffices h : ∃ t r, .performed t (.delete (some (.source key))) r ∈
            (service lib simulationId).happening l c₁ by
          obtain ⟨t, r, hmem⟩ := h
          exact ⟨t, r, List.mem_append_right _ hmem⟩
        have hmoves := System.moves_of_next step
        generalize c₂.world = w at hmoves hmissing
        cases hmoves with
        | enter henter =>
            obtain ⟨started, rfl⟩ := enter_world henter
            exact absurd hmissing hbefore
        | abort | event => exact absurd hmissing hbefore
        | @step t choice o k r w htask hexec =>
            obtain rfl := deletes_of_effect (exec_effect hexec) hbefore hmissing
            exact ⟨t, r, by simp [System.happening, htask, hexec]⟩

/-- Once a handler that has acked has ended, the deletion of the row's upload is
issued, unless the upload was missing. -/
theorem released {c c' : State lib simulationId}
    {h : List (System.Happening (service lib simulationId))} {row : SimulationModel}
    (hbegins : Begins c) (hrow : c.world.db.row = some row) (hnames : Names key row)
    (hrun : (service lib simulationId).Runs Allowed c h c') {t : Nat} {r : Except Exn Unit}
    (hended : c'.tasks t = .running (.ret r)) (hack : (t, .ack) ∈ c'.world.nats.replies) :
    Issued key h ∨ c.world.storage.sources key = none := by
  let ghost : Ghost := ⟨false, fun _ => false⟩
  have hwatched := hrun.watched (g := watch lib simulationId key) ghost
    fun h c₁ t choice o k hallowed htask hrefuses => by
      cases o <;> try exact hrefuses
      case download k =>
        obtain ⟨⟨text, hraised⟩, hthere⟩ := hrefuses
        exact hthere (hallowed.truthful t choice _ _ text rfl htask hraised)
      case ack =>
        obtain ⟨hlost, hcatch⟩ := hallowed.acks t choice _ rfl htask
        rcases hrefuses with hlost' | hunhandled
        · rw [hlost] at hlost'
          cases hlost'
        · exact hcatch ((after_ghost key h).2 t hunhandled)
  have hnone : ∀ tx, c.world.db.tx ≠ some tx := fun tx htx => by
    rw [hbegins.tx] at htx
    cases htx
  have hstart : (cleanup lib simulationId key).Meets (Post key)
      (c.watched (watch lib simulationId key) ghost) := by
    refine ⟨⟨⟨hbegins.created row hrow, fun tx htx => absurd htx (hnone tx)⟩,
      ⟨⟨row, hrow, hnames⟩, fun tx htx => absurd htx (hnone tx)⟩⟩,
      fun t _ => ⟨fun tx htx => absurd htx (hnone tx), hbegins.replies t⟩, fun t p htask => ?_⟩
    have hidle := hbegins.idle t
    simp only [System.Config.watched] at htask
    rw [hidle] at htask
    cases htask
  have hend := reaches_meets hstart (fun t r => post_stable r)
    (fun c t e w p hallowed hinv hidle henter => by
      obtain ⟨rfl, h, hallowed⟩ := hallowed
      obtain ⟨t, e⟩ := e
      obtain ⟨delivered, rfl⟩ := hallowed.deliveries t e rfl
      obtain ⟨hentered, hghost⟩ := System.watched_enter.mp henter
      simp only [service, enter] at hentered
      split_ifs at hentered
      obtain ⟨hw, rfl⟩ := Prod.mk.inj (Option.some.inj hentered)
      refine safe_handleMessage ⟨⟨?_, ?_⟩, ?_⟩ delivered
      · rw [← hw]; exact hinv.world.created
      · rw [← hw]; exact hidle.1
      · rw [← hw]; exact hidle.2)
    hwatched
  rcases hend.ended hended hack with hissued | hmissing
  · exact Or.inl ((after_ghost key h).1 hissued)
  · exact missing_before hrun hmissing

end Runs

/-! ## A delivery -/

def smallUpload : SourceKey := { community := 3, uuid := smallUuid, fileName := "data.csv" }

theorem names_smallRow : Names smallUpload smallRow := ⟨rfl, rfl, by decide⟩

/-- A delivery, and what is not an object reported missing. -/
def deliversOnly (_ : State smallLib 1) : System.Label (service smallLib 1) → Bool
  | .enter _ (.deliver _) => true
  | .enter _ _ => false
  | .step _ choice => !(raised choice matches some (.objectNotFound _))
  | _ => true

theorem delivers_of_deliversOnly {c : State smallLib 1} {l : System.Label (service smallLib 1)}
    (h : deliversOnly c l = true) : Delivers c l := by
  refine ⟨?_, ?_⟩
  · rintro t e rfl
    cases e with
    | deliver delivered => exact ⟨delivered, rfl⟩
    | _ => cases h
  · rintro t choice k next text rfl - hraised
    simp [deliversOnly, hraised] at h

/-- A handler that is handed the message, and the outcomes of its operations. -/
def delivery (choices : List Choice) : List (System.Label (service smallLib 1)) :=
  .enter 0 (Entry.deliver (some 1)) :: choices.map (.step 0)

def hasEnded (c : State smallLib 1) : Bool := c.tasks 0 matches .running (.ret _)

theorem ended_of_hasEnded {c : State smallLib 1} (h : hasEnded c = true) :
    ∃ r, c.tasks 0 = .running (.ret r) := by
  unfold hasEnded at h
  split at h
  · exact ⟨_, by assumption⟩
  · cases h

/-- Whether the upload's deletion is issued. -/
def deletesUpload : System.Happening (service smallLib 1) → Bool
  | .performed _ (.delete (some (.source k))) _ => k = smallUpload
  | _ => false

theorem deletes_of_issued {h : List (System.Happening (service smallLib 1))}
    (hissued : Issued smallUpload h) : h.any deletesUpload = true := by
  obtain ⟨t, r, hmem⟩ := hissued
  exact List.any_eq_true.mpr ⟨_, hmem, by simp [deletesUpload]⟩

/-- Whether a handler has come to its catch-all. -/
def marksUnhandled : System.Happening (service smallLib 1) → Bool
  | .performed _ (.claim _ values) _ => values = unhandledValues
  | _ => false

theorem marks_of_inCatchAll {h : List (System.Happening (service smallLib 1))} {t : Nat}
    (hcatch : InCatchAll h t) : h.any marksUnhandled = true := by
  obtain ⟨s, r, hmem⟩ := hcatch
  exact List.any_eq_true.mpr ⟨_, hmem, by simp [marksUnhandled]⟩

/-- A delivery in which nothing fails. -/
theorem released_once :
    ∃ (c : State smallLib 1) (h : List (System.Happening (service smallLib 1))),
      (service smallLib 1).Runs Allowed Retries.start h c ∧ (0, .ack) ∈ c.world.nats.replies ∧
        (Issued smallUpload h ∨ Retries.start.world.storage.sources smallUpload = none) := by
  let schedule := delivery (List.replicate 20 .ok)
  have hruns : ((System.runAll (fun c l => deliversOnly c l && (l matches .enter .. | .step _ .ok))
      schedule Retries.start).any fun c => hasEnded c && c.world.nats.replies = [(0, .ack)]) = true
      := by decide +kernel
  have hmarks : (System.historyOf schedule Retries.start).any marksUnhandled = false := by
    decide +kernel
  obtain ⟨c, hc, hend⟩ := (Option.any_eq_true _ _).mp hruns
  simp only [Bool.and_eq_true, decide_eq_true_eq] at hend
  obtain ⟨r, hended⟩ := ended_of_hasEnded hend.1
  have hack : (0, .ack) ∈ c.world.nats.replies := by simp [hend.2]
  have hrun : (service smallLib 1).Runs Allowed Retries.start
      (System.historyOf schedule Retries.start) c := by
    refine (System.runs_of_runAll hc).mono_history fun h c l hinit hl => ?_
    simp only [Bool.and_eq_true] at hl
    refine ⟨delivers_of_deliversOnly hl.1, ?_⟩
    rintro t choice next rfl -
    refine ⟨?_, fun hcatch => ?_⟩
    · cases choice with
      | lost e => exact absurd hl.2 (by simp)
      | _ => rfl
    · obtain ⟨x, hx, hmark⟩ := List.any_eq_true.mp (marks_of_inCatchAll hcatch)
      have hall := List.any_eq_false.mp hmarks x (hinit.subset hx)
      exact hall hmark
  exact ⟨c, _, hrun, hack,
    released Retries.start_begins rfl names_smallRow hrun hended hack⟩

/-- A simulation whose key is gone. -/
def keyless : State smallLib 1 :=
  { Retries.start with
    world := { Retries.start.world with
      crm := { Retries.start.world.crm with allocationKeys := fun _ _ => none } } }

theorem keyless_begins : Begins keyless :=
  { idle := fun _ => rfl
    tx := rfl
    created := fun _ _ => rfl
    published := fun _ => rfl
    replies := fun _ => List.not_mem_nil }

/-- The outcome is committed and the commit of its audit entry fails: the handler
acks in its catch-all, and nothing deletes the upload. -/
theorem unreleased_in_catch_all :
    ¬ ∀ (c c' : State smallLib 1) (h : List (System.Happening (service smallLib 1)))
      (key : SourceKey) (row row' : SimulationModel) (t : Nat) (r : Except Exn Unit), Begins c →
      c.world.db.row = some row → Names key row →
      (service smallLib 1).Runs (fun _ => Delivers) c h c' → c'.tasks t = .running (.ret r) →
      (t, .ack) ∈ c'.world.nats.replies → c'.world.db.row = some row' → row'.status ≠ .pending →
      Issued key h ∨ c.world.storage.sources key = none := by
  intro hreleased
  let schedule := delivery
    (List.replicate 9 .ok ++ [.fail (.other "connection closed")] ++ List.replicate 6 .ok)
  have hruns : ((System.runAll deliversOnly schedule keyless).any fun c => hasEnded c &&
      c.world.nats.replies = [(0, .ack)] && c.world.db.row.any (·.status = .failed)) = true := by
    decide +kernel
  have hdeletes : (System.historyOf schedule keyless).any deletesUpload = false := by
    decide +kernel
  obtain ⟨c, hc, hend⟩ := (Option.any_eq_true _ _).mp hruns
  simp only [Bool.and_eq_true, decide_eq_true_eq, Option.any_eq_true] at hend
  obtain ⟨⟨hended, hreplies⟩, row, hrow, hfailed⟩ := hend
  obtain ⟨r, hended⟩ := ended_of_hasEnded hended
  have hrun : (service smallLib 1).Runs (fun _ => Delivers) keyless
      (System.historyOf schedule keyless) c :=
    (System.runs_of_runAll hc).mono fun _ _ _ hl => delivers_of_deliversOnly hl
  rcases hreleased keyless c _ smallUpload smallRow row 0 r keyless_begins rfl names_smallRow hrun
    hended (by simp [hreplies]) hrow (by rw [hfailed]; decide) with hissued | hmissing
  · rw [deletes_of_issued hissued] at hdeletes
    cases hdeletes
  · cases hmissing

end SimulationKey.Theorems.Cleanup
