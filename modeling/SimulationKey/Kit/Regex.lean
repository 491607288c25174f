import Mathlib.Data.List.TakeWhile

/-!
# Patterns matched by backtracking

A pattern is a row of literal texts and repetitions of a class of symbols. `run`
tries the lengths of a repetition in its order, the longest first or the shortest
first, and keeps the first with which the rest matches.

* **one match** — `run_text_append`, `run_greedy` and `run_lazy` say what is found,
  `run_many_eq_none_iff` when nothing is, `run_lazy_eq_some` what every match
  with a lazy part leaves untried;
* **all matches** — `findAll` is `finditer`: leftmost, without overlap.
-/

namespace SimulationKey.Kit.Regex

variable {α : Type}

/-- A repetition of a class of symbols. -/
structure Repeat (α : Type) where
  accepts : α → Bool
  least : Nat
  shortestFirst : Bool
  group : Bool

inductive Item (α : Type) where
  | text (t : List α)
  | many (r : Repeat α)

namespace Repeat

/-- The repetition may take the first `n` symbols. -/
def Fits (r : Repeat α) (s : List α) (n : Nat) : Prop :=
  r.least ≤ n ∧ n ≤ (s.takeWhile r.accepts).length

/-- The lengths it may take, in the order they are tried. -/
def tries (r : Repeat α) (s : List α) : List Nat :=
  let lengths := (List.range ((s.takeWhile r.accepts).length + 1)).filter (r.least ≤ ·)
  if r.shortestFirst then lengths else lengths.reverse

/-- The first length is tried before the second. -/
def Before (r : Repeat α) (m n : Nat) : Prop := if r.shortestFirst then m < n else n < m

/-- The text taken, put in front of the groups of the rest. -/
def keep (r : Repeat α) (taken : List α) (found : List (List α) × List α) :
    List (List α) × List α :=
  (if r.group then taken :: found.1 else found.1, found.2)

theorem mem_tries {r : Repeat α} {s : List α} {n : Nat} : n ∈ r.tries s ↔ r.Fits s n := by
  simp only [tries, Fits]
  split <;> simp [Nat.lt_succ_iff, and_comm]

theorem tries_sorted (r : Repeat α) (s : List α) : (r.tries s).Pairwise r.Before := by
  have hsorted : ((List.range ((s.takeWhile r.accepts).length + 1)).filter
      (r.least ≤ ·)).Pairwise (· < ·) := List.pairwise_lt_range.filter _
  unfold tries Before
  cases r.shortestFirst
  · simpa [List.pairwise_reverse] using hsorted
  · simpa using hsorted

theorem Before.asymm {r : Repeat α} {m n : Nat} (h : r.Before m n) : ¬ r.Before n m := by
  unfold Before at *
  split at h <;> simp_all <;> omega

theorem fits_append {r : Repeat α} {u : List α} (v : List α) (hu : ∀ a ∈ u, r.accepts a = true)
    {n : Nat} (hleast : r.least ≤ n) (hn : n ≤ u.length) : r.Fits (u ++ v) n := by
  refine ⟨hleast, ?_⟩
  rw [List.takeWhile_append_of_pos hu, List.length_append]
  omega

/-- What a repetition takes it accepts. -/
theorem Fits.accepts {r : Repeat α} {s : List α} {n : Nat} (h : r.Fits s n) :
    ∀ a ∈ s.take n, r.accepts a = true := by
  intro a ha
  have htake : s.take n = (s.takeWhile r.accepts).take n := by
    have hfront := List.prefix_iff_eq_take.mp (List.takeWhile_prefix (l := s) r.accepts)
    rw [hfront, List.take_take, Nat.min_eq_left h.2]
  rw [htake] at ha
  exact List.all_eq_true.mp List.all_takeWhile a (List.mem_of_mem_take ha)

theorem Fits.le_length {r : Repeat α} {s : List α} {n : Nat} (h : r.Fits s n) : n ≤ s.length :=
  h.2.trans (List.takeWhile_prefix _).length_le

end Repeat

/-- In a list in order, the first success is one with failures before it. -/
theorem findSome?_eq_some_iff_of_pairwise {β γ : Type} {R : β → β → Prop} {f : β → Option γ}
    (hR : ∀ a b, R a b → ¬ R b a) {l : List β} (hl : l.Pairwise R) {c : γ} :
    l.findSome? f = some c ↔ ∃ a ∈ l, f a = some c ∧ ∀ b ∈ l, R b a → f b = none := by
  induction l with
  | nil => simp
  | cons a l ih =>
      obtain ⟨hfirst, hrest⟩ := List.pairwise_cons.mp hl
      rw [List.findSome?_cons]
      cases ha : f a with
      | some c' =>
          constructor
          · intro h
            refine ⟨a, List.mem_cons_self .., ha.trans h, fun b hb hba => ?_⟩
            rcases List.mem_cons.mp hb with rfl | hb
            · exact absurd hba (hR _ _ hba)
            · exact absurd hba (hR _ _ (hfirst b hb))
          · rintro ⟨b, hb, hc, hnone⟩
            rcases List.mem_cons.mp hb with rfl | hb
            · exact ha.symm.trans hc
            · rw [hnone a (List.mem_cons_self ..) (hfirst b hb)] at ha
              cases ha
      | none =>
          show l.findSome? f = some c ↔ _
          rw [ih hrest]
          constructor
          · rintro ⟨b, hb, hc, hnone⟩
            refine ⟨b, List.mem_cons_of_mem _ hb, hc, fun x hx hxb => ?_⟩
            rcases List.mem_cons.mp hx with rfl | hx
            · exact ha
            · exact hnone x hx hxb
          · rintro ⟨b, hb, hc, hnone⟩
            rcases List.mem_cons.mp hb with rfl | hb
            · rw [ha] at hc
              cases hc
            · exact ⟨b, hb, hc, fun x hx => hnone x (List.mem_cons_of_mem _ hx)⟩

variable [DecidableEq α]

/-- The match at the front of a text: the texts of its groups and what is left. -/
def run : List (Item α) → List α → Option (List (List α) × List α)
  | [], s => some ([], s)
  | .text t :: items, s => if t <+: s then run items (s.drop t.length) else none
  | .many r :: items, s =>
    (r.tries s).findSome? fun n => (run items (s.drop n)).map (r.keep (s.take n))

/-! ## One match -/

variable {t u v s rest : List α} {items : List (Item α)} {r : Repeat α}
  {groups : List (List α)} {found : List (List α) × List α}

theorem run_text_append (t s : List α) (items : List (Item α)) :
    run (.text t :: items) (t ++ s) = run items s := by
  rw [run, if_pos (List.prefix_append t s), List.drop_left]

theorem run_text_eq_some (h : run (.text t :: items) s = some found) :
    ∃ s', s = t ++ s' ∧ run items s' = some found := by
  rw [run] at h
  split at h
  · rename_i hfront
    obtain ⟨s', rfl⟩ := hfront
    rw [List.drop_left] at h
    exact ⟨s', rfl, h⟩
  · cases h

theorem run_many_eq_some_iff : run (.many r :: items) s = some found ↔
    ∃ n, r.Fits s n ∧ (run items (s.drop n)).map (r.keep (s.take n)) = some found ∧
      ∀ m, r.Fits s m → r.Before m n → run items (s.drop m) = none := by
  rw [run, findSome?_eq_some_iff_of_pairwise (fun _ _ => Repeat.Before.asymm) (r.tries_sorted s)]
  simp only [Repeat.mem_tries, Option.map_eq_none_iff]

theorem run_many_eq_none_iff : run (.many r :: items) s = none ↔
    ∀ n, r.Fits s n → run items (s.drop n) = none := by
  simp only [run, List.findSome?_eq_none_iff, Repeat.mem_tries, Option.map_eq_none_iff]

/-- A greedy repetition takes all it accepts, where the rest matches after it. -/
theorem run_greedy (hgreedy : r.shortestFirst = false) (hleast : r.least ≤ u.length)
    (hu : ∀ a ∈ u, r.accepts a = true) (hv : ∀ a ∈ v.head?, r.accepts a = false)
    (hrest : run items v = some found) :
    run (.many r :: items) (u ++ v) = some (r.keep u found) := by
  have hlongest : ((u ++ v).takeWhile r.accepts).length = u.length := by
    rw [List.takeWhile_append_of_pos hu]
    cases v with
    | nil => simp
    | cons a v => simp [hv a rfl]
  refine run_many_eq_some_iff.mpr
    ⟨u.length, r.fits_append v hu hleast le_rfl, ?_, fun m hm hbefore => ?_⟩
  · rw [List.drop_left, List.take_left, hrest, Option.map_some]
  · have hle := hm.2
    rw [Repeat.Before, hgreedy, if_neg Bool.false_ne_true] at hbefore
    omega

/-- A lazy repetition takes the shortest text after which the rest matches. -/
theorem run_lazy (hlazy : r.shortestFirst = true) (hleast : r.least ≤ u.length)
    (hu : ∀ a ∈ u, r.accepts a = true)
    (hshorter : ∀ m, m < u.length → run items (u.drop m ++ v) = none)
    (hrest : run items v = some found) :
    run (.many r :: items) (u ++ v) = some (r.keep u found) := by
  refine run_many_eq_some_iff.mpr
    ⟨u.length, r.fits_append v hu hleast le_rfl, ?_, fun m hm hbefore => ?_⟩
  · rw [List.drop_left, List.take_left, hrest, Option.map_some]
  · rw [Repeat.Before, hlazy, if_pos rfl] at hbefore
    rw [List.drop_append_of_le_length hbefore.le]
    exact hshorter m hbefore

/-- What a repetition takes, and what it leaves. -/
theorem run_many_eq_some (h : run (.many r :: items) s = some found) :
    ∃ u v found', s = u ++ v ∧ (∀ a ∈ u, r.accepts a = true) ∧ run items v = some found' ∧
      r.keep u found' = found := by
  obtain ⟨n, hfits, hmap, -⟩ := run_many_eq_some_iff.mp h
  obtain ⟨found', hrest, hfound⟩ := Option.map_eq_some_iff.mp hmap
  exact ⟨s.take n, s.drop n, found', (List.take_append_drop n s).symm, hfits.accepts, hrest, hfound⟩

/-- What a lazy repetition takes: the rest matches after no shorter text. -/
theorem run_lazy_eq_some (hlazy : r.shortestFirst = true) (hleast : r.least = 0)
    (h : run (.many r :: items) s = some found) :
    ∃ u v found', s = u ++ v ∧ run items v = some found' ∧ r.keep u found' = found ∧
      ∀ u₁ u₂, u = u₁ ++ u₂ → u₂ ≠ [] → run items (u₂ ++ v) = none := by
  obtain ⟨n, hfits, hmap, hbefore⟩ := run_many_eq_some_iff.mp h
  obtain ⟨found', hrest, hfound⟩ := Option.map_eq_some_iff.mp hmap
  refine ⟨s.take n, s.drop n, found', (List.take_append_drop n s).symm, hrest, hfound, ?_⟩
  intro u₁ u₂ hu hne
  have hlength : (s.take n).length = n := List.length_take_of_le hfits.le_length
  have hshorter : u₁.length < n := by
    rw [hu, List.length_append] at hlength
    have := List.length_pos_iff.mpr hne
    omega
  have hdrop : s.drop u₁.length = u₂ ++ s.drop n := by
    calc s.drop u₁.length = (s.take n ++ s.drop n).drop u₁.length := by rw [List.take_append_drop]
      _ = u₂ ++ s.drop n := by rw [hu, List.append_assoc, List.drop_left]
  rw [← hdrop]
  refine hbefore _ ⟨by omega, hshorter.le.trans hfits.2⟩ ?_
  rw [Repeat.Before, hlazy, if_pos rfl]
  exact hshorter

theorem run_many_ne_none (hleast : r.least ≤ u.length) (hu : ∀ a ∈ u, r.accepts a = true)
    (hrest : run items v ≠ none) : run (.many r :: items) (u ++ v) ≠ none := by
  intro hnone
  refine hrest ?_
  have hrun := run_many_eq_none_iff.mp hnone u.length (r.fits_append v hu hleast le_rfl)
  rwa [List.drop_left] at hrun

/-! ## All matches -/

/-- The length every match has at least. -/
def leastLength : List (Item α) → Nat
  | [] => 0
  | .text t :: items => t.length + leastLength items
  | .many r :: items => r.least + leastLength items

theorem run_length (h : run items s = some (groups, rest)) :
    rest.length + leastLength items ≤ s.length := by
  induction items generalizing s groups with
  | nil =>
      obtain ⟨-, rfl⟩ : [] = groups ∧ s = rest := by simpa [run] using h
      exact le_rfl
  | cons item items ih =>
      cases item with
      | text t =>
          obtain ⟨s', rfl, hrest⟩ := run_text_eq_some h
          have := ih hrest
          rw [leastLength, List.length_append]
          omega
      | many r =>
          obtain ⟨n, hfits, hmap, -⟩ := run_many_eq_some_iff.mp h
          obtain ⟨⟨groups', rest'⟩, hrest, hfound⟩ := Option.map_eq_some_iff.mp hmap
          obtain ⟨-, rfl⟩ := Prod.mk.inj hfound
          have hlength := ih hrest
          have hn := hfits.le_length
          have hleast := hfits.1
          rw [List.length_drop] at hlength
          rw [leastLength]
          omega

/-- A pattern that matches no empty text. -/
structure Pattern (α : Type) where
  items : List (Item α)
  consumes : 0 < leastLength items

/-- The groups of the matches, from left to right and without overlap. -/
def Pattern.findAll (p : Pattern α) : List α → List (List (List α))
  | [] => []
  | a :: s =>
    match h : run p.items (a :: s) with
    | some (groups, rest) =>
      have hshorter : rest.length < (a :: s).length := by
        have := run_length h
        have := p.consumes
        omega
      groups :: p.findAll rest
    | none => p.findAll s
termination_by s => s.length
decreasing_by
  · exact hshorter
  · exact Nat.lt_succ_self _

variable {p : Pattern α}

theorem findAll_match (h : run p.items s = some (groups, rest)) :
    p.findAll s = groups :: p.findAll rest := by
  cases s with
  | nil =>
      have := run_length h
      have := p.consumes
      simp only [List.length_nil] at *
      omega
  | cons a s =>
      rw [Pattern.findAll]
      split
      · rename_i groups' rest' h'
        obtain ⟨rfl, rfl⟩ := Prod.mk.inj (Option.some.inj (h'.symm.trans h))
        rfl
      · rename_i h'
        rw [h] at h'
        cases h'

theorem findAll_skip {a : α} (h : run p.items (a :: s) = none) :
    p.findAll (a :: s) = p.findAll s := by
  rw [Pattern.findAll]
  split
  · rename_i h'
    rw [h] at h'
    cases h'
  · rfl

/-- No match starts where the first symbol of the pattern does not stand. -/
theorem findAll_pass {a : α} (hitems : p.items = .text (a :: t) :: items) (hu : a ∉ u)
    (s : List α) : p.findAll (u ++ s) = p.findAll s := by
  induction u with
  | nil => rfl
  | cons b u ih =>
      rw [List.mem_cons, not_or] at hu
      obtain ⟨hne, hu⟩ := hu
      rw [List.cons_append, findAll_skip, ih hu]
      cases hrun : run p.items (b :: (u ++ s)) with
      | none => rfl
      | some found =>
          rw [hitems] at hrun
          obtain ⟨s', hs', -⟩ := run_text_eq_some hrun
          exact absurd (List.cons.inj hs').1.symm hne

/-- Every match found is one at the front of some text. -/
theorem mem_findAll (h : groups ∈ p.findAll s) : ∃ s' rest, run p.items s' = some (groups, rest) := by
  fun_induction p.findAll s with
  | case1 => exact absurd h List.not_mem_nil
  | case2 a s groups' rest hrun hlt ih =>
      rcases List.mem_cons.mp h with rfl | h
      · exact ⟨_, _, hrun⟩
      · exact ih h
  | case3 a s hrun ih => exact ih h

/-! ## Splitting -/

/-- The pieces between the runs of separators. -/
def splitRuns (isSep : α → Bool) : List α → List (List α)
  | [] => [[]]
  | a :: s =>
    if isSep a then
      if (s.head?.map isSep).getD false then splitRuns isSep s else [] :: splitRuns isSep s
    else
      match splitRuns isSep s with
      | [] => [[a]]
      | piece :: pieces => (a :: piece) :: pieces

/-- The pieces that are not empty. -/
def words (isSep : α → Bool) (s : List α) : List (List α) :=
  (splitRuns isSep s).filter (· ≠ [])

variable {isSep : α → Bool}

omit [DecidableEq α] in
theorem splitRuns_sep {a : α} (ha : isSep a = true) (s : List α) :
    ∃ pieces, splitRuns isSep (a :: s) = [] :: pieces := by
  induction s generalizing a with
  | nil => exact ⟨[[]], by simp [splitRuns, ha]⟩
  | cons b s ih =>
      rw [splitRuns, if_pos ha]
      by_cases hb : isSep b = true
      · simpa [hb] using ih hb
      · exact ⟨splitRuns isSep (b :: s), by simp [hb]⟩

omit [DecidableEq α] in
theorem splitRuns_append (hu : ∀ a ∈ u, isSep a = false) {piece : List α} {pieces : List (List α)}
    (hs : splitRuns isSep s = piece :: pieces) :
    splitRuns isSep (u ++ s) = (u ++ piece) :: pieces := by
  induction u with
  | nil => exact hs
  | cons a u ih =>
      have ha : ¬ isSep a = true := by simp [hu a (List.mem_cons_self ..)]
      rw [List.cons_append, splitRuns, if_neg ha,
        ih fun b hb => hu b (List.mem_cons_of_mem _ hb)]
      rfl

omit [DecidableEq α] in
theorem words_sep {a : α} (ha : isSep a = true) (s : List α) :
    words isSep (a :: s) = words isSep s := by
  rw [words, splitRuns, if_pos ha]
  split
  · rfl
  · rw [List.filter_cons_of_neg (by simp), words]

omit [DecidableEq α] in
/-- A word up to the first separator. -/
theorem words_append_sep (hu : ∀ a ∈ u, isSep a = false) {a : α} (ha : isSep a = true)
    (s : List α) : words isSep (u ++ a :: s) = [u].filter (· ≠ []) ++ words isSep s := by
  obtain ⟨pieces, hpieces⟩ := splitRuns_sep ha s
  have hwords : words isSep s = pieces.filter (· ≠ []) := by
    rw [← words_sep ha s, words, hpieces, List.filter_cons_of_neg (by simp)]
  rw [words, splitRuns_append hu hpieces, List.append_nil, hwords, ← List.filter_append]
  rfl

omit [DecidableEq α] in
/-- Words joined by a separator are read back, the empty ones aside. -/
theorem words_intercalate {sep : α} (hsep : isSep sep = true) {ws : List (List α)}
    (hws : ∀ w ∈ ws, ∀ a ∈ w, isSep a = false) :
    words isSep ([sep].intercalate ws) = ws.filter (· ≠ []) := by
  induction ws with
  | nil => rfl
  | cons w ws ih =>
      have hw := hws w (List.mem_cons_self ..)
      have hrest := ih fun w' hw' => hws w' (List.mem_cons_of_mem _ hw')
      cases ws with
      | nil =>
          have hsplit : splitRuns isSep (w ++ []) = [w ++ []] := splitRuns_append hw rfl
          rw [List.append_nil] at hsplit
          rw [List.intercalate_singleton, words, hsplit]
      | cons w' ws =>
          rw [List.intercalate_cons_cons, List.append_assoc, List.singleton_append,
            words_append_sep hw hsep, hrest, ← List.filter_append]
          rfl

end SimulationKey.Kit.Regex
