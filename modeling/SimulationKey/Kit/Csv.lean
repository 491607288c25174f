import Mathlib.Algebra.GroupWithZero.Nat
import Mathlib.Algebra.BigOperators.Group.List.Basic

/-!
# Records of a text with line ends

A tabular text is cut into records at a line feed, a carriage return or the two
together, outside quotes. What counts as inside quotes is a parameter (`Quoting`),
an automaton that starts again with each record.

* every line feed of the text ends a record or is kept in one (`lineFeeds_records`);
* line ends at the start of a text only make empty records (`filter_records_dropWhile`);
* at most one record has no end, and it ends as the text does
  (`countP_unended_recordsFrom`, `unended_of_recordsFrom`).
-/

namespace SimulationKey.Kit.Csv

def lineFeed : UInt8 := 10

def carriageReturn : UInt8 := 13

/-- When a byte is inside quotes: an automaton over a record's bytes. -/
structure Quoting where
  State : Type
  init : State
  next : State → UInt8 → State
  inside : State → Bool
  init_outside : inside init = false

/-- What ended a record. -/
inductive Ending where
  | lineFeed
  | both
  | carriageReturn
  | none
  deriving DecidableEq, Repr

structure Record where
  content : List UInt8
  ending : Ending
  deriving DecidableEq, Repr

/-- The record's end is a line feed or contains one. -/
def Record.fed (r : Record) : Bool := r.ending = .lineFeed ∨ r.ending = .both

variable (q : Quoting)

/-- The records of a text, `current` read of the first one so far. -/
def recordsFrom : q.State → List UInt8 → List UInt8 → List Record
  | _, current, [] => if current = [] then [] else [⟨current, .none⟩]
  | state, current, b :: rest =>
    if q.inside state then recordsFrom (q.next state b) (current ++ [b]) rest
    else if b = lineFeed then ⟨current, .lineFeed⟩ :: recordsFrom q.init [] rest
    else if b = carriageReturn then
      match rest with
      | [] => [⟨current, .carriageReturn⟩]
      | b' :: rest' =>
        if b' = lineFeed then ⟨current, .both⟩ :: recordsFrom q.init [] rest'
        else ⟨current, .carriageReturn⟩ :: recordsFrom q.init [] (b' :: rest')
    else recordsFrom (q.next state b) (current ++ [b]) rest

def records (text : List UInt8) : List Record := recordsFrom q q.init [] text

/-- The line feeds a record keeps. -/
def Record.kept (r : Record) : Nat := r.content.count lineFeed

/-- A record in front, with what it adds to the line feeds. -/
theorem lineFeeds_cons (r : Record) (rs : List Record) :
    ((r :: rs).map Record.kept).sum + (r :: rs).countP Record.fed =
      r.kept + (if r.fed then 1 else 0) +
        ((rs.map Record.kept).sum + rs.countP Record.fed) := by
  rw [List.map_cons, List.sum_cons, List.countP_cons]
  omega

theorem lineFeeds_recordsFrom (state : q.State) (current text : List UInt8) :
    ((recordsFrom q state current text).map Record.kept).sum +
        (recordsFrom q state current text).countP Record.fed =
      current.count lineFeed + text.count lineFeed := by
  fun_induction recordsFrom q state current text with
  | case1 state => simp
  | case2 state current hcurrent => simp [Record.kept, Record.fed]
  | case3 state current b rest hinside ih =>
      rw [ih, List.count_append, List.count_cons, List.count_cons, List.count_nil]
      omega
  | case4 state current rest houtside ih =>
      rw [lineFeeds_cons, ih, List.count_cons_self]
      simp only [Record.kept, Record.fed, List.count_nil, true_or, decide_true, if_true]
      omega
  | case5 state current houtside hne =>
      simp [Record.kept, Record.fed, List.count_cons_of_ne hne]
  | case6 state current houtside rest hne ih =>
      rw [lineFeeds_cons, ih, List.count_cons_of_ne hne, List.count_cons_self]
      simp only [Record.kept, Record.fed, List.count_nil, or_true, decide_true, if_true]
      omega
  | case7 state current houtside b' rest hb' hne ih =>
      rw [lineFeeds_cons, ih, List.count_cons_of_ne hne]
      simp [Record.kept, Record.fed]
  | case8 state current b rest houtside hlf hcr ih =>
      rw [ih, List.count_append, List.count_cons_of_ne hlf, List.count_cons_of_ne hlf,
        List.count_nil, Nat.add_zero]

/-- Every line feed of a text ends a record or is kept in one. -/
theorem lineFeeds_records (text : List UInt8) :
    ((records q text).map Record.kept).sum + (records q text).countP Record.fed =
      text.count lineFeed := by
  have h := lineFeeds_recordsFrom q q.init [] text
  rwa [List.count_nil, Nat.zero_add] at h

/-! ## Line ends in front -/

def isLineEnd (b : UInt8) : Bool := b = carriageReturn ∨ b = lineFeed

/-- A line end in front of a text adds records without content only. -/
theorem records_lineEnd {b : UInt8} (h : isLineEnd b = true) (rest : List UInt8)
    {p : Record → Bool} (hp : ∀ r : Record, r.content = [] → p r = false) :
    (records q (b :: rest)).filter p = (records q rest).filter p := by
  have hdrop : ∀ ending, ∀ rs : List Record, (⟨[], ending⟩ :: rs).filter p = rs.filter p :=
    fun ending rs => List.filter_cons_of_neg (by simp [hp ⟨[], ending⟩ rfl])
  have hfeed : ∀ rest, (records q (lineFeed :: rest)).filter p = (records q rest).filter p := by
    intro rest
    rw [records, recordsFrom.eq_def]
    simp only [q.init_outside, Bool.false_eq_true, if_false, if_true, hdrop]
    rfl
  rcases of_decide_eq_true h with rfl | rfl
  · -- a carriage return, with the line feed after it if there is one
    have hne : carriageReturn ≠ lineFeed := by decide
    cases rest with
    | nil =>
        rw [records, recordsFrom.eq_def]
        simp [q.init_outside, hne, hdrop, records, recordsFrom]
    | cons b' rest =>
        rw [records, recordsFrom.eq_def]
        simp only [q.init_outside, Bool.false_eq_true, if_false, hne, if_true]
        by_cases hb' : b' = lineFeed
        · rw [if_pos hb', hdrop, hb', hfeed]
          rfl
        · rw [if_neg hb', hdrop]
          rfl
  · exact hfeed rest

/-- So do all of them. -/
theorem filter_records_dropWhile (text : List UInt8) {p : Record → Bool}
    (hp : ∀ r : Record, r.content = [] → p r = false) :
    (records q (text.dropWhile isLineEnd)).filter p = (records q text).filter p := by
  induction text with
  | nil => rfl
  | cons b rest ih =>
      by_cases hb : isLineEnd b = true
      · rw [List.dropWhile_cons_of_pos hb, ih, records_lineEnd q hb rest hp]
      · rw [List.dropWhile_cons_of_neg hb]

/-! ## The last record -/

/-- A record without an end has content, and ends as the text does. -/
theorem unended_of_recordsFrom (state : q.State) (current text : List UInt8) {r : Record}
    (hr : r ∈ recordsFrom q state current text) (hnone : r.ending = .none) :
    r.content ≠ [] ∧ (current ++ text).getLast? = r.content.getLast? := by
  have hlast : ∀ front rest : List UInt8,
      (r.content ≠ [] ∧ ([] ++ rest).getLast? = r.content.getLast?) →
        r.content ≠ [] ∧ (front ++ rest).getLast? = r.content.getLast? := by
    rintro front rest ⟨hne, hrest⟩
    obtain ⟨b, hb⟩ := Option.isSome_iff_exists.mp (List.getLast?_isSome.mpr hne)
    rw [List.nil_append, hb] at hrest
    exact ⟨hne, by rw [List.getLast?_append, hrest, hb, Option.some_or]⟩
  have htail : ∀ (ending : Ending) (content : List UInt8) (rs : List Record),
      ending ≠ .none → r ∈ ⟨content, ending⟩ :: rs → r ∈ rs := by
    intro ending content rs hne hmem
    rcases List.mem_cons.mp hmem with rfl | hmem
    · exact absurd hnone hne
    · exact hmem
  fun_induction recordsFrom q state current text with
  | case1 state => cases hr
  | case2 state current hcurrent =>
      obtain rfl := List.mem_singleton.mp hr
      exact ⟨hcurrent, by rw [List.append_nil]⟩
  | case3 state current b rest hinside ih =>
      rw [List.append_cons]
      exact ih hr
  | case4 state current rest houtside ih =>
      rw [List.append_cons]
      exact hlast _ _ (ih (htail _ _ _ Ending.noConfusion hr))
  | case5 state current houtside hne =>
      cases htail _ _ _ Ending.noConfusion hr
  | case6 state current houtside rest hne ih =>
      rw [List.append_cons, List.append_cons]
      exact hlast _ _ (ih (htail _ _ _ Ending.noConfusion hr))
  | case7 state current houtside b' rest hb' hne ih =>
      rw [List.append_cons]
      exact hlast _ _ (ih (htail _ _ _ Ending.noConfusion hr))
  | case8 state current b rest houtside hlf hcr ih =>
      rw [List.append_cons]
      exact ih hr

/-- At most one record has no end. -/
theorem countP_unended_recordsFrom (state : q.State) (current text : List UInt8) :
    (recordsFrom q state current text).countP (·.ending = .none) ≤ 1 := by
  fun_induction recordsFrom q state current text with
  | case1 state => simp
  | case2 state current hcurrent => simp
  | case3 state current b rest hinside ih => exact ih
  | case4 state current rest houtside ih => simpa using ih
  | case5 state current houtside hne => simp
  | case6 state current houtside rest hne ih => simpa using ih
  | case7 state current houtside b' rest hb' hne ih => simpa using ih
  | case8 state current b rest houtside hlf hcr ih => exact ih

end SimulationKey.Kit.Csv
