import Mathlib

/-!
# Pages of an ordered result

A query with an ORDER BY, an offset and a limit answers a slice of its rows in
some arrangement that the order allows. Ties leave the choice open, and each
query chooses anew.

* an element's place lies in the places its tied elements have together
  (`place_bounds`);
* where no group of tied rows goes over a page's end, the pages give every row
  once, whatever is chosen (`visited_perm`), and only there (`whole_of_nodup`).
-/

namespace SimulationKey.Kit.Paging

variable {α : Type} {le : α → α → Prop}

/-- A comparison that leaves ties. -/
structure TotalPreorder (le : α → α → Prop) : Prop where
  total : ∀ a b, le a b ∨ le b a
  trans : ∀ {a b c}, le a b → le b c → le a c

theorem TotalPreorder.refl (h : TotalPreorder le) (a : α) : le a a :=
  (h.total a a).elim id id

/-- The rows in an order that the comparison allows. -/
def Arranges (le : α → α → Prop) (rows l : List α) : Prop := l.Perm rows ∧ l.Pairwise le

/-- `OFFSET k * size LIMIT size`. -/
def pageOf (l : List α) (size k : Nat) : List α := (l.drop (k * size)).take size

theorem mem_pageOf {l : List α} {size k : Nat} {x : α} :
    x ∈ pageOf l size k ↔ ∃ i, l[i]? = some x ∧ k * size ≤ i ∧ i < k * size + size := by
  rw [pageOf, List.mem_iff_getElem?]
  constructor
  · rintro ⟨j, hj⟩
    rw [List.getElem?_take, List.getElem?_drop] at hj
    split_ifs at hj with hlt
    exact ⟨k * size + j, hj, Nat.le_add_right _ _, by omega⟩
  · rintro ⟨i, hi, hlow, hhigh⟩
    refine ⟨i - k * size, ?_⟩
    rw [List.getElem?_take, if_pos (by omega), List.getElem?_drop, Nat.add_sub_cancel' hlow]
    exact hi

theorem pageOf_sublist (l : List α) (size k : Nat) : (pageOf l size k).Sublist l :=
  (List.take_sublist _ _).trans (List.drop_sublist _ _)

/-- The page a slot is on. -/
theorem on_page_iff {size k i : Nat} (hsize : 0 < size) :
    (k * size ≤ i ∧ i < k * size + size) ↔ i / size = k := by
  rw [Nat.div_eq_iff hsize]
  constructor
  · rintro ⟨hlow, hhigh⟩
    exact ⟨hlow, by omega⟩
  · rintro ⟨hlow, hhigh⟩
    exact ⟨hlow, by omega⟩

/-! ## ORDER BY -/

/-- Comparisons in order of precedence; a later one decides the ties of the
earlier ones. -/
def orderBy : List (α → α → Bool) → α → α → Bool
  | [], _, _ => true
  | le :: rest, a, b => le a b && (!le b a || orderBy rest a b)

theorem orderBy_cons {le : α → α → Bool} {rest : List (α → α → Bool)} {a b : α} :
    orderBy (le :: rest) a b = true ↔ le a b = true ∧ (le b a = true → orderBy rest a b = true) := by
  rw [orderBy, Bool.and_eq_true, Bool.or_eq_true, Bool.not_eq_true', ← Bool.not_eq_true,
    imp_iff_not_or]

theorem TotalPreorder.orderBy {clauses : List (α → α → Bool)}
    (h : ∀ le ∈ clauses, TotalPreorder fun a b => le a b = true) :
    TotalPreorder fun a b => Paging.orderBy clauses a b = true := by
  induction clauses with
  | nil => exact ⟨fun _ _ => .inl rfl, fun _ _ => rfl⟩
  | cons le rest ih =>
      have hle := h le List.mem_cons_self
      have hrest := ih fun le' h' => h le' (List.mem_cons_of_mem _ h')
      constructor
      · intro a b
        simp only [orderBy_cons]
        by_cases hab : le a b = true
        · by_cases hba : le b a = true
          · rcases hrest.total a b with hr | hr
            · exact .inl ⟨hab, fun _ => hr⟩
            · exact .inr ⟨hba, fun _ => hr⟩
          · exact .inl ⟨hab, fun h => absurd h hba⟩
        · exact .inr ⟨(hle.total a b).resolve_left hab, fun h => absurd h hab⟩
      · intro a b c
        simp only [orderBy_cons]
        rintro ⟨hab, hab'⟩ ⟨hbc, hbc'⟩
        refine ⟨hle.trans hab hbc, fun hca => ?_⟩
        exact hrest.trans (hab' (hle.trans hbc hca)) (hbc' (hle.trans hca hab))

/-! ## Places -/

section Places

variable [DecidableRel le]

/-- How many rows come before an element in every arrangement. -/
def before (le : α → α → Prop) [DecidableRel le] (rows : List α) (a : α) : Nat :=
  rows.countP fun b => ¬ le a b

/-- How many rows come no later in some arrangement. -/
def upTo (le : α → α → Prop) [DecidableRel le] (rows : List α) (a : α) : Nat :=
  rows.countP fun b => le b a

/-- A property that passes to smaller elements holds of the first slots. -/
theorem slot_iff {l : List α} {P : α → Bool}
    (hdown : l.Pairwise fun a b => P b = true → P a = true) {i : Nat} {x : α}
    (hx : l[i]? = some x) : P x = true ↔ i < l.countP P := by
  induction l generalizing i with
  | nil => simp at hx
  | cons a l ih =>
      obtain ⟨hhead, htail⟩ := List.pairwise_cons.mp hdown
      by_cases ha : P a = true
      · rw [List.countP_cons_of_pos ha]
        cases i with
        | zero =>
            obtain rfl : a = x := by simpa using hx
            simp [ha]
        | succ i =>
            rw [ih htail (by simpa using hx)]
            omega
      · -- the first slot fails, so all do
        have hnone : l.countP P = 0 := by
          rw [List.countP_eq_zero]
          exact fun b hb hP => ha (hhead b hb hP)
        rw [List.countP_cons_of_neg ha, hnone]
        refine iff_of_false (fun hP => ?_) (Nat.not_lt_zero _)
        rcases List.mem_cons.mp (List.mem_of_getElem? hx) with rfl | hmem
        · exact ha hP
        · exact ha (hhead x hmem hP)

/-- An element's slot is one of those its group of ties has. -/
theorem place_bounds (hle : TotalPreorder le) {rows l : List α} (h : Arranges le rows l) {i : Nat}
    {x : α} (hx : l[i]? = some x) : before le rows x ≤ i ∧ i < upTo le rows x := by
  have hdown : ∀ P : α → Bool, (∀ a b, le a b → P b = true → P a = true) →
      (P x = true ↔ i < rows.countP P) := by
    intro P hP
    rw [← h.1.countP_eq]
    exact slot_iff (h.2.imp fun {a b} hab => hP a b hab) hx
  constructor
  · have hbefore := hdown (fun b => ¬ le x b) fun a b hab hb => by
      simp only [decide_not, Bool.not_eq_eq_eq_not, Bool.not_true, decide_eq_false_iff_not] at hb ⊢
      exact fun hxa => hb (hle.trans hxa hab)
    have hself : ¬ (decide (¬ le x x) = true) := by simp [hle.refl x]
    exact not_lt.mp fun hlt => hself (hbefore.mpr hlt)
  · have hupTo := hdown (fun b => le b x) fun a b hab hb => by
      simp only [decide_eq_true_eq] at hb ⊢
      exact hle.trans hab hb
    exact hupTo.mp (decide_eq_true (hle.refl x))

/-- No group of tied rows goes over the end of a page. -/
def Whole (le : α → α → Prop) [DecidableRel le] (rows : List α) (size : Nat) : Prop :=
  ∀ a ∈ rows, ∀ k, k * size ≤ before le rows a ∨ upTo le rows a ≤ k * size

/-- Then the page of an element does not depend on the arrangement. -/
theorem Whole.page_eq (hle : TotalPreorder le) {rows : List α} {size : Nat} (hsize : 0 < size)
    (hwhole : Whole le rows size) {l : List α} (h : Arranges le rows l) {i : Nat} {x : α}
    (hx : l[i]? = some x) : i / size = before le rows x / size := by
  obtain ⟨hlow, hhigh⟩ := place_bounds hle h hx
  have hmem : x ∈ rows := h.1.mem_iff.mp (List.mem_of_getElem? hx)
  have hpage := (on_page_iff (i := before le rows x) hsize).mpr rfl
  refine (on_page_iff hsize).mp ⟨hpage.1.trans hlow, ?_⟩
  rcases hwhole x hmem (before le rows x / size + 1) with hnext | hnext
  · rw [Nat.add_mul, Nat.one_mul] at hnext
    omega
  · rw [Nat.add_mul, Nat.one_mul] at hnext
    omega

/-- The pages up to the last row. -/
def pageCount (n size : Nat) : Nat := (n + size - 1) / size

theorem lt_pageCount_iff {n size k : Nat} (hsize : 0 < size) :
    k < pageCount n size ↔ k * size < n := by
  rw [pageCount, Nat.lt_iff_add_one_le, Nat.le_div_iff_mul_le hsize, Nat.add_mul, Nat.one_mul]
  omega

/-- What each page answers, whatever arrangement its query has found. -/
def visited (arrangement : Nat → List α) (n size : Nat) : List α :=
  (List.range (pageCount n size)).flatMap fun k => pageOf (arrangement k) size k

/-- Whole groups give each row on the page of its group. -/
theorem visited_perm (hle : TotalPreorder le) {rows : List α} (hnodup : rows.Nodup) {size : Nat}
    (hsize : 0 < size) (hwhole : Whole le rows size) {arrangement : Nat → List α}
    (h : ∀ k, Arranges le rows (arrangement k)) :
    (visited arrangement rows.length size).Perm rows := by
  have hnodups : ∀ k, (arrangement k).Nodup := fun k => (h k).1.nodup_iff.mpr hnodup
  have hon : ∀ k x, x ∈ pageOf (arrangement k) size k →
      x ∈ rows ∧ before le rows x / size = k := by
    intro k x hx
    obtain ⟨i, hi, hplace⟩ := mem_pageOf.mp hx
    rw [← hwhole.page_eq hle hsize (h k) hi]
    exact ⟨(h k).1.mem_iff.mp (List.mem_of_getElem? hi), (on_page_iff hsize).mp hplace⟩
  refine (List.perm_ext_iff_of_nodup ?_ hnodup).mpr fun x => ?_
  · rw [visited, List.nodup_flatMap]
    refine ⟨fun k _ => (pageOf_sublist _ _ _).nodup (hnodups k), ?_⟩
    refine List.nodup_range.imp fun {k k'} hne x hx hx' => hne ?_
    exact (hon k x hx).2.symm.trans (hon k' x hx').2
  · rw [visited, List.mem_flatMap]
    constructor
    · rintro ⟨k, -, hx⟩
      exact (hon k x hx).1
    · intro hx
      obtain ⟨i, hi⟩ := List.mem_iff_getElem?.mp
        ((h (before le rows x / size)).1.mem_iff.mpr hx)
      refine ⟨before le rows x / size, ?_, mem_pageOf.mpr ⟨i, hi, ?_⟩⟩
      · rw [List.mem_range, lt_pageCount_iff hsize]
        have hbefore := (place_bounds hle (h _) hi).1
        have hlength : i < rows.length := by
          rw [← (h (before le rows x / size)).1.length_eq]
          exact (List.getElem?_eq_some_iff.mp hi).1
        have hdiv := Nat.div_mul_le_self (before le rows x) size
        omega
      · exact (on_page_iff hsize).mpr (hwhole.page_eq hle hsize (h _) hi)

/-! ## A choice that repeats a row -/

/-- The rows around an element: those before it, those tied with it, the others. -/
theorem around_perm (le : α → α → Prop) [DecidableRel le] (x : α) (rest : List α) :
    (rest.filter (fun b => ¬ le x b) ++ ((rest.filter fun b => le x b).filter (fun b => le b x) ++
      (rest.filter fun b => le x b).filter fun b => ¬ le b x)).Perm rest := by
  have hsplit : ∀ (P : α → Prop) [DecidablePred P] (l : List α),
      (l.filter (fun b => P b) ++ l.filter fun b => ¬ P b).Perm l := by
    intro P _ l
    have hperm := List.filter_append_perm (fun b => decide (P b)) l
    have hsame : (fun b => !decide (P b)) = fun b => decide (¬ P b) := by
      funext b
      simp
    rwa [hsame] at hperm
  exact ((hsplit _ _).append_left _).trans (List.perm_append_comm.trans (hsplit _ _))

/-- Some arrangement has an element at any place of its group. -/
theorem exists_arrangement (hle : TotalPreorder le) {rows : List α} {x : α} (hx : x ∈ rows)
    {i : Nat} (hlow : before le rows x ≤ i) (hhigh : i < upTo le rows x) :
    ∃ l, Arranges le rows l ∧ l[i]? = some x := by
  have : Std.Total le := ⟨hle.total⟩
  have : IsTrans α le := ⟨fun _ _ _ => hle.trans⟩
  obtain ⟨front, back, rfl⟩ := List.append_of_mem hx
  have hrows : (front ++ x :: back).Perm (x :: (front ++ back)) := List.perm_middle
  have hperm := around_perm le x (front ++ back)
  have hless : ∀ b ∈ (front ++ back).filter (fun b => ¬ le x b), le b x ∧ ¬ le x b := by
    intro b hb
    have hnot : ¬ le x b := by simpa using (List.mem_filter.mp hb).2
    exact ⟨(hle.total b x).resolve_right hnot, hnot⟩
  have htied : ∀ b ∈ ((front ++ back).filter fun b => le x b).filter (fun b => le b x),
      le b x ∧ le x b := by
    intro b hb
    obtain ⟨hb, hbx⟩ := List.mem_filter.mp hb
    exact ⟨of_decide_eq_true hbx, of_decide_eq_true (List.mem_filter.mp hb).2⟩
  have hmore : ∀ b ∈ ((front ++ back).filter fun b => le x b).filter (fun b => ¬ le b x),
      le x b ∧ ¬ le b x := by
    intro b hb
    obtain ⟨hb, hbx⟩ := List.mem_filter.mp hb
    exact ⟨of_decide_eq_true (List.mem_filter.mp hb).2, of_decide_eq_true hbx⟩
  generalize hL : (front ++ back).filter (fun b => ¬ le x b) = L at hperm hless
  generalize hM : ((front ++ back).filter fun b => le x b).filter (fun b => le b x) = M
    at hperm htied
  generalize hG : ((front ++ back).filter fun b => le x b).filter (fun b => ¬ le b x) = G
    at hperm hmore
  have hbefore : before le (front ++ x :: back) x = L.length := by
    rw [before, hrows.countP_eq, List.countP_cons_of_neg (by simp [hle.refl x]), ← hL,
      List.countP_eq_length_filter]
  have hupTo : upTo le (front ++ x :: back) x = L.length + M.length + 1 := by
    rw [upTo, hrows.countP_eq, List.countP_cons_of_pos (by simp [hle.refl x]),
      ← hperm.countP_eq, List.countP_append, List.countP_append,
      List.countP_eq_length.mpr fun b hb => decide_eq_true (hless b hb).1,
      List.countP_eq_length.mpr fun b hb => decide_eq_true (htied b hb).1,
      List.countP_eq_zero.mpr fun b hb h => (hmore b hb).2 (of_decide_eq_true h)]
    omega
  rw [hbefore] at hlow
  rw [hupTo] at hhigh
  -- the group with the element at the place asked for
  have hgroup : (M.take (i - L.length) ++ x :: M.drop (i - L.length)).Perm (x :: M) := by
    refine List.perm_middle.trans ?_
    rw [List.take_append_drop]
  have hsame : ∀ b ∈ M.take (i - L.length) ++ x :: M.drop (i - L.length), le b x ∧ le x b := by
    intro b hb
    rcases List.mem_cons.mp (hgroup.mem_iff.mp hb) with rfl | hb
    · exact ⟨hle.refl b, hle.refl b⟩
    · exact htied b hb
  have hsorted := fun l : List α => List.perm_insertionSort le l
  refine ⟨L.insertionSort le ++ ((M.take (i - L.length) ++ x :: M.drop (i - L.length)) ++
    G.insertionSort le), ⟨?_, ?_⟩, ?_⟩
  · refine List.Perm.trans ?_ hrows.symm
    refine ((hsorted L).append (hgroup.append (hsorted G))).trans ?_
    exact List.perm_middle.trans (hperm.cons x)
  · rw [List.pairwise_append, List.pairwise_append]
    refine ⟨List.pairwise_insertionSort le L, ⟨?_, List.pairwise_insertionSort le G, ?_⟩, ?_⟩
    · exact List.pairwise_of_forall_mem_list fun a ha b hb =>
        hle.trans (hsame a ha).1 (hsame b hb).2
    · intro a ha b hb
      exact hle.trans (hsame a ha).1 (hmore b ((hsorted G).mem_iff.mp hb)).1
    · intro a ha b hb
      have hax := (hless a ((hsorted L).mem_iff.mp ha)).1
      rcases List.mem_append.mp hb with hb | hb
      · exact hle.trans hax (hsame b hb).2
      · exact hle.trans hax (hmore b ((hsorted G).mem_iff.mp hb)).1
  · have hlength : (L.insertionSort le).length = L.length := List.length_insertionSort _ _
    have htake : (M.take (i - L.length)).length = i - L.length :=
      List.length_take_of_le (by omega)
    rw [List.getElem?_append_right (by omega), hlength, List.append_assoc,
      List.getElem?_append_right (by omega), htake, Nat.sub_self]
    rfl

/-- Pages that never repeat a row, whatever is chosen among ties, keep the groups
whole. -/
theorem whole_of_nodup (hle : TotalPreorder le) {rows : List α} {size : Nat} (hsize : 0 < size)
    (hall : ∀ arrangement : Nat → List α, (∀ k, Arranges le rows (arrangement k)) →
      (visited arrangement rows.length size).Nodup) : Whole le rows size := by
  intro x hx k
  by_contra hcross
  rw [not_or, not_le, not_le] at hcross
  obtain ⟨hlow, hhigh⟩ := hcross
  have hplace : k * size < rows.length := hhigh.trans_le List.countP_le_length
  obtain ⟨k, rfl⟩ : ∃ j, k = j + 1 := by
    refine Nat.exists_eq_succ_of_ne_zero fun hzero => ?_
    rw [hzero, Nat.zero_mul] at hlow
    exact Nat.not_lt_zero _ hlow
  rw [Nat.add_mul, Nat.one_mul] at hlow hhigh hplace
  -- the element ends one page in one arrangement and begins the next in another
  obtain ⟨l, hl, hlast⟩ := exists_arrangement hle hx (i := k * size + size - 1) (by omega)
    (by omega)
  obtain ⟨l', hl', hfirst⟩ := exists_arrangement hle hx (i := k * size + size) hlow.le hhigh
  have hnodup := hall (fun j => if j ≤ k then l else l') fun j => by
    show Arranges le rows (if j ≤ k then l else l')
    split_ifs
    · exact hl
    · exact hl'
  have hends : x ∈ pageOf (if k ≤ k then l else l') size k := by
    rw [if_pos le_rfl]
    exact mem_pageOf.mpr ⟨k * size + size - 1, hlast, by omega, by omega⟩
  have hbegins : x ∈ pageOf (if k + 1 ≤ k then l else l') size (k + 1) := by
    rw [if_neg (by omega)]
    refine mem_pageOf.mpr ⟨k * size + size, hfirst, ?_, ?_⟩ <;> rw [Nat.add_mul] <;> omega
  have hrange : k ∈ List.range (pageCount rows.length size) ∧
      k + 1 ∈ List.range (pageCount rows.length size) := by
    rw [List.mem_range, List.mem_range, lt_pageCount_iff hsize, lt_pageCount_iff hsize,
      Nat.add_mul]
    omega
  obtain ⟨-, hdisjoint⟩ := List.nodup_flatMap.mp hnodup
  have : Std.Symm (Function.onFun List.Disjoint fun j =>
      pageOf (if j ≤ k then l else l') size j) := ⟨fun _ _ h => h.symm⟩
  exact hdisjoint.forall hrange.1 hrange.2 (by omega) hends hbegins

/-- Without ties every group is whole. -/
theorem whole_of_antisymm (hle : TotalPreorder le) {rows : List α} (hnodup : rows.Nodup)
    (hanti : ∀ a ∈ rows, ∀ b ∈ rows, le a b → le b a → a = b) (size : Nat) :
    Whole le rows size := by
  intro a ha k
  have hone : upTo le rows a ≤ before le rows a + 1 := by
    obtain ⟨front, back, rfl⟩ := List.append_of_mem ha
    have hrows : (front ++ a :: back).Perm (a :: (front ++ back)) := List.perm_middle
    have hnotMem : a ∉ front ++ back := (List.nodup_cons.mp (hrows.nodup_iff.mp hnodup)).1
    rw [upTo, before, hrows.countP_eq, hrows.countP_eq, List.countP_cons_of_pos (by
      simp [hle.refl a]), List.countP_cons_of_neg (by simp [hle.refl a])]
    refine Nat.succ_le_succ (List.countP_mono_left fun b hb hba => ?_)
    have hmem : b ∈ front ++ a :: back := hrows.mem_iff.mpr (List.mem_cons_of_mem _ hb)
    refine decide_eq_true fun hab => hnotMem ?_
    rw [hanti a ha b hmem hab (of_decide_eq_true hba)]
    exact hb
  omega

end Places

end SimulationKey.Kit.Paging
