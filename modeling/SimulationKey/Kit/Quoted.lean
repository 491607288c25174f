import Mathlib.Algebra.Ring.Parity
import Mathlib.Data.List.DropRight

/-!
# Quoted strings in a text

A string starts at a quote outside every string and ends at the next quote that
no odd run of escapes precedes inside it.

* **positions** — `Outside` says that a position is outside every string, `Token`
  that a string stands between two positions, `Unclosed` that one starts and does
  not end;
* **reading on** — `Open` is where a reader stands inside a string; one symbol
  further, `open_of_outside`, `Open.next` and `Open.close` say where it stands, and
  `Spans` which strings it has passed.
-/

namespace SimulationKey.Kit.Quoted

/-- What opens and closes a string, and what escapes a symbol inside one. -/
structure Marks (α : Type) where
  quote : α
  escape : α
  ne : quote ≠ escape

variable {α : Type} [DecidableEq α] (m : Marks α)

/-- The run of escapes that a text ends with is odd. -/
def Escaping (body : List α) : Prop := Odd (body.rtakeWhile (· = m.escape)).length

instance (body : List α) : Decidable (Escaping m body) := inferInstanceAs (Decidable (Odd _))

variable {m} in
theorem not_escaping_nil : ¬ Escaping m ([] : List α) := by
  simp [Escaping]

variable {m} in
theorem escaping_append {body : List α} {b : α} :
    Escaping m (body ++ [b]) ↔ b = m.escape ∧ ¬ Escaping m body := by
  unfold Escaping
  by_cases hb : b = m.escape
  · rw [List.rtakeWhile_concat_pos _ _ _ (by simpa using hb)]
    simp [hb, Nat.odd_add_one]
  · rw [List.rtakeWhile_concat_neg _ _ _ (by simpa using hb)]
    simp [hb]

/-- The text from one position to another. -/
def between (doc : List α) (i j : Nat) : List α := (doc.take j).drop i

omit [DecidableEq α] in
@[simp] theorem between_self (doc : List α) (i : Nat) : between doc i i = [] := by
  simp [between]

omit [DecidableEq α] in
theorem between_succ {doc : List α} {i j : Nat} {b : α} (hij : i ≤ j) (hb : doc[j]? = some b) :
    between doc i (j + 1) = between doc i j ++ [b] := by
  have hj : j < doc.length := (List.getElem?_eq_some_iff.mp hb).1
  unfold between
  rw [List.take_add_one, hb, Option.toList_some, List.drop_append_of_le_length]
  rw [List.length_take]
  omega

omit [DecidableEq α] in
theorem take_append_between {i j : Nat} (doc : List α) (hij : i ≤ j) :
    doc.take i ++ between doc i j = doc.take j := by
  have htake : doc.take i = (doc.take j).take i := by rw [List.take_take, Nat.min_eq_left hij]
  rw [htake, between, List.take_append_drop]

/-! ## Positions -/

variable (doc : List α)

/-- The string that starts at `i` ends at `j`. -/
structure Closes (i j : Nat) : Prop where
  after : i < j
  quote : doc[j]? = some m.quote
  free : ¬ Escaping m (between doc (i + 1) j)
  first : ∀ k, i < k → k < j → doc[k]? = some m.quote → Escaping m (between doc (i + 1) k)

/-- The position is outside every string. -/
inductive Outside : Nat → Prop where
  | start : Outside 0
  | next {i : Nat} {b : α} (h : Outside i) (here : doc[i]? = some b) (hb : b ≠ m.quote) :
      Outside (i + 1)
  | closed {i j : Nat} (h : Outside i) (opens : doc[i]? = some m.quote) (closes : Closes m doc i j) :
      Outside (j + 1)

/-- A string starts at `i` and ends at `j`. -/
structure Token (i j : Nat) : Prop where
  outside : Outside m doc i
  opens : doc[i]? = some m.quote
  closes : Closes m doc i j

/-- A string starts at `i` and does not end. -/
structure Unclosed (i : Nat) : Prop where
  outside : Outside m doc i
  opens : doc[i]? = some m.quote
  endless : ∀ j, ¬ Closes m doc i j

variable {m doc} {i j k n : Nat}

theorem Closes.unique (h : Closes m doc i j) (h' : Closes m doc i k) : j = k := by
  rcases Nat.lt_trichotomy j k with hlt | heq | hlt
  · exact absurd (h'.first j h.after hlt h.quote) h.free
  · exact heq
  · exact absurd (h.first k h'.after hlt h'.quote) h'.free

/-- No position inside a string is outside. -/
theorem Outside.past (hk : Outside m doc k) (hi : Outside m doc i)
    (hopens : doc[i]? = some m.quote) : k ≤ i ∨ ∃ j, Closes m doc i j ∧ j < k := by
  induction k using Nat.strong_induction_on generalizing i with
  | _ k ih =>
      by_cases hki : k ≤ i
      · exact .inl hki
      · right
        cases hk with
        | start => omega
        | @next k' b hk' here hb =>
            rcases ih k' (by omega) hk' hi hopens with hle | ⟨j, hj, hlt⟩
            · obtain rfl : k' = i := by omega
              rw [hopens, Option.some.injEq] at here
              exact absurd here.symm hb
            · exact ⟨j, hj, by omega⟩
        | @closed i' j' hi' hopens' hcloses' =>
            have hj' := hcloses'.after
            rcases ih i' (by omega) hi' hi hopens with hle | ⟨j, hj, hlt⟩
            · by_cases heq : i' = i
              · subst heq
                exact ⟨j', hcloses', by omega⟩
              · -- the position `i` is itself outside the string of `i'`
                rcases ih i (by omega) hi hi' hopens' with hle' | ⟨j, hj, hlt⟩
                · omega
                · have := hcloses'.unique hj
                  omega
            · exact ⟨j, hj, by omega⟩

theorem Token.start_unique (h : Token m doc i j) (h' : Token m doc k j) : i = k := by
  rcases Nat.lt_trichotomy i k with hlt | heq | hlt
  · rcases h'.outside.past h.outside h.opens with hle | ⟨j', hj', hlt'⟩
    · omega
    · have := h.closes.unique hj'
      have := h'.closes.after
      omega
  · exact heq
  · rcases h.outside.past h'.outside h'.opens with hle | ⟨j', hj', hlt'⟩
    · omega
    · have := h'.closes.unique hj'
      have := h.closes.after
      omega

/-! ## Reading on -/

/-- Before position `n`, inside the string that starts at `i`. -/
structure Open (m : Marks α) (doc : List α) (i n : Nat) : Prop where
  outside : Outside m doc i
  opens : doc[i]? = some m.quote
  before : i < n
  first : ∀ k, i < k → k < n → doc[k]? = some m.quote → Escaping m (between doc (i + 1) k)

theorem Open.not_closes (h : Open m doc i n) (hj : j < n) : ¬ Closes m doc i j := fun hcloses =>
  hcloses.free (h.first j hcloses.after hj hcloses.quote)

theorem open_of_outside (h : Outside m doc n) (hopens : doc[n]? = some m.quote) :
    Open m doc n (n + 1) :=
  ⟨h, hopens, Nat.lt_succ_self n, fun _ _ _ _ => by omega⟩

theorem Open.next (h : Open m doc i n)
    (hnext : doc[n]? = some m.quote → Escaping m (between doc (i + 1) n)) :
    Open m doc i (n + 1) := by
  have hbefore := h.before
  refine ⟨h.outside, h.opens, by omega, fun k hik hkn hk => ?_⟩
  by_cases heq : k = n
  · subst heq
    exact hnext hk
  · exact h.first k hik (by omega) hk

theorem Open.close (h : Open m doc i n) (hquote : doc[n]? = some m.quote)
    (hfree : ¬ Escaping m (between doc (i + 1) n)) : Token m doc i n :=
  ⟨h.outside, h.opens, h.before, hquote, hfree, h.first⟩

/-- A string that ends where the reader stands is the one it stands in. -/
theorem Open.start_eq (h : Open m doc i n) (htoken : Token m doc k n) : k = i := by
  rcases Nat.lt_trichotomy k i with hlt | heq | hlt
  · rcases h.outside.past htoken.outside htoken.opens with hle | ⟨j, hj, hlt'⟩
    · omega
    · have := htoken.closes.unique hj
      have := h.before
      omega
  · exact heq
  · rcases htoken.outside.past h.outside h.opens with hle | ⟨j, hj, hlt'⟩
    · omega
    · have := htoken.closes.after
      exact absurd hj (h.not_closes (by omega))

/-- No string ends at a position that is outside. -/
theorem Outside.not_token (h : Outside m doc n) : ¬ Token m doc i n := by
  intro htoken
  have hafter := htoken.closes.after
  rcases h.past htoken.outside htoken.opens with hle | ⟨j, hj, hlt⟩
  · omega
  · have := htoken.closes.unique hj
    omega

/-- The strings that end before a position, in order. -/
structure Spans (m : Marks α) (doc : List α) (n : Nat) (spans : List (Nat × Nat)) : Prop where
  sorted : spans.Pairwise fun a b => a.2 < b.1
  mem : ∀ i j, (i, j) ∈ spans ↔ Token m doc i j ∧ j < n

variable {spans : List (Nat × Nat)}

theorem spans_nil : Spans m doc 0 [] :=
  ⟨List.Pairwise.nil, fun i j => by simp⟩

/-- Where no string ends, the strings passed stay the same. -/
theorem Spans.next (h : Spans m doc n spans) (hnone : ∀ i, ¬ Token m doc i n) :
    Spans m doc (n + 1) spans := by
  refine ⟨h.sorted, fun i j => ?_⟩
  rw [h.mem]
  constructor
  · rintro ⟨htoken, hlt⟩
    exact ⟨htoken, by omega⟩
  · rintro ⟨htoken, hlt⟩
    refine ⟨htoken, ?_⟩
    by_contra hn
    obtain rfl : j = n := by omega
    exact hnone i htoken

/-- The string that ends here is the last one passed. -/
theorem Spans.close (h : Spans m doc n spans) (htoken : Token m doc i n) :
    Spans m doc (n + 1) (spans ++ [(i, n)]) := by
  refine ⟨?_, fun i' j => ?_⟩
  · rw [List.pairwise_append]
    refine ⟨h.sorted, List.pairwise_singleton _ _, fun a ha b hb => ?_⟩
    obtain rfl := List.mem_singleton.mp hb
    obtain ⟨hearlier, hlt⟩ := (h.mem a.1 a.2).mp ha
    -- two strings do not overlap
    by_contra hle
    have hafter := hearlier.closes.after
    rcases htoken.outside.past hearlier.outside hearlier.opens with hbefore | ⟨j', hj', hlt'⟩
    · by_cases heq : i = a.1
      · subst heq
        have := hearlier.closes.unique htoken.closes
        omega
      · rcases hearlier.outside.past htoken.outside htoken.opens with hbefore' | ⟨j', hj', hlt'⟩
        · omega
        · have := htoken.closes.unique hj'
          omega
    · have := hearlier.closes.unique hj'
      exact hle (by show a.2 < i; omega)
  · rw [List.mem_append, h.mem, List.mem_singleton, Prod.mk.injEq]
    constructor
    · rintro (⟨htoken', hlt⟩ | ⟨rfl, rfl⟩)
      · exact ⟨htoken', by omega⟩
      · exact ⟨htoken, by omega⟩
    · rintro ⟨htoken', hlt⟩
      by_cases hj : j < n
      · exact .inl ⟨htoken', hj⟩
      · obtain rfl : j = n := by omega
        exact .inr ⟨htoken'.start_unique htoken, rfl⟩

/-! ## The end of the text -/

theorem Token.lt_length (h : Token m doc i j) : j < doc.length :=
  (List.getElem?_eq_some_iff.mp h.closes.quote).1

/-- At the end, every string has been passed. -/
theorem Spans.mem_all (h : Spans m doc doc.length spans) (i j : Nat) :
    (i, j) ∈ spans ↔ Token m doc i j :=
  (h.mem i j).trans ⟨And.left, fun htoken => ⟨htoken, htoken.lt_length⟩⟩

theorem Outside.not_unclosed (h : Outside m doc doc.length) : ¬ Unclosed m doc i := by
  intro hopen
  have hlt := (List.getElem?_eq_some_iff.mp hopen.opens).1
  rcases h.past hopen.outside hopen.opens with hle | ⟨j, hj, -⟩
  · omega
  · exact hopen.endless j hj

theorem Open.unclosed (h : Open m doc i doc.length) : Unclosed m doc i :=
  ⟨h.outside, h.opens, fun _ hcloses =>
    h.not_closes (List.getElem?_eq_some_iff.mp hcloses.quote).1 hcloses⟩

/-- At most one string is left open. -/
theorem Unclosed.unique (h : Unclosed m doc i) (h' : Unclosed m doc k) : i = k := by
  rcases h.outside.past h'.outside h'.opens with hle | ⟨j, hj, -⟩
  · rcases h'.outside.past h.outside h.opens with hle' | ⟨j, hj, -⟩
    · omega
    · exact absurd hj (h.endless j)
  · exact absurd hj (h'.endless j)

end SimulationKey.Kit.Quoted
