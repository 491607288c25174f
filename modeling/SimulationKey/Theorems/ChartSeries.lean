import SimulationKey.Api.ChartReader

/-!
# The chart's series

`read_iterations` over any text of a time-series document, from the values up:
what it has recorded of an iteration depends on which of its members it has
read, not on their order (`read`), so a text of the members leads from no member
to all of them.
-/

namespace SimulationKey.Theorems.ChartSeries

open Kit Kit.Json Kit.Text PyFloat

variable {F : Type} [PyFloat F]

/-! ## What is stored -/

/-- A float as `json.loads` reads it. A number without a fraction or an exponent
is an `int`, and must have a float. -/
def IsSample (floatOf : List Char → F) : Json → Prop
  | .nonFinite _ => True
  | .num lexeme => isIntLexeme lexeme = true → isFinite (floatOf lexeme) = true
  | _ => False

/-- An iteration of a document whose series have `T` values. -/
structure StoredIteration (floatOf : List Char → F) (T : Nat) where
  number : List Char
  series : IterationSeries → List Json
  consumers : List (List (List Nat × Json))
  number_numeral : IsNumeral number
  number_int : isIntLexeme number = true
  length_series : ∀ x, (series x).length = T
  samples : ∀ x, ∀ v ∈ series x, IsSample floatOf v

variable {floatOf : List Char → F} {T : Nat}

def StoredIteration.members (it : StoredIteration floatOf T) : List (List Nat × Json) :=
  (points "number", .num it.number) ::
    (IterationSeries.all.map fun x => (points x.name, .arr (it.series x))) ++
    [(points "consumers", .arr (it.consumers.map .obj))]

/-- The members in any order. -/
def IsStored (it : StoredIteration floatOf T) (v : Json) : Prop :=
  ∃ ms, v = .obj ms ∧ ms.Perm it.members

def IsDocument (its : List (StoredIteration floatOf T)) (text : List Char) : Prop :=
  ∃ vs, List.Forall₂ IsStored its vs ∧ Document (.obj [(points "iterations", .arr vs)]) text

/-! ## What is to be read -/

/-- `value if math.isfinite(value) else None`. -/
def sample (floatOf : List Char → F) : Json → Option F
  | .num lexeme => if isFinite (floatOf lexeme) then some (floatOf lexeme) else none
  | _ => none

/-- The `int` of a number without a fraction or an exponent. -/
def intValue : List Char → Int
  | '-' :: digits => -(Nat.ofDigitChars 10 digits 0 : Int)
  | digits => Nat.ofDigitChars 10 digits 0

def StoredIteration.sampled (it : StoredIteration floatOf T) (stride : Nat)
    (x : IterationSeries) : List (Option F) :=
  (everyNth stride (it.series x)).map (sample floatOf)

def StoredIteration.chart (it : StoredIteration floatOf T) (stride : Nat) :
    IterationTimeseries F :=
  { number := intValue it.number
    consumption := it.sampled stride .consumption
    energyAllocated := it.sampled stride .energyAllocated
    energyAllocatedConsumed := it.sampled stride .energyAllocatedConsumed
    residualVolume := it.sampled stride .residualVolume
    surplus := it.sampled stride .surplus
    sharingRate := it.sampled stride .sharingRate
    selfSufficiencyRate := it.sampled stride .selfSufficiencyRate
    consumers := [] }

/-! ## Sampling -/

theorem mem_everyNth {α : Type} {stride : Nat} {xs : List α} {x : α}
    (h : x ∈ everyNth stride xs) : x ∈ xs := by
  obtain ⟨i, -, hi⟩ := List.mem_filterMap.mp h
  exact List.mem_of_getElem? hi

/-- A computation without errors on a list. -/
theorem mapM_ok {α β ε : Type} {f : α → Except ε β} {g : α → β} {l : List α}
    (h : ∀ a ∈ l, f a = .ok (g a)) : l.mapM f = .ok (l.map g) := by
  induction l with
  | nil => rfl
  | cons a l ih =>
      rw [List.mapM_cons, h a (by simp), ih fun b hb => h b (by simp [hb])]
      rfl

theorem sampleValue_ok {v : Json} (h : IsSample floatOf v) :
    sampleValue floatOf v = .ok (sample floatOf v) := by
  cases v with
  | nonFinite c => rfl
  | num lexeme =>
      rw [sampleValue, sample]
      by_cases hfinite : isFinite (floatOf lexeme) = true
      · rw [if_pos hfinite, if_pos hfinite]
      · have hint : ¬ isIntLexeme lexeme = true := fun hint => hfinite (h hint)
        rw [if_neg hfinite, if_neg hfinite, if_neg hint]
  | null | bool | str | arr | obj => exact absurd h id

theorem sampled_ok (it : StoredIteration floatOf T) (stride : Nat) (x : IterationSeries) :
    (everyNth stride (it.series x)).mapM (sampleValue floatOf) = .ok (it.sampled stride x) :=
  mapM_ok fun v hv => sampleValue_ok (it.samples x v (mem_everyNth hv))

/-! ## The texts of the values -/

/-- Neither a quote nor a brace. -/
def Bare (text : List Char) : Prop := Plain text ∧ Braceless text

instance (text : List Char) : Decidable (Bare text) := inferInstanceAs (Decidable (_ ∧ _))

theorem Bare.append {t t' : List Char} (h : Bare t) (h' : Bare t') : Bare (t ++ t') :=
  ⟨h.1.append h'.1, h.2.append h'.2⟩

theorem bare_blank {w : List Char} (h : Blank w) : Bare w := ⟨plain_blank h, braceless_blank h⟩

theorem bare_cons {c : Char} {t : List Char} (hc : Bare [c]) (h : Bare t) : Bare (c :: t) :=
  Bare.append (t := [c]) hc h

theorem bare_sample {v : Json} (hv : IsSample floatOf v) {text : List Char}
    (h : Writes (.value v) text) : Bare text := by
  cases h with
  | num h => exact ⟨plain_numeral h, braceless_numeral h⟩
  | nonFinite c => exact ⟨plain_nonFinite c, braceless_nonFinite c⟩
  | null | true | false | str | arr | obj => exact absurd hv id

theorem bare_samples {vs : List Json} (hvs : ∀ v ∈ vs, IsSample floatOf v) {text : List Char}
    (h : Writes (.elements vs) text) : Bare text := by
  induction vs generalizing text with
  | nil =>
      cases h with
      | noElement blank => exact bare_blank blank
  | cons v vs ih =>
      have hv := hvs v (by simp)
      cases h with
      | lastElement blank h blank' =>
          exact (bare_blank blank).append ((bare_sample hv h).append (bare_blank blank'))
      | nextElement blank h blank' more =>
          have hmore := ih (fun v hv => hvs v (by simp [hv])) more
          exact (bare_blank blank).append ((bare_sample hv h).append
            ((bare_blank blank').append (bare_cons (by decide) hmore)))

theorem bare_series {vs : List Json} (hvs : ∀ v ∈ vs, IsSample floatOf v) {text : List Char}
    (h : Writes (.value (.arr vs)) text) : Bare text := by
  cases h with
  | arr h => exact bare_cons (by decide) ((bare_samples hvs h).append (by decide))

/-! ## Between two values -/

/-- The members of an iteration that have been read, `seen` being their names. -/
def StoredIteration.read (it : StoredIteration floatOf T) (stride : Nat)
    (seen : List (List Nat)) : Members F :=
  { number := if points "number" ∈ seen then some (.num it.number) else none
    series := fun x => if points x.name ∈ seen then some (it.sampled stride x) else none }

def hasSeries (members : Members F) : Bool :=
  IterationSeries.all.any fun x => (members.series x).isSome

/-- Ending the member being read, the reader is at `depth` and has read
`iterations`. The first series has set the stride. -/
def Stands (floatOf : List Char → F) (maxPoints stride : Nat) (depth : Int)
    (iterations : List (Members F)) (r₀ : IterationReader F) : Prop :=
  ∃ r, Settles floatOf r₀ r ∧ r.maxPoints = maxPoints ∧ r.depth = depth ∧
    r.iterations = iterations ∧
    r.stride = if iterations.any hasSeries then some stride else none

/-- The text leads a reader from one standing to another. -/
def Leads (floatOf : List Char → F) (maxPoints stride : Nat) (text : List Char)
    (depth : Int) (iterations : List (Members F)) (depth' : Int)
    (iterations' : List (Members F)) : Prop :=
  ∀ r, Stands floatOf maxPoints stride depth iterations r →
    ∃ r', feed floatOf r text = .ok r' ∧ Stands floatOf maxPoints stride depth' iterations' r'

variable {maxPoints stride : Nat}

theorem Leads.append {t t' : List Char} {d d' d'' : Int} {its its' its'' : List (Members F)}
    (hclosed : Closed t) (h : Leads floatOf maxPoints stride t d its d' its')
    (h' : Leads floatOf maxPoints stride t' d' its' d'' its'') :
    Leads floatOf maxPoints stride (t ++ t') d its d'' its'' := by
  intro r hr
  obtain ⟨r₁, hfeed, hr₁⟩ := h r hr
  obtain ⟨r₂, hfeed', hr₂⟩ := h' r₁ hr₁
  refine ⟨r₂, ?_, hr₂⟩
  rw [feed_append hclosed, hfeed]
  exact hfeed'

/-- A text that neither goes on a value nor opens one. -/
theorem leads_bare {t : List Char} (hbare : Bare t) (hstops : StopsAt goesOn t) (d : Int)
    (its : List (Members F)) : Leads floatOf maxPoints stride t d its d its := by
  rintro r₀ ⟨r, hsettles, hr⟩
  obtain ⟨r₁, hfeed, hsettles₁⟩ := hsettles.feed hbare.1 hstops
  rw [run_quiet hbare.2 hsettles.member] at hsettles₁
  exact ⟨r₁, hfeed, r, hsettles₁, hr⟩

theorem leads_blank {w : List Char} (h : Blank w) (d : Int) (its : List (Members F)) :
    Leads floatOf maxPoints stride w d its d its :=
  leads_bare (bare_blank h) (stops_blank h) d its

theorem stops_char {c : Char} (h : goesOn c = false) (t : List Char) : StopsAt goesOn (c :: t) := by
  intro c' hc'
  obtain rfl := Option.some.inj hc'
  exact h

theorem leads_char {c : Char} (hbare : Bare [c]) (hstops : goesOn c = false) (d : Int)
    (its : List (Members F)) : Leads floatOf maxPoints stride [c] d its d its :=
  leads_bare hbare (stops_char hstops []) d its

omit [PyFloat F] in
theorem hasSeries_empty : hasSeries (Members.empty : Members F) = false := rfl

theorem leads_open {d : Int} {its its' : List (Members F)}
    (h : its' = if d + 1 = 2 then its ++ [Members.empty] else its) :
    Leads floatOf maxPoints stride ['{'] d its (d + 1) its' := by
  rintro r₀ ⟨r, hsettles, hpoints, hdepth, hits, hstride⟩
  obtain ⟨r₁, hfeed, hsettles₁⟩ := hsettles.feed (t := ['{']) (by decide) (stops_char rfl [])
  refine ⟨r₁, hfeed, _, hsettles₁, ?_⟩
  rw [run_open hsettles.member]
  refine ⟨hpoints, by rw [hdepth], by rw [hdepth, hits, h], ?_⟩
  have hany : its'.any hasSeries = its.any hasSeries := by
    rw [h]
    split_ifs
    · rw [List.any_append, List.any_cons, hasSeries_empty]
      simp
    · rfl
  rw [hany]
  exact hstride

theorem leads_close {d : Int} {its : List (Members F)} :
    Leads floatOf maxPoints stride ['}'] d its (d - 1) its := by
  rintro r₀ ⟨r, hsettles, hpoints, hdepth, hits, hstride⟩
  obtain ⟨r₁, hfeed, hsettles₁⟩ := hsettles.feed (t := ['}']) (by decide) (stops_char rfl [])
  refine ⟨r₁, hfeed, _, hsettles₁, ?_⟩
  rw [run_close hsettles.member]
  exact ⟨hpoints, by rw [hdepth], hits, hstride⟩

/-- A key of the document is no key of an iteration. -/
theorem leads_string {s : List Nat} {token : List Char} (h : WritesString s token) {d : Int}
    (hd : d ≠ 2) (its : List (Members F)) : Leads floatOf maxPoints stride token d its d its := by
  rintro r₀ ⟨r, hsettles, hpoints, hdepth, hr⟩
  have hquiet : r.atString s = r := by
    have hnot : ¬ (r.depth = 2 ∧ r.iterations ≠ []) := by
      rw [hdepth]
      exact fun h => hd h.1
    rw [IterationReader.atString, if_neg hnot]
  refine ⟨r, ?_, r, .self hsettles.member hsettles.value, hpoints, hdepth, hr⟩
  rw [feed_string h hsettles.endMember, hquiet]

/-! ## Members -/

/-- A key of an iteration and its value, which ends in whatever goes on. -/
theorem leads_value {k : List Nat} {key w₁ w₂ text : List Char} {m : Member}
    {done : List (Members F)} {current : Members F} {f : Members F → Members F}
    (name : WritesString k key) (hname : Member.named k = some m)
    (htext : Bare (valueText w₁ w₂ text))
    (hend : ∀ (r : IterationReader F) (t : List Char), StopsAt goesOn t → r.member = some m →
      r.value = encode (valueText w₁ w₂ text ++ t) → r.maxPoints = maxPoints →
      r.stride = (if (done ++ [current]).any hasSeries then some stride else none) →
      r.endMember floatOf =
        .ok { r with
          member := none, value := []
          stride := if (done ++ [f current]).any hasSeries then some stride else none
          iterations := r.iterations.modify r.target f }) :
    Leads floatOf maxPoints stride (key ++ valueText w₁ w₂ text) 2 (done ++ [current]) 2
      (done ++ [f current]) := by
  rintro r₀ ⟨r, hsettles, hpoints, hdepth, hits, hstride⟩
  have hkey : r.atString k = { r with member := some m, target := done.length } := by
    have hin : r.depth = 2 ∧ r.iterations ≠ [] := ⟨hdepth, by rw [hits]; simp⟩
    have htarget : r.iterations.length - 1 = done.length := by rw [hits]; simp
    simp only [IterationReader.atString, if_pos hin, hname, htarget]
  have hfeed : feed floatOf r₀ (key ++ valueText w₁ w₂ text) =
      .ok ({ r with member := some m, target := done.length }.run
        (encode (valueText w₁ w₂ text))) := by
    rw [feed_append (closed_string name), feed_string name hsettles.endMember, hkey]
    exact feed_plain htext.1 _
  refine ⟨_, hfeed, _, settles_value hsettles.member hsettles.value hits htext.2
    (fun r₁ t ht hmember hvalue hpoints' hstride' => ?_), hpoints, hdepth, rfl, rfl⟩
  exact hend r₁ t ht hmember hvalue (hpoints'.trans hpoints) (hstride'.trans hstride)

theorem bare_valueText {w₁ w₂ text : List Char} (blank₁ : Blank w₁) (blank₂ : Blank w₂)
    (h : Bare text) : Bare (valueText w₁ w₂ text) :=
  (bare_blank blank₁).append (bare_cons (by decide) ((bare_blank blank₂).append h))

theorem named_number : Member.named (points "number") = some .number := by decide

theorem named_series (x : IterationSeries) :
    Member.named (points x.name) = some (.series x) := by
  cases x <;> decide

theorem named_consumers : Member.named (points "consumers") = none := by decide

/-- The names of the members are different. -/
theorem name_ne (x : IterationSeries) :
    points x.name ≠ points "number" ∧ points x.name ≠ points "consumers" := by
  cases x <;> decide

theorem name_inj {x y : IterationSeries} (h : points x.name = points y.name) : x = y := by
  have hx := named_series x
  rw [h, named_series] at hx
  cases hx
  rfl

theorem read_number (it : StoredIteration floatOf T) (seen : List (List Nat)) :
    it.read stride (seen ++ [points "number"]) =
      { it.read stride seen with number := some (.num it.number) } := by
  simp [StoredIteration.read, name_ne]

theorem read_series (it : StoredIteration floatOf T) (seen : List (List Nat))
    (x : IterationSeries) :
    it.read stride (seen ++ [points x.name]) =
      { it.read stride seen with
        series := Function.update (it.read stride seen).series x (some (it.sampled stride x)) } := by
  have hnumber : points "number" ≠ points x.name := (name_ne x).1.symm
  have hseries : ∀ y, (it.read stride (seen ++ [points x.name])).series y =
      Function.update (it.read stride seen).series x (some (it.sampled stride x)) y := by
    intro y
    by_cases hy : y = x
    · subst hy
      simp [StoredIteration.read]
    · have hne : points y.name ≠ points x.name := fun h => hy (name_inj h)
      simp [StoredIteration.read, Function.update_of_ne hy, hne]
  rw [← funext hseries]
  simp [StoredIteration.read, hnumber]

theorem read_consumers (it : StoredIteration floatOf T) (seen : List (List Nat)) :
    it.read stride (seen ++ [points "consumers"]) = it.read stride seen := by
  have hnumber : points "number" ≠ points "consumers" := by decide
  simp [StoredIteration.read, name_ne, hnumber]

theorem leads_number (it : StoredIteration floatOf T) (done : List (Members F))
    (seen : List (List Nat)) {key w₁ w₂ text : List Char}
    (name : WritesString (points "number") key) (blank₁ : Blank w₁) (blank₂ : Blank w₂)
    (h : Writes (.value (.num it.number)) text) :
    Leads floatOf maxPoints stride (key ++ valueText w₁ w₂ text) 2
      (done ++ [it.read stride seen]) 2
      (done ++ [it.read stride (seen ++ [points "number"])]) := by
  have hbare : Bare text := by
    cases h with
    | num h => exact ⟨plain_numeral h, braceless_numeral h⟩
  rw [read_number]
  refine leads_value (f := fun ms => { ms with number := some (.num it.number) }) name
    named_number (bare_valueText blank₁ blank₂ hbare) ?_
  intro r t ht hmember hvalue _ hstride
  have hany : (done ++ [{ it.read stride seen with number := some (.num it.number) }]).any
      hasSeries = (done ++ [it.read stride seen]).any hasSeries := by
    simp only [List.any_append, List.any_cons, List.any_nil]
    rfl
  rw [endMember_number blank₁ blank₂ h ht hmember hvalue, hany, ← hstride]

theorem leads_series (hT : stride = strideOf T maxPoints) (hpoints : 1 ≤ maxPoints)
    (it : StoredIteration floatOf T) (done : List (Members F)) (seen : List (List Nat))
    (x : IterationSeries) {key w₁ w₂ text : List Char} (name : WritesString (points x.name) key)
    (blank₁ : Blank w₁) (blank₂ : Blank w₂) (h : Writes (.value (.arr (it.series x))) text) :
    Leads floatOf maxPoints stride (key ++ valueText w₁ w₂ text) 2
      (done ++ [it.read stride seen]) 2 (done ++ [it.read stride (seen ++ [points x.name])]) := by
  rw [read_series]
  refine leads_value (f := fun ms =>
      { ms with series := Function.update ms.series x (some (it.sampled stride x)) }) name
    (named_series x) (bare_valueText blank₁ blank₂ (bare_series (it.samples x) h)) ?_
  intro r t ht hmember hvalue hmax hstride
  have hsome : hasSeries { it.read stride seen with
      series := Function.update (it.read stride seen).series x (some (it.sampled stride x)) } =
      true := by
    refine List.any_eq_true.mpr ⟨x, IterationSeries.mem_all x, ?_⟩
    simp
  have hany : (done ++ [{ it.read stride seen with
      series := Function.update (it.read stride seen).series x (some (it.sampled stride x)) }]).any
      hasSeries = true := by
    rw [List.any_append, List.any_cons, hsome]
    simp
  -- the first series of the document sets the stride, and all have as many values
  have hsame : r.stride.getD (strideOf (it.series x).length r.maxPoints) = stride := by
    rw [hstride, it.length_series, hmax, ← hT]
    split_ifs <;> rfl
  rw [endMember_series blank₁ blank₂ h ht hmember hvalue (by omega) hsame (sampled_ok it stride x),
    hany, if_pos rfl]

theorem leads_consumers (it : StoredIteration floatOf T) (done : List (Members F))
    (seen : List (List Nat)) {key w₁ w₂ text : List Char}
    (name : WritesString (points "consumers") key) (blank₁ : Blank w₁) (blank₂ : Blank w₂)
    (h : Writes (.value (.arr (it.consumers.map .obj))) text) :
    Leads floatOf maxPoints stride (key ++ valueText w₁ w₂ text) 2
      (done ++ [it.read stride seen]) 2
      (done ++ [it.read stride (seen ++ [points "consumers"])]) := by
  rw [read_consumers]
  rintro r₀ ⟨r, hsettles, hpoints, hdepth, hits, hstride⟩
  have hmember := hsettles.member
  have hkey : r.atString (points "consumers") = r := by
    rw [IterationReader.atString, named_consumers]
    exact ite_self r
  have hvalue : Skips floatOf r (valueText w₁ w₂ text) := by
    cases h with
    | arr h =>
        have hobjects : Skips floatOf r _ :=
          skips_objects h (by simp) hmember hdepth
        have hopen : Skips floatOf r ['['] := skips_plain hmember (by decide) (by decide)
        have hclose : Skips floatOf r [']'] := skips_plain hmember (by decide) (by decide)
        have hcolon : Skips floatOf r [':'] := skips_plain hmember (by decide) (by decide)
        refine (skips_blank hmember blank₁).append (closed_plain (plain_blank blank₁)) ?_
        refine hcolon.append (closed_plain (by decide)) ?_
        refine (skips_blank hmember blank₂).append (closed_plain (plain_blank blank₂)) ?_
        refine hopen.append (closed_plain (by decide)) ?_
        exact hobjects.append (closed_of_writes h) hclose
  refine ⟨r, ?_, r, .self hmember hsettles.value, hpoints, hdepth, hits, hstride⟩
  rw [feed_append (closed_string name), feed_string name hsettles.endMember, hkey]
  exact hvalue

theorem leads_member (hT : stride = strideOf T maxPoints) (hpoints : 1 ≤ maxPoints)
    (it : StoredIteration floatOf T) (done : List (Members F)) (seen : List (List Nat))
    {k : List Nat} {v : Json} (hmem : (k, v) ∈ it.members) {key w₁ w₂ text : List Char}
    (name : WritesString k key) (blank₁ : Blank w₁) (blank₂ : Blank w₂)
    (h : Writes (.value v) text) :
    Leads floatOf maxPoints stride (key ++ valueText w₁ w₂ text) 2
      (done ++ [it.read stride seen]) 2 (done ++ [it.read stride (seen ++ [k])]) := by
  simp only [StoredIteration.members, List.cons_append, List.mem_cons, List.mem_append,
    List.mem_map, List.not_mem_nil, or_false] at hmem
  rcases hmem with hmem | ⟨x, -, hmem⟩ | hmem
  · cases hmem
    exact leads_number it done seen name blank₁ blank₂ h
  · cases hmem
    exact leads_series hT hpoints it done seen x name blank₁ blank₂ h
  · cases hmem
    exact leads_consumers it done seen name blank₁ blank₂ h

theorem closed_member {k : List Nat} {v : Json} {key w₁ w₂ text : List Char}
    (name : WritesString k key) (blank₁ : Blank w₁) (blank₂ : Blank w₂)
    (h : Writes (.value v) text) : Closed (key ++ valueText w₁ w₂ text) := by
  have hcolon : Closed [':'] := closed_plain (by decide)
  exact (closed_string name).append ((closed_plain (plain_blank blank₁)).append
    (hcolon.append ((closed_plain (plain_blank blank₂)).append (closed_of_writes h))))

/-- The members add up, whatever their order. -/
theorem leads_members (hT : stride = strideOf T maxPoints) (hpoints : 1 ≤ maxPoints)
    (it : StoredIteration floatOf T) (done : List (Members F)) {ms : List (List Nat × Json)}
    (hms : ∀ p ∈ ms, p ∈ it.members) (seen : List (List Nat)) {text : List Char}
    (h : Writes (.members ms) text) :
    Leads floatOf maxPoints stride text 2 (done ++ [it.read stride seen]) 2
      (done ++ [it.read stride (seen ++ ms.map Prod.fst)]) := by
  induction ms generalizing seen text with
  | nil =>
      cases h with
      | noMember blank =>
          rw [List.map_nil, List.append_nil]
          exact leads_blank blank 2 _
  | cons m ms ih =>
      obtain ⟨k, v⟩ := m
      have hmem := hms (k, v) (by simp)
      cases h with
      | @lastMember _ _ w key w₁ w₂ value w' blank name blank₁ blank₂ hv blank' =>
          have htext : w ++ (key ++ (w₁ ++ ':' :: (w₂ ++ (value ++ w')))) =
              w ++ ((key ++ valueText w₁ w₂ value) ++ w') := by simp [valueText]
          rw [htext]
          exact (leads_blank blank 2 _).append (closed_plain (plain_blank blank))
            ((leads_member hT hpoints it done seen hmem name blank₁ blank₂ hv).append
              (closed_member name blank₁ blank₂ hv)
              (leads_blank blank' 2 _))
      | @nextMember _ _ m' ms' w key w₁ w₂ value w' texts blank name blank₁ blank₂ hv blank' more =>
          have htext : w ++ (key ++ (w₁ ++ ':' :: (w₂ ++ (value ++ (w' ++ ',' :: texts))))) =
              w ++ ((key ++ valueText w₁ w₂ value) ++ (w' ++ ([','] ++ texts))) := by
            simp [valueText]
          have hmore := ih (fun p hp => hms p (by simp [hp])) (seen ++ [k]) more
          have hseen : seen ++ ((k, v) :: m' :: ms').map Prod.fst =
              seen ++ [k] ++ (m' :: ms').map Prod.fst := by simp
          rw [htext, hseen]
          exact (leads_blank blank 2 _).append (closed_plain (plain_blank blank))
            ((leads_member hT hpoints it done seen hmem name blank₁ blank₂ hv).append
              (closed_member name blank₁ blank₂ hv)
              ((leads_blank blank' 2 _).append (closed_plain (plain_blank blank'))
                ((leads_char (by decide) rfl 2 _).append (closed_plain (by decide)) hmore)))

/-! ## Iterations -/

/-- An iteration with all its members read. -/
def StoredIteration.all (it : StoredIteration floatOf T) (stride : Nat) : Members F :=
  { number := some (.num it.number), series := fun x => some (it.sampled stride x) }

theorem read_none (it : StoredIteration floatOf T) : it.read stride [] = Members.empty := rfl

theorem read_all (it : StoredIteration floatOf T) {ms : List (List Nat × Json)}
    (hms : ms.Perm it.members) : it.read stride (ms.map Prod.fst) = it.all stride := by
  have hseen : ∀ k, k ∈ it.members.map Prod.fst → k ∈ ms.map Prod.fst := fun k hk =>
    (hms.map Prod.fst).mem_iff.mpr hk
  have hnumber := hseen (points "number") (by simp [StoredIteration.members])
  have hseries : ∀ x : IterationSeries, points x.name ∈ ms.map Prod.fst := by
    intro x
    refine hseen _ (List.mem_map.mpr ⟨(points x.name, .arr (it.series x)), ?_, rfl⟩)
    simp only [StoredIteration.members, List.cons_append, List.mem_cons, List.mem_append,
      List.mem_map]
    exact Or.inr (Or.inl ⟨x, IterationSeries.mem_all x, rfl⟩)
  simp only [StoredIteration.read, StoredIteration.all, hnumber, hseries, if_true]

theorem leads_iteration (hT : stride = strideOf T maxPoints) (hpoints : 1 ≤ maxPoints)
    (it : StoredIteration floatOf T) (done : List (Members F)) {v : Json} (hv : IsStored it v)
    {text : List Char} (h : Writes (.value v) text) :
    Leads floatOf maxPoints stride text 1 done 1 (done ++ [it.all stride]) := by
  obtain ⟨ms, rfl, hms⟩ := hv
  cases h with
  | @obj _ text h =>
      have hmembers := leads_members hT hpoints it done (fun p hp => hms.mem_iff.mp hp) [] h
      rw [List.nil_append, read_none, read_all it hms] at hmembers
      exact (leads_open rfl).append (closed_plain (by decide))
        (hmembers.append (closed_of_writes h) leads_close)

theorem leads_iterations (hT : stride = strideOf T maxPoints) (hpoints : 1 ≤ maxPoints)
    {its : List (StoredIteration floatOf T)} {vs : List Json} (hvs : List.Forall₂ IsStored its vs)
    (done : List (Members F)) {text : List Char} (h : Writes (.elements vs) text) :
    Leads floatOf maxPoints stride text 1 done 1
      (done ++ its.map fun it => it.all stride) := by
  induction hvs generalizing done text with
  | nil =>
      cases h with
      | noElement blank =>
          rw [List.map_nil, List.append_nil]
          exact leads_blank blank 1 _
  | @cons it v its vs hv hvs ih =>
      cases h with
      | lastElement blank h blank' =>
          cases hvs
          exact (leads_blank blank 1 _).append (closed_plain (plain_blank blank))
            ((leads_iteration hT hpoints it done hv h).append (closed_of_writes h)
              (leads_blank blank' 1 _))
      | @nextElement _ _ _ w value w' texts blank h blank' more =>
          have hmore := ih (done ++ [it.all stride]) more
          rw [List.append_assoc, List.singleton_append] at hmore
          exact (leads_blank blank 1 _).append (closed_plain (plain_blank blank))
            ((leads_iteration hT hpoints it done hv h).append (closed_of_writes h)
              ((leads_blank blank' 1 _).append (closed_plain (plain_blank blank'))
                (Leads.append (t := [',']) (closed_plain (by decide))
                  (leads_char (by decide) rfl 1 _) hmore)))

theorem leads_document (hT : stride = strideOf T maxPoints) (hpoints : 1 ≤ maxPoints)
    {its : List (StoredIteration floatOf T)} {text : List Char} (h : IsDocument its text) :
    Leads floatOf maxPoints stride text 0 [] 0 (its.map fun it => it.all stride) := by
  obtain ⟨vs, hvs, hdocument⟩ := h
  cases hdocument with
  | mk blank h blank' =>
      refine (leads_blank blank 0 _).append (closed_plain (plain_blank blank)) ?_
      refine Leads.append (closed_of_writes h) ?_ (leads_blank blank' 0 _)
      cases h with
      | obj h =>
          cases h with
          | @lastMember _ _ w key w₁ w₂ value w' blank name blank₁ blank₂ hv blank' =>
              cases hv with
              | @arr _ text hv =>
                  have hits := leads_iterations hT hpoints hvs [] hv
                  rw [List.nil_append] at hits
                  have htext : '{' :: (w ++ (key ++ (w₁ ++ ':' :: (w₂ ++
                      ('[' :: (text ++ [']']) ++ w')))) ++ ['}']) =
                      ['{'] ++ (w ++ (key ++ (w₁ ++ ([':'] ++ (w₂ ++ (['['] ++ (text ++ ([']'] ++
                        (w' ++ ['}'])))))))))  := by simp
                  rw [htext]
                  refine Leads.append (closed_plain (by decide)) (leads_open (d := 0) rfl) ?_
                  refine (leads_blank blank 1 _).append (closed_plain (plain_blank blank)) ?_
                  refine (leads_string name (by decide) _).append (closed_string name) ?_
                  refine (leads_blank blank₁ 1 _).append (closed_plain (plain_blank blank₁)) ?_
                  refine (leads_char (by decide) rfl 1 _).append (closed_plain (by decide)) ?_
                  refine (leads_blank blank₂ 1 _).append (closed_plain (plain_blank blank₂)) ?_
                  refine (leads_char (by decide) rfl 1 _).append (closed_plain (by decide)) ?_
                  refine hits.append (closed_of_writes hv) ?_
                  refine (leads_char (by decide) rfl 1 _).append (closed_plain (by decide)) ?_
                  refine (leads_blank blank' 1 _).append (closed_plain (plain_blank blank')) ?_
                  exact leads_close (d := 1)

/-! ## The stride -/

theorem mul_lt_of_lt_div {i stride length : Nat} (h : i < (length + stride - 1) / stride) :
    i * stride < length := by
  have hle := Nat.mul_le_of_le_div stride (i + 1) (length + stride - 1) h
  rcases Nat.eq_zero_or_pos stride with rfl | hstride
  · simp at h
  · rw [Nat.add_mul, Nat.one_mul] at hle
    omega

theorem length_everyNth {α : Type} (stride : Nat) (xs : List α) :
    (everyNth stride xs).length = (xs.length + stride - 1) / stride := by
  have hfilter : ∀ n, n ≤ (xs.length + stride - 1) / stride →
      ((List.range n).filterMap fun i => xs[i * stride]?).length = n := by
    intro n hn
    induction n with
    | zero => rfl
    | succ n ih =>
        have hlt : n * stride < xs.length := mul_lt_of_lt_div hn
        rw [List.range_succ, List.filterMap_append, List.length_append, ih (by omega)]
        simp [hlt]
  exact hfilter _ le_rfl

/-- A stride leaves few enough values if as many strides span the series. -/
theorem length_everyNth_le {α : Type} {stride : Nat} (hstride : 1 ≤ stride) (xs : List α)
    (n : Nat) : (everyNth stride xs).length ≤ n ↔ xs.length ≤ stride * n := by
  rw [length_everyNth, Nat.div_le_iff_le_mul_add_pred (by omega)]
  omega

theorem one_le_strideOf (length maxPoints : Nat) : 1 ≤ strideOf length maxPoints := by
  have hle : (1 : Int) ≤ max 1 ⌈trueDiv length maxPoints⌉ := le_max_left _ _
  unfold strideOf
  omega

/-- Up to the integers a double holds, the float division does no harm. -/
theorem strideOf_isLeast {T maxPoints : Nat} (hpoints : 1 ≤ maxPoints) (hT : T ≤ 2 ^ 53) :
    IsLeast {s | 1 ≤ s ∧ (everyNth s (List.range T)).length ≤ maxPoints}
      (strideOf T maxPoints) := by
  have hspan : ∀ s : Nat, T ≤ s * maxPoints ↔ ⌈trueDiv T maxPoints⌉ ≤ s := by
    intro s
    have hpos : (0 : ℚ) < maxPoints := by exact_mod_cast hpoints
    rw [ceil_trueDiv (by omega) hT, Int.ceil_le, div_le_iff₀ hpos]
    exact_mod_cast Iff.rfl
  constructor
  · refine ⟨one_le_strideOf T maxPoints, ?_⟩
    rw [length_everyNth_le (one_le_strideOf T maxPoints), List.length_range, hspan]
    have hle : ⌈trueDiv T maxPoints⌉ ≤ max 1 ⌈trueDiv T maxPoints⌉ := le_max_right _ _
    unfold strideOf
    omega
  · rintro s ⟨hs, hlength⟩
    rw [length_everyNth_le hs, List.length_range, hspan] at hlength
    have hmax : max 1 ⌈trueDiv T maxPoints⌉ ≤ s := max_le (by omega) hlength
    unfold strideOf
    omega

/-! ## The answer -/

theorem validate_all {intOf : Json → Option Int}
    (hint : ∀ lexeme, IsNumeral lexeme → isIntLexeme lexeme = true →
      intOf (.num lexeme) = some (intValue lexeme)) (it : StoredIteration floatOf T) :
    Members.validate intOf (it.all stride) = .ok (it.chart stride) := by
  have hnumber := hint it.number it.number_numeral it.number_int
  simp only [Members.validate, StoredIteration.all, Option.bind_some, hnumber]
  rfl

/-- The reader over the chunks is the reader over their text. -/
theorem readIterations_eq {intOf : Json → Option Int} {text : List Char} (hclosed : Closed text)
    {chunks : List (List UInt8)} (hchunks : chunks.flatten = encode text)
    {r : IterationReader F} (hfeed : feed floatOf (.start maxPoints) text = .ok r) :
    readIterations floatOf intOf chunks maxPoints = r.finish floatOf intOf := by
  obtain ⟨hpieces, hscan⟩ := pieces_bytewise .outside chunks
  rw [hchunks] at hpieces hscan
  rw [readIterations]
  generalize pieces .outside chunks = found at hpieces hscan
  obtain ⟨ps, scan⟩ := found
  have hread : ps.foldlM (fun r p => IterationReader.piece floatOf r p) (.start maxPoints) =
      .ok r := by
    rw [← hfeed, feed, ← hpieces, foldlM_bytewise]
  obtain rfl : scan = .outside := hscan.trans hclosed
  simp only [hread]
  rfl

/-- Whatever the layout and the chunks. -/
theorem readIterations_stored {intOf : Json → Option Int}
    (hint : ∀ lexeme, IsNumeral lexeme → isIntLexeme lexeme = true →
      intOf (.num lexeme) = some (intValue lexeme)) (hpoints : 1 ≤ maxPoints)
    {its : List (StoredIteration floatOf T)} {text : List Char} (hdocument : IsDocument its text)
    {chunks : List (List UInt8)} (hchunks : chunks.flatten = encode text) :
    ∃ s, readIterations floatOf intOf chunks maxPoints =
        .ok (its.map fun it => it.chart s, s) ∧
      (its = [] → s = 1) ∧ (its ≠ [] → s = strideOf T maxPoints) := by
  have hclosed : Closed text := by
    obtain ⟨vs, -, h⟩ := hdocument
    exact closed_of_document h
  have hstart : Stands floatOf maxPoints (strideOf T maxPoints) 0 []
      (.start maxPoints : IterationReader F) :=
    ⟨_, .self rfl rfl, rfl, rfl, rfl, rfl⟩
  obtain ⟨r₀, hread, r, hsettles, -, -, hits, hstride⟩ :=
    leads_document rfl hpoints hdocument _ hstart
  have hvalid : (its.map fun it => it.all (strideOf T maxPoints)).mapM
      (Members.validate intOf) = .ok (its.map fun it => it.chart (strideOf T maxPoints)) := by
    rw [List.mapM_map]
    exact mapM_ok fun it _ => validate_all hint it
  have hanswer : readIterations floatOf intOf chunks maxPoints =
      .ok (its.map fun it => it.chart (strideOf T maxPoints), r.stride.getD 1) := by
    rw [readIterations_eq hclosed hchunks hread, IterationReader.finish, hsettles.endMember]
    show (r.iterations.mapM (Members.validate intOf) >>= _) = _
    rw [hits, hvalid]
    rfl
  cases its with
  | nil =>
      refine ⟨1, ?_, fun _ => rfl, fun h => absurd rfl h⟩
      rw [hanswer, hstride]
      rfl
  | cons it its =>
      refine ⟨strideOf T maxPoints, ?_, fun h => absurd h (by simp), fun _ => rfl⟩
      have hany : ((it :: its).map fun it => it.all (strideOf T maxPoints)).any hasSeries =
          true := by
        have hseries : hasSeries (it.all (strideOf T maxPoints)) = true := rfl
        rw [List.map_cons, List.any_cons, hseries, Bool.true_or]
      rw [hanswer, hstride, hany, if_pos rfl, Option.getD_some]

/-- The chart of a document is what is stored of its iterations, at a stride that
is the least to leave few enough values where the float quotient is exact
enough. -/
theorem chart_series_exact {intOf : Json → Option Int}
    (hint : ∀ lexeme, IsNumeral lexeme → isIntLexeme lexeme = true →
      intOf (.num lexeme) = some (intValue lexeme)) (hpoints : 1 ≤ maxPoints)
    {its : List (StoredIteration floatOf T)} {text : List Char} (hdocument : IsDocument its text)
    {chunks : List (List UInt8)} (hchunks : chunks.flatten = encode text) :
    ∃ s, readIterations floatOf intOf chunks maxPoints =
        .ok (its.map fun it => it.chart s, s) ∧
      (its = [] ∨ T = 0 → s = 1) ∧
      (its ≠ [] → s = strideOf T maxPoints ∧
        (T ≤ 2 ^ 53 →
          IsLeast {s | 1 ≤ s ∧ (everyNth s (List.range T)).length ≤ maxPoints} s)) := by
  obtain ⟨s, hread, hnone, hsome⟩ := readIterations_stored hint hpoints hdocument hchunks
  refine ⟨s, hread, ?_, fun hits => ⟨hsome hits, fun hT => ?_⟩⟩
  · intro h
    by_cases hits : its = []
    · exact hnone hits
    · obtain rfl := h.resolve_left hits
      have hleast := strideOf_isLeast (T := 0) hpoints (by omega)
      rw [hsome hits]
      exact le_antisymm (hleast.2 ⟨le_rfl, by simp [length_everyNth]⟩) hleast.1.1
  · rw [hsome hits]
    exact strideOf_isLeast hpoints hT

/-! ## Documents with one iteration -/

/-- `float` of the only number in the documents below. -/
def half (_ : List Char) : ℚ := 1 / 2

def intOfNumber : Json → Option Int
  | .num lexeme => if isIntLexeme lexeme then some (intValue lexeme) else none
  | _ => none

def halfLexeme : List Char := "0.5".toList

/-- A consumer that has the name and the members of an iteration. -/
def adversary : List (List Nat × Json) :=
  [(points "number", .str (points "\x7b\"consumption\": [NaN]\x7d")),
    (points "consumption", .arr [.null])]

theorem isNumeral_half : IsNumeral halfLexeme :=
  @IsNumeral.mk [] ['0'] ['.', '5'] [] (Or.inl rfl) .zero
    (.some (by decide) fun c hc => by
      obtain rfl := List.mem_singleton.mp hc
      decide) .none

/-- The first iteration of a key with `n` timesteps and no consumption. -/
def halves (n : Nat) : StoredIteration half n where
  number := ['1']
  series x := List.replicate n (if x = .consumption then .nonFinite .nan else .num halfLexeme)
  consumers := [adversary]
  number_numeral :=
    @IsNumeral.mk [] ['1'] [] [] (Or.inl rfl)
      (@IsInt.more '1' [] (by decide) (by decide) fun c hc => by cases hc) .none .none
  number_int := by decide
  length_series x := List.length_replicate
  samples x v hv := by
    obtain rfl := List.eq_of_mem_replicate hv
    by_cases hx : x = .consumption
    · rw [if_pos hx]
      exact trivial
    · rw [if_neg hx]
      exact fun _ => rfl

def halvesText (n : Nat) : List Char :=
  dumps (.obj [(points "iterations", .arr [.obj (halves n).members])])

theorem legalAll_replicate {v : Json} (h : v.Legal) (n : Nat) : LegalAll (List.replicate n v) := by
  induction n with
  | zero => trivial
  | succ n ih => exact ⟨h, ih⟩

theorem document_halves (n : Nat) : IsDocument [halves n] (halvesText n) := by
  have hseries : ∀ x, (Json.arr ((halves n).series x)).Legal := by
    intro x
    refine legalAll_replicate ?_ n
    by_cases hx : x = .consumption
    · rw [if_pos hx]
      exact trivial
    · rw [if_neg hx]
      exact isNumeral_half
  have hconsumers : (Json.arr ((halves n).consumers.map .obj)).Legal :=
    ⟨⟨scalars_points _, scalars_points _, scalars_points _, ⟨trivial, trivial⟩, trivial⟩, trivial⟩
  have hmembers : LegalMembers (halves n).members :=
    ⟨scalars_points _, (halves n).number_numeral, scalars_points _, hseries _, scalars_points _,
      hseries _, scalars_points _, hseries _, scalars_points _, hseries _, scalars_points _,
      hseries _, scalars_points _, hseries _, scalars_points _, hseries _, scalars_points _,
      hconsumers, trivial⟩
  refine ⟨[.obj (halves n).members], .cons ⟨_, rfl, .refl _⟩ .nil, ?_⟩
  have htext := Document.mk blank_nil (writes_dumps (.obj [(points "iterations",
    .arr [.obj (halves n).members])]) ⟨scalars_points _, ⟨hmembers, trivial⟩, trivial⟩) blank_nil
  rw [List.nil_append, List.append_nil] at htext
  exact htext

theorem intOfNumber_int (lexeme : List Char) (_ : IsNumeral lexeme)
    (h : isIntLexeme lexeme = true) : intOfNumber (.num lexeme) = some (intValue lexeme) := by
  rw [intOfNumber, if_pos h]

/-- Three timesteps, two of them charted, from chunks of one byte. -/
theorem chart_series_exact_halves :
    ∃ s, readIterations half intOfNumber ((encode (halvesText 3)).map fun b => [b]) 2 =
        .ok ([halves 3].map fun it => it.chart s, s) ∧
      ([halves 3] = [] ∨ 3 = 0 → s = 1) ∧
      ([halves 3] ≠ [] → s = strideOf 3 2 ∧
        (3 ≤ 2 ^ 53 → IsLeast {s | 1 ≤ s ∧ (everyNth s (List.range 3)).length ≤ 2} s)) :=
  chart_series_exact intOfNumber_int (by omega) (document_halves 3) (List.flatMap_singleton' _)

/-- With more timesteps than a double counts, one value is wanted and two are
left. -/
theorem chart_stride_not_least :
    IsDocument [halves (2 ^ 53 + 1)] (halvesText (2 ^ 53 + 1)) ∧
      ∃ s, readIterations half intOfNumber [encode (halvesText (2 ^ 53 + 1))] 1 =
          .ok ([(halves (2 ^ 53 + 1)).chart s], s) ∧
        ¬ (everyNth s (List.range (2 ^ 53 + 1))).length ≤ 1 := by
  have hchunks : [encode (halvesText (2 ^ 53 + 1))].flatten = encode (halvesText (2 ^ 53 + 1)) :=
    List.flatten_singleton
  obtain ⟨s, hread, -, hs⟩ := readIterations_stored intOfNumber_int le_rfl
    (document_halves (2 ^ 53 + 1)) hchunks
  have hstride : s = 2 ^ 53 := by
    have hquot : trueDiv (2 ^ 53 + 1) 1 = 2 ^ 53 := by decide +kernel
    rw [hs (by simp), strideOf, hquot]
    norm_num
    rfl
  subst hstride
  refine ⟨document_halves _, _, hread, ?_⟩
  rw [length_everyNth_le (by norm_num), List.length_range]
  norm_num

end SimulationKey.Theorems.ChartSeries
