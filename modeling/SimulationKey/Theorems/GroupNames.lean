import SimulationKey.Core.GatewayAuth

/-!
# Names of groups and roles

The gateway renders each organisation as one block, and the path in a block is free
text. A block is read back as it was rendered where its path does not itself contain
a blank directly before `roles:[` (`run_orgText`). No token ever carries a path that
does (`path_endsEarly`): such a block ends early, and the name says which roles it has.
-/

namespace SimulationKey.Theorems.GroupNames

open Kit Kit.Regex

/-! ## What the gateway sends -/

structure Org where
  orgId : String
  orgPath : String
  roles : List String
  deriving DecidableEq, Repr

def block (org : Org) : String :=
  "[orgId:" ++ org.orgId ++ " orgPath:" ++ org.orgPath ++ " roles:[" ++
    ",".intercalate org.roles ++ "]]"

/-- `x-user-orgs`. -/
def render (orgs : List Org) : String := ",map".intercalate (orgs.map block)

/-- The character stands in no role name. -/
def isRoleEnd (c : Char) : Bool := Text.isSpace c || c = ',' || c = '[' || c = ']'

structure WellFormedOrg (org : Org) : Prop where
  id_ne : org.orgId ≠ ""
  id_word : ∀ c ∈ org.orgId.toList, Text.isSpace c = false
  path_root : org.orgPath.toList.head? = some '/'
  path_line : ∀ c ∈ org.orgPath.toList, isNotNewline c = true
  path_end : ∀ c ∈ org.orgPath.toList.getLast?, Text.isSpace c = false
  role_name : ∀ r ∈ org.roles, ∀ c ∈ r.toList, isRoleEnd c = false

structure WellFormed (orgs : List Org) : Prop where
  each : ∀ org ∈ orgs, WellFormedOrg org
  distinct : (orgs.map (·.orgId)).Nodup

/-- The token is the organisation's. -/
structure Carries (token : OrgToken) (org : Org) : Prop where
  orgId : token.orgId = org.orgId
  orgPath : token.orgPath = org.orgPath
  role : IsHighest org.roles token.role

/-- The parser returns the organisations that list a known role, and the middleware
resolves what the gateway listed for the active one. -/
structure Right (orgs : List Org) : Prop where
  tokens : List.Forall₂ Carries (parseUserOrgs (render orgs)) (orgs.filter (Known ·.roles))
  resolved : ∀ community role, activeRole (some community) (some (render orgs)) = some role ↔
    ∃ org ∈ orgs, org.orgId = community ∧ ∃ highest, IsHighest org.roles highest ∧
      highest.value = role

/-- A blank stands directly before `roles:[`. -/
def endsEarly : List Char → Bool
  | [] => false
  | c :: path => Text.isSpace c && rolesMark.isPrefixOf path || endsEarly path

/-- The path ends its block early. -/
def EndsEarly (path : String) : Prop := endsEarly path.toList = true

instance (path : String) : Decidable (EndsEarly path) := inferInstanceAs (Decidable (_ = true))

theorem endsEarly_iff {path : List Char} : endsEarly path = true ↔
    ∃ u c v, path = u ++ c :: (rolesMark ++ v) ∧ Text.isSpace c = true := by
  induction path with
  | nil => simp [endsEarly]
  | cons c path ih =>
      rw [endsEarly, Bool.or_eq_true, Bool.and_eq_true, List.isPrefixOf_iff_prefix, ih]
      constructor
      · rintro (⟨hc, v, rfl⟩ | ⟨u, c', v, rfl, hc'⟩)
        · exact ⟨[], c, v, rfl, hc⟩
        · exact ⟨c :: u, c', v, rfl, hc'⟩
      · rintro ⟨u, c', v, heq, hc'⟩
        cases u with
        | nil =>
            obtain ⟨rfl, rfl⟩ := List.cons.inj heq
            exact .inl ⟨hc', v, rfl⟩
        | cons a u =>
            obtain ⟨rfl, rfl⟩ := List.cons.inj heq
            exact .inr ⟨u, c', v, rfl, hc'⟩

/-! ## One block -/

/-- The roles of a block as rendered. -/
def rolesText (org : Org) : List Char := [','].intercalate (org.roles.map String.toList)

/-- What of a block `_ORG_RE` matches. -/
def orgText (org : Org) : List Char :=
  orgIdMark ++ (org.orgId.toList ++ (' ' :: (orgPathMark ++ (org.orgPath.toList ++
    (' ' :: (rolesMark ++ (rolesText org ++ [']'])))))))

theorem block_toList (org : Org) : (block org).toList = '[' :: (orgText org ++ [']']) := by
  have hid : "[orgId:".toList = '[' :: orgIdMark := by decide
  have hpath : " orgPath:".toList = ' ' :: orgPathMark := by decide
  have hroles : " roles:[".toList = ' ' :: rolesMark := by decide
  have hcomma : ",".toList = [','] := by decide
  have hclose : "]]".toList = [']', ']'] := by decide
  simp only [block, orgText, rolesText, String.toList_append, String.toList_intercalate, hid, hpath,
    hroles, hcomma, hclose, List.append_assoc, List.cons_append, List.nil_append]

theorem isSpace_blank : Text.isSpace ' ' = true := by decide

/-- A text without blanks that starts before a blank ends before it. -/
theorem prefix_of_append {t t' x y : List Char} {c : Char} (hc : c ∉ t)
    (h : t ++ x = t' ++ c :: y) : t <+: t' := by
  rcases List.append_eq_append_iff.mp h with ⟨z, rfl, -⟩ | ⟨z, rfl, hz⟩
  · exact List.prefix_append t z
  · cases z with
    | nil => simp
    | cons a z =>
        obtain ⟨rfl, -⟩ := List.cons.inj hz
        exact absurd (List.mem_append_right _ (List.mem_cons_self ..)) hc

/-- Inside a path that does not end its block, no roles begin. -/
theorem run_rolesItems_eq_none {s y : List Char} (hne : s ≠ [])
    (hend : ∀ c ∈ s.getLast?, Text.isSpace c = false) (hfree : endsEarly s = false) :
    run rolesItems (s ++ ' ' :: y) = none := by
  by_contra hsome
  obtain ⟨found, hrun⟩ := Option.ne_none_iff_exists'.mp hsome
  obtain ⟨n, hfits, hmap, -⟩ := run_many_eq_some_iff.mp hrun
  obtain ⟨found', hroles, -⟩ := Option.map_eq_some_iff.mp hmap
  obtain ⟨x, hx, -⟩ := run_text_eq_some hroles
  have hblank : ∀ c ∈ (s ++ ' ' :: y).take n, Text.isSpace c = true := hfits.accepts
  have hpos : 1 ≤ n := hfits.1
  have hn : n < s.length := by
    by_contra hle
    -- the last character of the path would be a blank
    have hlast : s.getLast hne ∈ (s ++ ' ' :: y).take n := by
      rw [List.take_append, List.take_of_length_le (by omega)]
      exact List.mem_append_left _ (List.getLast_mem hne)
    have := hend _ (List.getLast?_eq_some_getLast hne)
    rw [hblank _ hlast] at this
    cases this
  rw [List.drop_append_of_le_length hn.le] at hx
  obtain ⟨v, hv⟩ := prefix_of_append (by decide) hx.symm
  -- the blanks before the roles are characters of the path
  obtain ⟨m, rfl⟩ : ∃ m, n = m + 1 := ⟨n - 1, by omega⟩
  have hm : m < s.length := by omega
  have hmem : s[m] ∈ (s ++ ' ' :: y).take (m + 1) := by
    rw [List.take_append_of_le_length hn.le, List.take_succ_eq_append_getElem hm]
    exact List.mem_append_right _ (List.mem_cons_self ..)
  have hsplit : s = s.take m ++ s[m] :: (rolesMark ++ v) := by
    rw [hv, ← List.drop_eq_getElem_cons hm, List.take_append_drop]
  have := endsEarly_iff.mpr ⟨_, _, _, hsplit, hblank _ hmem⟩
  rw [hfree] at this
  cases this

theorem endsEarly_append_right {u s : List Char} (h : endsEarly (u ++ s) = false) :
    endsEarly s = false := by
  induction u with
  | nil => exact h
  | cons c u ih =>
      rw [List.cons_append, endsEarly, Bool.or_eq_false_iff] at h
      exact ih h.2

theorem not_mem_rolesText {org : Org} (h : WellFormedOrg org) {c : Char} (hc : c ∈ rolesText org) :
    c = ',' ∨ isRoleEnd c = false := by
  have hmem : ∀ rs : List (List Char), (∀ r ∈ rs, ∀ c ∈ r, isRoleEnd c = false) →
      c ∈ [','].intercalate rs → c = ',' ∨ isRoleEnd c = false := by
    intro rs
    induction rs with
    | nil => exact fun _ h => absurd h List.not_mem_nil
    | cons r rs ih =>
        intro hrs hc
        cases rs with
        | nil => exact .inr (hrs r (List.mem_cons_self ..) c (by simpa using hc))
        | cons r' rs =>
            rw [List.intercalate_cons_cons, List.append_assoc] at hc
            rcases List.mem_append.mp hc with hc | hc
            · exact .inr (hrs r (List.mem_cons_self ..) c hc)
            · rcases List.mem_append.mp hc with hc | hc
              · exact .inl (List.mem_singleton.mp hc)
              · exact ih (fun r hr => hrs r (List.mem_cons_of_mem _ hr)) hc
  refine hmem _ (fun r hr => ?_) hc
  obtain ⟨r', hr', rfl⟩ := List.mem_map.mp hr
  exact h.role_name r' hr'

/-- A block is matched as it was rendered. -/
theorem run_orgText {org : Org} (h : WellFormedOrg org) (hfree : ¬ EndsEarly org.orgPath)
    (rest : List Char) : run orgRe.items (orgText org ++ rest) =
      some ([org.orgId.toList, org.orgPath.toList, rolesText org], rest) := by
  have hblank : ∀ c ∈ [' '], Text.isSpace c = true := by
    intro c hc
    rw [List.mem_singleton.mp hc]
    exact isSpace_blank
  have hbracket : ∀ c ∈ rolesText org, isNotBracket c = true := by
    intro c hc
    rcases not_mem_rolesText h hc with rfl | hend
    · decide
    · by_contra hclose
      obtain rfl : c = ']' := by simpa [isNotBracket] using hclose
      exact absurd hend (by decide)
  -- from the end of the pattern to its start
  have hclose : run [.text [']']] (']' :: rest) = some ([], rest) := run_text_append [']'] rest []
  have hgroup : run [.many rolesGroup, .text [']']] (rolesText org ++ ']' :: rest) =
      some ([rolesText org], rest) :=
    run_greedy rfl (Nat.zero_le _) hbracket (fun c hc => by cases hc; decide) hclose
  have hroles : run rolesItems ([' '] ++ (rolesMark ++ (rolesText org ++ ']' :: rest))) =
      some ([rolesText org], rest) := by
    refine run_greedy rfl le_rfl hblank (fun c hc => ?_) ((run_text_append ..).trans hgroup)
    cases hc
    decide
  have hpath : run pathItems (org.orgPath.toList ++
      ([' '] ++ (rolesMark ++ (rolesText org ++ ']' :: rest)))) =
      some ([org.orgPath.toList, rolesText org], rest) := by
    refine run_lazy rfl (Nat.zero_le _) h.path_line (fun m hm => ?_) hroles
    have hne : org.orgPath.toList.drop m ≠ [] := by
      rw [Ne, List.drop_eq_nil_iff]
      omega
    refine run_rolesItems_eq_none hne (fun c hc => h.path_end c ?_) ?_
    · rwa [List.getLast?_drop, if_neg (by omega)] at hc
    · have hall : endsEarly org.orgPath.toList = false := by simpa [EndsEarly] using hfree
      rw [← List.take_append_drop m org.orgPath.toList] at hall
      exact endsEarly_append_right hall
  have hmark : run (.many blanks :: .text orgPathMark :: pathItems) ([' '] ++ (orgPathMark ++
      (org.orgPath.toList ++ ([' '] ++ (rolesMark ++ (rolesText org ++ ']' :: rest)))))) =
      some ([org.orgPath.toList, rolesText org], rest) := by
    refine run_greedy rfl le_rfl hblank (fun c hc => ?_) ((run_text_append ..).trans hpath)
    cases hc
    decide
  have hid : 1 ≤ org.orgId.toList.length := by
    rw [Nat.one_le_iff_ne_zero, Ne, List.length_eq_zero_iff, String.toList_eq_nil_iff]
    exact h.id_ne
  have hwhole : run (.many idGroup :: .many blanks :: .text orgPathMark :: pathItems)
      (org.orgId.toList ++ ([' '] ++ (orgPathMark ++ (org.orgPath.toList ++ ([' '] ++ (rolesMark ++
        (rolesText org ++ ']' :: rest))))))) =
      some ([org.orgId.toList, org.orgPath.toList, rolesText org], rest) := by
    refine run_greedy rfl hid (fun c hc => ?_) (fun c hc => ?_) hmark
    · show (!Text.isSpace c) = true
      rw [h.id_word c hc]
      rfl
    · cases hc
      decide
  have htext : orgText org ++ rest = orgIdMark ++ (org.orgId.toList ++ ([' '] ++ (orgPathMark ++
      (org.orgPath.toList ++ ([' '] ++ (rolesMark ++ (rolesText org ++ ']' :: rest))))))) := by
    simp [orgText]
  rw [htext]
  exact (run_text_append ..).trans hwhole

/-! ## All blocks -/

theorem findAll_pass_mark {u : List Char} (hu : 'o' ∉ u) (s : List Char) :
    orgRe.findAll (u ++ s) = orgRe.findAll s :=
  findAll_pass (t := "rgId:".toList) rfl hu s

/-- Between blocks no match starts, so each block is read on its own. -/
theorem findAll_render {orgs : List Org} (h : ∀ org ∈ orgs, WellFormedOrg org)
    (hfree : ∀ org ∈ orgs, ¬ EndsEarly org.orgPath) :
    orgRe.findAll (render orgs).toList =
      orgs.map fun org => [org.orgId.toList, org.orgPath.toList, rolesText org] := by
  have hnil : orgRe.findAll [] = [] := by rw [Pattern.findAll]
  have hmap : ",map".toList = [',', 'm', 'a', 'p'] := by decide
  rw [render, String.toList_intercalate, hmap, List.map_map]
  induction orgs with
  | nil => exact hnil
  | cons org orgs ih =>
      have hblock := run_orgText (h org (List.mem_cons_self ..)) (hfree org (List.mem_cons_self ..))
      have hrest := ih (fun org' h' => h org' (List.mem_cons_of_mem _ h'))
        (fun org' h' => hfree org' (List.mem_cons_of_mem _ h'))
      have hfirst : ∀ s, orgRe.findAll ((block org).toList ++ s) =
          [org.orgId.toList, org.orgPath.toList, rolesText org] :: orgRe.findAll (']' :: s) := by
        intro s
        have htext : (block org).toList ++ s = ['['] ++ (orgText org ++ ']' :: s) := by
          simp [block_toList]
        rw [htext, findAll_pass_mark (by decide), findAll_match (hblock (']' :: s))]
      cases orgs with
      | nil =>
          have hlast := findAll_pass_mark (u := [']']) (by decide) []
          rw [List.map_singleton, List.intercalate_singleton, Function.comp_apply,
            ← List.append_nil (block org).toList, hfirst, List.map_singleton]
          exact congrArg _ (hlast.trans hnil)
      | cons org' orgs =>
          have hbetween := findAll_pass_mark (u := [']', ',', 'm', 'a', 'p']) (by decide)
            ([',', 'm', 'a', 'p'].intercalate ((org' :: orgs).map (String.toList ∘ block)))
          rw [List.map_cons, List.map_cons, List.intercalate_cons_cons, ← List.map_cons,
            Function.comp_apply, List.append_assoc, hfirst]
          refine congrArg _ (Eq.trans ?_ (hbetween.trans hrest))
          rfl

/-- The role strings of a block are read back, the empty ones aside. -/
theorem roleList_rolesText {org : Org} (h : WellFormedOrg org) :
    roleList (rolesText org) = org.roles.filter (· ≠ "") := by
  have hblank : ∀ c ∈ rolesText org, Text.isSpace c = false := by
    intro c hc
    rcases not_mem_rolesText h hc with rfl | hend
    · decide
    · simp only [isRoleEnd, Bool.or_eq_false_iff] at hend
      exact hend.1.1.1
  have hstrip : (Text.strip (String.ofList (rolesText org))).toList = rolesText org := by
    have hdrop : (rolesText org).dropWhile Text.isSpace = rolesText org := by
      rw [List.dropWhile_eq_self_iff]
      intro hpos
      simp [hblank _ (List.getElem_mem hpos)]
    have hrdrop : (rolesText org).rdropWhile Text.isSpace = rolesText org := by
      rw [List.rdropWhile_eq_self_iff]
      intro hne
      simp [hblank _ (List.getLast_mem hne)]
    rw [Text.strip, String.toList_ofList, String.toList_ofList, hdrop, hrdrop]
  have hwords : words isRoleSep ([','].intercalate (org.roles.map String.toList)) =
      (org.roles.map String.toList).filter (· ≠ []) := by
    refine words_intercalate (by decide) fun r hr c hc => ?_
    obtain ⟨r', hr', rfl⟩ := List.mem_map.mp hr
    have hend := h.role_name r' hr' c hc
    simp only [isRoleEnd, Bool.or_eq_false_iff] at hend
    simp [isRoleSep, hend]
  rw [roleList, hstrip, rolesText, hwords, List.filter_map, List.map_map]
  have hid : (String.ofList ∘ String.toList) = id := by
    funext r
    simp
  rw [hid, List.map_id]
  refine List.filter_congr fun r _ => ?_
  simp [String.toList_eq_nil_iff]

/-- An empty string is no role. -/
theorem isHighest_filter {roles : List String} {role : Role} :
    IsHighest (roles.filter (· ≠ "")) role ↔ IsHighest roles role := by
  have hmem : ∀ other : Role, other.value ∈ roles.filter (· ≠ "") ↔ other.value ∈ roles := by
    intro other
    rw [List.mem_filter]
    refine and_iff_left ?_
    cases other <;> decide
  constructor
  · intro h
    exact ⟨(hmem role).mp h.listed, fun other h' => h.top other ((hmem other).mpr h')⟩
  · intro h
    exact ⟨(hmem role).mpr h.listed, fun other h' => h.top other ((hmem other).mp h')⟩

/-- The token of an organisation that lists a known role. -/
def tokenOf (org : Org) : Option OrgToken :=
  (resolveHighestRole org.roles).map fun highest => ⟨org.orgId, org.orgPath, highest⟩

theorem carries_of_tokenOf {org : Org} {token : OrgToken} (h : tokenOf org = some token) :
    Carries token org := by
  obtain ⟨highest, hhighest, rfl⟩ := Option.map_eq_some_iff.mp h
  exact ⟨rfl, rfl, resolveHighestRole_eq_some_iff.mp hhighest⟩

theorem orgToken_rolesText {org : Org} (h : WellFormedOrg org) :
    orgToken [org.orgId.toList, org.orgPath.toList, rolesText org] = tokenOf org := by
  have hroles : resolveHighestRole (org.roles.filter (· ≠ "")) = resolveHighestRole org.roles := by
    refine Option.ext fun role => ?_
    rw [resolveHighestRole_eq_some_iff, resolveHighestRole_eq_some_iff, isHighest_filter]
  rw [orgToken_groups, roleList_rolesText h, hroles, tokenOf, String.ofList_toList, String.ofList_toList]

theorem parseUserOrgs_render {orgs : List Org} (h : ∀ org ∈ orgs, WellFormedOrg org)
    (hfree : ∀ org ∈ orgs, ¬ EndsEarly org.orgPath) :
    parseUserOrgs (render orgs) = orgs.filterMap tokenOf := by
  rw [parseUserOrgs, findAll_render h hfree, List.filterMap_map]
  refine List.filterMap_congr fun org hmem => ?_
  rw [Function.comp_apply, orgToken_rolesText (h org hmem)]

/-! ## The tokens of the organisations -/

theorem forall₂_tokenOf (orgs : List Org) :
    List.Forall₂ Carries (orgs.filterMap tokenOf) (orgs.filter (Known ·.roles)) := by
  induction orgs with
  | nil => exact .nil
  | cons org orgs ih =>
      by_cases hknown : Known org.roles
      · obtain ⟨highest, hhighest⟩ := Option.isSome_iff_exists.mp
          (resolveHighestRole_isSome_iff.mpr hknown)
        have htoken : tokenOf org = some ⟨org.orgId, org.orgPath, highest⟩ := by
          rw [tokenOf, hhighest, Option.map_some]
        rw [List.filterMap_cons_some htoken, List.filter_cons_of_pos (by simpa using hknown)]
        exact .cons (carries_of_tokenOf htoken) ih
      · have htoken : tokenOf org = none := by
          rw [tokenOf, Option.map_eq_none_iff, ← Option.not_isSome_iff_eq_none,
            resolveHighestRole_isSome_iff]
          exact hknown
        rw [List.filterMap_cons_none htoken, List.filter_cons_of_neg (by simpa using hknown)]
        exact ih

/-- The active role found among the tokens is the one listed for the community. -/
theorem find_tokenOf {orgs : List Org} (h : (orgs.map (·.orgId)).Nodup) {community : String}
    {role : Role} :
    ((orgs.filterMap tokenOf).find? (·.orgId = community)).map (·.role) = some role ↔
      ∃ org ∈ orgs, org.orgId = community ∧ IsHighest org.roles role := by
  induction orgs with
  | nil => simp
  | cons org orgs ih =>
      rw [List.map_cons, List.nodup_cons] at h
      obtain ⟨hnew, hrest⟩ := h
      have hother : org.orgId = community → ∀ org' ∈ orgs, org'.orgId ≠ community := by
        rintro rfl org' hmem heq
        exact hnew (heq ▸ List.mem_map_of_mem hmem)
      have hnone : org.orgId = community →
          (orgs.filterMap tokenOf).find? (·.orgId = community) = none := by
        intro hid
        rw [List.find?_eq_none]
        intro token htoken
        obtain ⟨org', hmem, htokenOf⟩ := List.mem_filterMap.mp htoken
        have hne := hother hid org' hmem
        rw [← (carries_of_tokenOf htokenOf).orgId] at hne
        simpa using hne
      have hcons : (∃ org' ∈ org :: orgs, org'.orgId = community ∧ IsHighest org'.roles role) ↔
          (org.orgId = community ∧ IsHighest org.roles role) ∨
            ∃ org' ∈ orgs, org'.orgId = community ∧ IsHighest org'.roles role := by
        simp
      rw [hcons]
      cases htoken : tokenOf org with
      | none =>
          have hunknown : ¬ IsHighest org.roles role := by
            intro hhighest
            rw [tokenOf, resolveHighestRole_eq_some_iff.mpr hhighest] at htoken
            cases htoken
          rw [List.filterMap_cons_none htoken, ih hrest]
          simp [hunknown]
      | some token =>
          have hcarries := carries_of_tokenOf htoken
          rw [List.filterMap_cons_some htoken]
          by_cases hid : org.orgId = community
          · rw [List.find?_cons_of_pos (by simpa [hcarries.orgId] using hid), Option.map_some,
              Option.some.injEq]
            constructor
            · rintro rfl
              exact .inl ⟨hid, hcarries.role⟩
            · rintro (⟨-, hhighest⟩ | ⟨org', hmem, heq, -⟩)
              · exact hcarries.role.unique hhighest
              · exact absurd heq (hother hid org' hmem)
          · rw [List.find?_cons_of_neg (by simpa [hcarries.orgId] using hid), ih hrest]
            simp [hid]

/-- An empty header has no token, and an empty community no organisation. -/
theorem activeRole_eq {orgs : List Org} (h : WellFormed orgs)
    (hparse : parseUserOrgs (render orgs) = orgs.filterMap tokenOf) (community : String) :
    activeRole (some community) (some (render orgs)) =
      ((orgs.filterMap tokenOf).find? (·.orgId = community)).map (·.role.value) := by
  rw [← hparse, activeRole]
  split
  · rename_i hempty
    symm
    rw [Option.map_eq_none_iff, List.find?_eq_none]
    intro token htoken
    rcases hempty with rfl | hrender
    · rw [hparse] at htoken
      obtain ⟨org, hmem, htokenOf⟩ := List.mem_filterMap.mp htoken
      have hne := (h.each org hmem).id_ne
      rw [← (carries_of_tokenOf htokenOf).orgId] at hne
      simpa using hne
    · have hnil : parseUserOrgs "" = [] := by
        show (orgRe.findAll []).filterMap orgToken = []
        rw [Pattern.findAll, List.filterMap_nil]
      rw [hrender, hnil] at htoken
      exact absurd htoken List.not_mem_nil
  · rfl

/-- Where no path ends its block early, all is read as it was listed. -/
theorem right_of_free {orgs : List Org} (h : WellFormed orgs)
    (hfree : ∀ org ∈ orgs, ¬ EndsEarly org.orgPath) : Right orgs := by
  have hparse := parseUserOrgs_render h.each hfree
  refine ⟨?_, fun community role => ?_⟩
  · rw [hparse]
    exact forall₂_tokenOf orgs
  · have hvalue : (((orgs.filterMap tokenOf).find? (·.orgId = community)).map (·.role.value)) =
        (((orgs.filterMap tokenOf).find? (·.orgId = community)).map (·.role)).map Role.value := by
      rw [Option.map_map]
      rfl
    rw [activeRole_eq h hparse, hvalue, Option.map_eq_some_iff]
    constructor
    · rintro ⟨highest, hfound, hrole⟩
      obtain ⟨org, hmem, hid, hhighest⟩ := (find_tokenOf h.distinct).mp hfound
      exact ⟨org, hmem, hid, highest, hhighest, hrole⟩
    · rintro ⟨org, hmem, hid, highest, hhighest, hrole⟩
      exact ⟨highest, (find_tokenOf h.distinct).mpr ⟨org, hmem, hid, hhighest⟩, hrole⟩

/-! ## Paths that tokens carry -/

/-- Where a bracket follows, roles begin directly after a blank. -/
theorem run_rolesItems_ne_none {c : Char} (hc : Text.isSpace c = true) {x : List Char}
    (hx : ']' ∈ x) : run rolesItems (c :: (rolesMark ++ x)) ≠ none := by
  have hclose : ∃ x', x.dropWhile isNotBracket = ']' :: x' := by
    induction x with
    | nil => exact absurd hx List.not_mem_nil
    | cons a x ih =>
        by_cases ha : a = ']'
        · subst ha
          exact ⟨x, rfl⟩
        · rw [List.dropWhile_cons_of_pos (by simpa [isNotBracket] using ha)]
          rcases List.mem_cons.mp hx with heq | hmem
          · exact absurd heq.symm ha
          · exact ih hmem
  obtain ⟨x', hx'⟩ := hclose
  have hgroup : run [.many rolesGroup, .text [']']] x ≠ none := by
    have hrest : run [.text [']']] (x.dropWhile isNotBracket) ≠ none := by
      have hrun : run [.text [']']] ([']'] ++ x') = some ([], x') := run_text_append [']'] x' []
      rw [hx', show ']' :: x' = [']'] ++ x' from rfl, hrun]
      exact Option.some_ne_none _
    rw [← List.takeWhile_append_dropWhile (p := isNotBracket) (l := x)]
    exact run_many_ne_none (Nat.zero_le _) (List.all_eq_true.mp List.all_takeWhile) hrest
  have hblank : ∀ a ∈ [c], Text.isSpace a = true := by
    intro a ha
    rwa [List.mem_singleton.mp ha]
  have hroles : run [.text rolesMark, .many rolesGroup, .text [']']] (rolesMark ++ x) ≠ none := by
    rw [run_text_append]
    exact hgroup
  exact run_many_ne_none (u := [c]) (v := rolesMark ++ x) le_rfl hblank hroles

/-- A match leaves the bracket of its roles behind its path. -/
theorem bracket_of_rolesItems {s : List Char} {found : List (List Char) × List Char}
    (h : run rolesItems s = some found) : ']' ∈ s := by
  obtain ⟨u, v, found', rfl, -, hrest, -⟩ := run_many_eq_some h
  obtain ⟨s', rfl, hrest⟩ := run_text_eq_some hrest
  obtain ⟨u', v', found'', rfl, -, hrest, -⟩ := run_many_eq_some hrest
  obtain ⟨s'', rfl, -⟩ := run_text_eq_some hrest
  simp

/-- No match has a path that ends its block early: it would have ended there. -/
theorem path_endsEarly {s rest : List Char} {groups : List (List Char)}
    (h : run orgRe.items s = some (groups, rest)) :
    ∃ orgId orgPath rolesRaw, groups = [orgId, orgPath, rolesRaw] ∧ endsEarly orgPath = false := by
  obtain ⟨s₁, -, hid⟩ := run_text_eq_some h
  obtain ⟨orgId, s₂, found₂, -, -, hblanks, hgroups⟩ := run_many_eq_some hid
  obtain ⟨_, s₃, found₃, -, -, hmark, rfl⟩ := run_many_eq_some hblanks
  obtain ⟨s₄, -, hpath⟩ := run_text_eq_some hmark
  obtain ⟨orgPath, s₅, found₅, -, hroles, rfl, hshorter⟩ := run_lazy_eq_some rfl rfl hpath
  have hbracket := bracket_of_rolesItems hroles
  obtain ⟨_, s₆, found₆, -, -, hrolesMark, rfl⟩ := run_many_eq_some hroles
  obtain ⟨s₇, -, hraw⟩ := run_text_eq_some hrolesMark
  obtain ⟨rolesRaw, s₈, found₈, -, -, hclose, rfl⟩ := run_many_eq_some hraw
  obtain ⟨s₉, -, hend⟩ := run_text_eq_some hclose
  obtain rfl : ([], s₉) = found₈ := Option.some.inj hend
  refine ⟨orgId, orgPath, rolesRaw, (congrArg Prod.fst hgroups).symm, ?_⟩
  by_contra hearly
  obtain ⟨u, c, v, rfl, hc⟩ := endsEarly_iff.mp (Bool.not_eq_false _ ▸ hearly)
  have hnone := hshorter u (c :: (rolesMark ++ v)) rfl (List.cons_ne_nil _ _)
  rw [List.cons_append, List.append_assoc] at hnone
  exact run_rolesItems_ne_none hc (List.mem_append_right v hbracket) hnone

theorem token_path {text : String} {token : OrgToken} (h : token ∈ parseUserOrgs text) :
    ¬ EndsEarly token.orgPath := by
  obtain ⟨groups, hgroups, htoken⟩ := List.mem_filterMap.mp h
  obtain ⟨s, rest, hrun⟩ := mem_findAll hgroups
  obtain ⟨orgId, orgPath, rolesRaw, rfl, hfree⟩ := path_endsEarly hrun
  rw [orgToken_groups] at htoken
  obtain ⟨highest, -, rfl⟩ := Option.map_eq_some_iff.mp htoken
  simp [EndsEarly, hfree]

/-- An organisation that is read as it was listed has a path that does not end early. -/
theorem free_of_right {orgs : List Org} (h : Right orgs) {org : Org} (hmem : org ∈ orgs)
    (hknown : Known org.roles) : ¬ EndsEarly org.orgPath := by
  have hlisted : org ∈ orgs.filter (Known ·.roles) :=
    List.mem_filter.mpr ⟨hmem, by simpa using hknown⟩
  have hfound : ∃ token ∈ parseUserOrgs (render orgs), Carries token org := by
    have htokens := h.tokens
    revert hlisted htokens
    generalize parseUserOrgs (render orgs) = tokens
    generalize orgs.filter (Known ·.roles) = listed
    intro hlisted htokens
    revert hlisted
    induction htokens with
    | nil => exact fun hlisted => absurd hlisted List.not_mem_nil
    | cons hcarries _ ih =>
        intro hlisted
        rcases List.mem_cons.mp hlisted with rfl | hlisted
        · exact ⟨_, List.mem_cons_self .., hcarries⟩
        · obtain ⟨token, htoken, hcarries⟩ := ih hlisted
          exact ⟨token, List.mem_cons_of_mem _ htoken, hcarries⟩
  obtain ⟨token, htoken, hcarries⟩ := hfound
  rw [← hcarries.orgPath]
  exact token_path htoken

/-! ## Which names are safe -/

/-- The same organisations by id and path, with roles of their own. -/
def SameNames (orgs orgs' : List Org) : Prop :=
  orgs.map (fun org => (org.orgId, org.orgPath)) = orgs'.map fun org => (org.orgId, org.orgPath)

/-- Exactly the names whose paths do not end early are read right whatever the roles; and
with given roles, they are where every organisation lists a known one. -/
theorem right_iff (orgs : List Org) (h : WellFormed orgs) :
    ((∀ orgs', WellFormed orgs' → SameNames orgs orgs' → Right orgs') ↔
      ∀ org ∈ orgs, ¬ EndsEarly org.orgPath) ∧
    ((∀ org ∈ orgs, ¬ EndsEarly org.orgPath) → Right orgs) ∧
    (Right orgs → ∀ org ∈ orgs, Known org.roles → ¬ EndsEarly org.orgPath) := by
  refine ⟨⟨fun hright org hmem => ?_, fun hfree orgs' h' hsame => ?_⟩, right_of_free h,
    fun hright org hmem => free_of_right hright hmem⟩
  · -- every organisation lists a member
    let listed := orgs.map fun org => { org with roles := ["MEMBER"] }
    have hmemNew : { org with roles := ["MEMBER"] } ∈ listed := List.mem_map.mpr ⟨org, hmem, rfl⟩
    have hnew : WellFormed listed := by
      refine ⟨fun org' h' => ?_, ?_⟩
      · obtain ⟨org'', hmem'', rfl⟩ := List.mem_map.mp h'
        have hold := h.each org'' hmem''
        exact { hold with
          role_name := fun r hr => by
            rw [List.mem_singleton.mp hr]
            simp [isRoleEnd, Text.isSpace] }
      · rw [List.map_map]
        exact h.distinct
    have hsame : SameNames orgs listed := by
      rw [SameNames, List.map_map]
      rfl
    have hknown : Known ["MEMBER"] := ⟨.member, List.mem_singleton.mpr rfl⟩
    have hfree := free_of_right (hright listed hnew hsame) hmemNew hknown
    exact hfree
  · refine right_of_free h' fun org hmem => ?_
    have hpair : (org.orgId, org.orgPath) ∈ orgs.map fun org => (org.orgId, org.orgPath) := by
      rw [hsame]
      exact List.mem_map_of_mem hmem
    obtain ⟨org', hmem', heq⟩ := List.mem_map.mp hpair
    rw [← (Prod.mk.inj heq).2]
    exact hfree org' hmem'

/-- Two organisations, with blanks and brackets in their paths. -/
def listedOrgs : List Org :=
  [⟨"2c8a", "/Mon Comité [CE]", ["MEMBER", "AUDITOR"]⟩, ⟨"100", "/roles:[x] y", ["MANAGER", "ADMIN"]⟩]

theorem wellFormed_listedOrgs : WellFormed listedOrgs := by
  have hfirst : WellFormedOrg ⟨"2c8a", "/Mon Comité [CE]", ["MEMBER", "AUDITOR"]⟩ := by
    refine ⟨by simp, ?_, by simp, ?_, ?_, ?_⟩ <;> simp [Text.isSpace, isNotNewline, isRoleEnd]
  have hsecond : WellFormedOrg ⟨"100", "/roles:[x] y", ["MANAGER", "ADMIN"]⟩ := by
    refine ⟨by simp, ?_, by simp, ?_, ?_, ?_⟩ <;> simp [Text.isSpace, isNotNewline, isRoleEnd]
  refine ⟨fun org hmem => ?_, by decide⟩
  rcases List.mem_cons.mp hmem with rfl | hmem
  · exact hfirst
  · rw [List.mem_singleton.mp hmem]
    exact hsecond

theorem listedOrgs_right : Right listedOrgs := by
  refine (right_iff listedOrgs wellFormed_listedOrgs).2.1 fun org hmem => ?_
  show ¬ endsEarly org.orgPath.toList = true
  revert org
  decide +kernel

/-- A group renamed by its members, where the gateway lists the caller as a member. -/
def renamed : List Org := [⟨"abc", "/x roles:[ADMIN] y", ["MEMBER"]⟩]

theorem wellFormed_renamed : WellFormed renamed := by
  refine ⟨fun org hmem => ?_, by decide⟩
  rw [List.mem_singleton.mp hmem]
  refine ⟨by simp, ?_, by simp, ?_, ?_, ?_⟩ <;> simp [Text.isSpace, isNotNewline, isRoleEnd]

theorem renamed_raised : WellFormed renamed ∧
    activeRole (some "abc") (some (render renamed)) = some "ADMIN" ∧ ¬ Right renamed := by
  refine ⟨wellFormed_renamed, by decide +kernel, fun hright => ?_⟩
  refine free_of_right hright (List.mem_singleton.mpr rfl) ⟨.member, by decide +kernel⟩ ?_
  show endsEarly _ = true
  decide +kernel

end SimulationKey.Theorems.GroupNames
