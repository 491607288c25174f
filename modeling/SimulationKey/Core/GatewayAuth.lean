import SimulationKey.Kit.Regex
import SimulationKey.Kit.Text

/-!
# The caller's organisations

The gateway sends all organisations of the caller in one header, and the request's
role is the one of the active community's organisation.
-/

namespace SimulationKey

open Kit Kit.Regex

/-! ## Roles -/

inductive Role where
  | member
  | manager
  | admin
  deriving DecidableEq, Repr

namespace Role

def value : Role → String
  | member => "MEMBER"
  | manager => "MANAGER"
  | admin => "ADMIN"

/-- `Role(r)`, `none` for a `ValueError`. -/
def ofValue (r : String) : Option Role := [member, manager, admin].find? (·.value = r)

theorem ofValue_eq_some_iff {r : String} {role : Role} : ofValue r = some role ↔ role.value = r := by
  constructor
  · intro h
    simpa using List.find?_some h
  · rintro rfl
    cases role <;> rfl

theorem value_injective {role role' : Role} (h : role.value = role'.value) : role = role' := by
  have hrole := ofValue_eq_some_iff.mpr h
  rw [ofValue_eq_some_iff.mpr rfl] at hrole
  exact (Option.some.inj hrole).symm

end Role

/-- `ROLE_HIERARCHY`. -/
def roleHierarchy : List (Role × Int) := [(.member, 1), (.manager, 2), (.admin, 3)]

/-- `ROLE_HIERARCHY.get(role, 0)`. -/
def rankOf (role : Role) : Int := (roleHierarchy.lookup role).getD 0

theorem rankOf_pos (role : Role) : 0 < rankOf role := by
  cases role <;> decide

theorem rankOf_injective {role role' : Role} (h : rankOf role = rankOf role') : role = role' := by
  revert h
  cases role <;> cases role' <;> decide

/-- One role string of `_resolve_highest_role`. -/
def higherRole (best : Option Role × Int) (r : String) : Option Role × Int :=
  match Role.ofValue r with
  | none => best
  | some role => if rankOf role > best.2 then (some role, rankOf role) else best

def resolveHighestRole (roles : List String) : Option Role :=
  (roles.foldl higherRole (none, -1)).1

/-! ## Tokens -/

structure OrgToken where
  orgId : String
  orgPath : String
  role : Role
  deriving DecidableEq, Repr

/-- `\S`. -/
def isNotSpace (c : Char) : Bool := !Text.isSpace c

/-- `.` -/
def isNotNewline (c : Char) : Bool := c.toNat ≠ 0x0a

def isNotBracket (c : Char) : Bool := c ≠ ']'

/-- `\s+`. -/
def blanks : Repeat Char := ⟨Text.isSpace, 1, false, false⟩

/-- `(\S+)`. -/
def idGroup : Repeat Char := ⟨isNotSpace, 1, false, true⟩

/-- `(.*?)`. -/
def pathGroup : Repeat Char := ⟨isNotNewline, 0, true, true⟩

/-- `([^\]]*)`. -/
def rolesGroup : Repeat Char := ⟨isNotBracket, 0, false, true⟩

def orgIdMark : List Char := "orgId:".toList

def orgPathMark : List Char := "orgPath:".toList

def rolesMark : List Char := "roles:[".toList

/-- `_ORG_RE` from the blanks before the roles on. -/
def rolesItems : List (Item Char) :=
  [.many blanks, .text rolesMark, .many rolesGroup, .text [']']]

/-- `_ORG_RE` from the path on. -/
def pathItems : List (Item Char) := .many pathGroup :: rolesItems

/-- `_ORG_RE`. -/
def orgRe : Pattern Char where
  items := .text orgIdMark :: .many idGroup :: .many blanks :: .text orgPathMark :: pathItems
  consumes := by decide

/-- What separates roles: `[,\s]`. -/
def isRoleSep (c : Char) : Bool := c = ',' || Text.isSpace c

/-- `role_list`. -/
def roleList (rolesRaw : List Char) : List String :=
  (words isRoleSep (Text.strip (String.ofList rolesRaw)).toList).map String.ofList

/-- One match of `_ORG_RE`, with its three groups. -/
def orgToken (groups : List (List Char)) : Option OrgToken :=
  match groups with
  | [orgId, orgPath, rolesRaw] =>
    (resolveHighestRole (roleList rolesRaw)).map fun highest =>
      ⟨String.ofList orgId, String.ofList orgPath, highest⟩
  | _ => none

theorem orgToken_groups (orgId orgPath rolesRaw : List Char) :
    orgToken [orgId, orgPath, rolesRaw] = (resolveHighestRole (roleList rolesRaw)).map fun highest =>
      ⟨String.ofList orgId, String.ofList orgPath, highest⟩ := rfl

def parseUserOrgs (userOrgs : String) : List OrgToken :=
  (orgRe.findAll userOrgs.toList).filterMap orgToken

/-! ## The request's scope -/

/-- The headers `GatewayScopeMiddleware` reads. -/
structure GatewayHeaders where
  userId : Option String
  communityId : Option String
  userOrgs : Option String
  sourceIp : Option String

/-- The context variables it sets. -/
structure GatewayScope where
  currentUserId : Option String
  currentCommunityId : Option String
  currentUserRole : Option String
  currentSourceIp : Option String
  deriving DecidableEq, Repr

/-- `role` of `GatewayScopeMiddleware.dispatch`. -/
def activeRole (communityId userOrgs : Option String) : Option String :=
  match communityId, userOrgs with
  | some community, some orgs =>
    -- an empty header counts as none
    if community = "" ∨ orgs = "" then none
    else ((parseUserOrgs orgs).find? (·.orgId = community)).map (·.role.value)
  | _, _ => none

/-- What `GatewayScopeMiddleware.dispatch` sets while the request is served. -/
def gatewayScope (headers : GatewayHeaders) : GatewayScope where
  currentUserId := headers.userId
  currentCommunityId := headers.communityId
  currentUserRole := activeRole headers.communityId headers.userOrgs
  currentSourceIp := headers.sourceIp

/-! ## The highest role -/

/-- The highest of the known roles among role strings. -/
structure IsHighest (roles : List String) (role : Role) : Prop where
  listed : role.value ∈ roles
  top : ∀ other : Role, other.value ∈ roles → rankOf other ≤ rankOf role

theorem IsHighest.unique {roles : List String} {role role' : Role} (h : IsHighest roles role)
    (h' : IsHighest roles role') : role = role' :=
  rankOf_injective (le_antisymm (h'.top role h.listed) (h.top role' h'.listed))

/-- Some role string is a role. -/
def Known (roles : List String) : Prop := ∃ role : Role, role.value ∈ roles

/-- What `_resolve_highest_role` has found among the strings it has passed. -/
def Found (roles : List String) (best : Option Role × Int) : Prop :=
  (¬ Known roles ∧ best = (none, -1)) ∨
    ∃ role, IsHighest roles role ∧ best = (some role, rankOf role)

theorem found_higherRole {roles : List String} {best : Option Role × Int} (h : Found roles best)
    (r : String) : Found (roles ++ [r]) (higherRole best r) := by
  unfold higherRole
  cases hr : Role.ofValue r with
  | none =>
      have hother : ∀ role : Role, role.value ∈ roles ++ [r] → role.value ∈ roles := by
        intro role hmem
        rcases List.mem_append.mp hmem with hmem | hmem
        · exact hmem
        · rw [Role.ofValue_eq_some_iff.mpr (List.mem_singleton.mp hmem)] at hr
          cases hr
      rcases h with ⟨hunknown, hbest⟩ | ⟨role, hrole, hbest⟩
      · exact .inl ⟨fun ⟨role, hmem⟩ => hunknown ⟨role, hother role hmem⟩, hbest⟩
      · exact .inr ⟨role, ⟨List.mem_append_left _ hrole.listed,
          fun other hmem => hrole.top other (hother other hmem)⟩, hbest⟩
  | some role =>
      have hvalue := Role.ofValue_eq_some_iff.mp hr
      have hlast : role.value ∈ roles ++ [r] := by simp [hvalue]
      -- another role among the strings is one already passed
      have hother : ∀ other : Role, other.value ∈ roles ++ [r] → other.value ∈ roles ∨ other = role := by
        intro other hmem
        rcases List.mem_append.mp hmem with hmem | hmem
        · exact .inl hmem
        · exact .inr (Role.value_injective ((List.mem_singleton.mp hmem).trans hvalue.symm))
      have hpos := rankOf_pos role
      rcases h with ⟨hunknown, rfl⟩ | ⟨role', hrole', rfl⟩
      · refine .inr ⟨role, ⟨hlast, fun other hmem => ?_⟩, if_pos (by show -1 < rankOf role; omega)⟩
        rcases hother other hmem with hmem | rfl
        · exact absurd ⟨other, hmem⟩ hunknown
        · exact le_rfl
      · show Found _ (if rankOf role > rankOf role' then _ else _)
        by_cases hrank : rankOf role > rankOf role'
        · refine .inr ⟨role, ⟨hlast, fun other hmem => ?_⟩, if_pos hrank⟩
          rcases hother other hmem with hmem | rfl
          · have := hrole'.top other hmem
            omega
          · exact le_rfl
        · refine .inr ⟨role', ⟨List.mem_append_left _ hrole'.listed, fun other hmem => ?_⟩,
            if_neg hrank⟩
          rcases hother other hmem with hmem | rfl
          · exact hrole'.top other hmem
          · omega

theorem found_foldl {roles : List String} {best : Option Role × Int} (h : Found roles best)
    (rest : List String) : Found (roles ++ rest) (rest.foldl higherRole best) := by
  induction rest generalizing roles best with
  | nil => simpa using h
  | cons r rest ih => simpa using ih (found_higherRole h r)

/-- `_resolve_highest_role` finds the highest of the known roles. -/
theorem resolveHighestRole_eq_some_iff {roles : List String} {role : Role} :
    resolveHighestRole roles = some role ↔ IsHighest roles role := by
  have hstart : Found [] (none, -1) := .inl ⟨fun ⟨_, hmem⟩ => absurd hmem List.not_mem_nil, rfl⟩
  rcases found_foldl hstart roles with ⟨hunknown, hbest⟩ | ⟨highest, hhighest, hbest⟩
  · rw [resolveHighestRole, hbest]
    exact ⟨fun h => absurd h (by simp), fun h => absurd ⟨role, h.listed⟩ hunknown⟩
  · rw [resolveHighestRole, hbest]
    exact ⟨fun h => Option.some.inj h ▸ hhighest, fun h => congrArg some (hhighest.unique h)⟩

theorem resolveHighestRole_isSome_iff {roles : List String} :
    (resolveHighestRole roles).isSome = true ↔ Known roles := by
  have hstart : Found [] (none, -1) := .inl ⟨fun ⟨_, hmem⟩ => absurd hmem List.not_mem_nil, rfl⟩
  rcases found_foldl hstart roles with ⟨hunknown, hbest⟩ | ⟨highest, hhighest, hbest⟩
  · rw [resolveHighestRole, hbest]
    exact ⟨fun h => (Bool.false_ne_true h).elim, fun h => absurd h hunknown⟩
  · rw [resolveHighestRole, hbest]
    exact ⟨fun _ => ⟨highest, hhighest.listed⟩, fun _ => rfl⟩

instance (roles : List String) : Decidable (Known roles) :=
  decidable_of_iff _ resolveHighestRole_isSome_iff

end SimulationKey
