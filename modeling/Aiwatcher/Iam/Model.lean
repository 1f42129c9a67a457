import Aiwatcher.Strings
import Aiwatcher.Library.Refusal
import Mathlib.Order.Basic
import Mathlib.Order.Lattice

/-!
# Aiwatcher.Iam.Model

What the access policy of one organization is about (`model.rs`): principals, standings and
project roles, grants with their windows, invitations, and the commands that change them.

Identifiers are uuids and every instant is in Unix seconds.
-/

namespace Aiwatcher.Iam

open Library

/-! ## Errors -/

inductive Error where
  | notFound
  | forbidden
  | lastOwner
  | expired
  | redeemed
  | invalid (message : String)
  | conflict (message : String)
  | incompatible (message : String)
  | backend (message : String)
  deriving DecidableEq, Repr

/-! ## Identifiers and principals -/

structure OrganizationId where
  uuid : BitVec 128
  deriving DecidableEq, Repr

instance : Ord OrganizationId where
  compare := compareOn (·.uuid.toNat)

instance : Std.TransOrd OrganizationId :=
  inferInstanceAs (Std.TransCmp (compareOn fun id : OrganizationId => id.uuid.toNat))

instance : Std.LawfulEqOrd OrganizationId where
  eq_of_compare {a b} h := by
    have huuid : a.uuid.toNat = b.uuid.toNat := Std.LawfulEqOrd.eq_of_compare h
    cases a
    cases b
    simpa [BitVec.toNat_inj] using huuid

structure ProjectId where
  uuid : BitVec 128
  deriving DecidableEq, Repr

structure TeamId where
  uuid : BitVec 128
  deriving DecidableEq, Repr

structure GrantId where
  uuid : BitVec 128
  deriving DecidableEq, Repr

structure InvitationId where
  uuid : BitVec 128
  deriving DecidableEq, Repr

/-- A provider's namespace and its subject, compared exactly. -/
structure Principal where
  provider : String
  subject : String
  deriving DecidableEq, Repr

namespace Principal

/-- What is wrong with one half of a principal. -/
def malformed (value : String) : Bool :=
  value.isEmpty || decide (byteLength value > 1024) || value.toList.any isControl

def validate (principal : Principal) : Except Error Unit := do
  refuseIf (malformed principal.provider)
    (.invalid "provider must contain 1–1024 bytes without control characters")
  refuseIf (malformed principal.subject)
    (.invalid "subject must contain 1–1024 bytes without control characters")

end Principal

/-- `model::name`: the name, trimmed. -/
def name (value : String) : Except Error String :=
  let value := trim value
  if value.isEmpty ∨ byteLength value > 200 ∨ value.toList.any isControl then
    .error (.invalid "name must contain 1–200 bytes without control characters")
  else .ok value

/-! ## Roles -/

/-- Somebody's standing in the organization, the lowest first. -/
inductive OrganizationRole where
  | guest
  | member
  | admin
  | owner
  deriving DecidableEq, Repr

def OrganizationRole.rank : OrganizationRole → Nat
  | .guest => 0
  | .member => 1
  | .admin => 2
  | .owner => 3

theorem OrganizationRole.rank_injective : Function.Injective OrganizationRole.rank := by
  intro a b
  cases a <;> cases b <;> simp [OrganizationRole.rank]

instance : LinearOrder OrganizationRole :=
  LinearOrder.lift' OrganizationRole.rank OrganizationRole.rank_injective

inductive ProjectRole where
  | viewer
  | editor
  | admin
  deriving DecidableEq, Repr

def ProjectRole.rank : ProjectRole → Nat
  | .viewer => 0
  | .editor => 1
  | .admin => 2

theorem ProjectRole.rank_injective : Function.Injective ProjectRole.rank := by
  intro a b
  cases a <;> cases b <;> simp [ProjectRole.rank]

instance : LinearOrder ProjectRole :=
  LinearOrder.lift' ProjectRole.rank ProjectRole.rank_injective

/-! ## Organizations, projects, teams -/

structure Organization where
  id : OrganizationId
  name : String
  deriving DecidableEq, Repr

structure ProjectScope where
  organization : OrganizationId
  project : ProjectId
  deriving DecidableEq, Repr

structure Project where
  scope : ProjectScope
  name : String
  deriving DecidableEq, Repr

structure Team where
  id : TeamId
  organization : OrganizationId
  name : String
  deriving DecidableEq, Repr

/-! ## Grants -/

inductive Grantee where
  | user (principal : Principal)
  | team (team : TeamId)
  deriving DecidableEq, Repr

/-- Half-open: the start is in, the ends are out. -/
structure GrantWindow where
  validFrom : Int
  editUntil : Option Int
  readUntil : Option Int
  deriving DecidableEq, Repr

namespace GrantWindow

def permanent (validFrom : Int) : GrantWindow := ⟨validFrom, none, none⟩

def validate (window : GrantWindow) : Except Error Unit :=
  refuseIf
    ((window.editUntil.any fun stop => stop ≤ window.validFrom) ∨
      (window.readUntil.any fun stop => stop ≤ window.validFrom) ∨
      (window.editUntil.any fun edit => window.readUntil.any fun read => read < edit))
    (.invalid "grant end must follow its start; read access cannot end before edit access")

/-- The role this window leaves at `now`; after the edit period, `viewer`. -/
def roleAt (window : GrantWindow) (role : ProjectRole) (now : Int) : Option ProjectRole :=
  if now < window.validFrom ∨ window.readUntil.any (fun stop => now ≥ stop) then none
  else some (if window.editUntil.any (fun stop => now ≥ stop) then .viewer else role)

@[simp] theorem validate_permanent (now : Int) : (permanent now).validate = .ok () := by
  simp [validate, permanent]

end GrantWindow

structure Grant where
  id : GrantId
  scope : ProjectScope
  grantee : Grantee
  role : ProjectRole
  window : GrantWindow
  deriving DecidableEq, Repr

/-- A grant and the role it leaves now. -/
structure EffectiveGrant where
  grant : Grant
  role : ProjectRole
  deriving DecidableEq, Repr

structure ProjectAccess where
  project : Project
  role : ProjectRole
  grants : List EffectiveGrant
  evaluatedAt : Int
  deriving DecidableEq, Repr

def ProjectAccess.require (access : ProjectAccess) (role : ProjectRole) : Except Error Unit :=
  refuseIf (access.role < role) .forbidden

/-! ## Invitations -/

/-- Who turned an offer into a grant, and which grant it became. -/
structure Redemption where
  principal : Principal
  moment : Int
  grant : GrantId
  deriving DecidableEq, Repr

/-- What an invitation's author declares. -/
structure InvitationOffer where
  role : ProjectRole
  window : GrantWindow
  expiresAt : Int
  label : Option String
  standing : OrganizationRole
  deriving DecidableEq, Repr

/-- An offer of a grant to whoever holds its token, redeemable once. -/
structure Invitation where
  id : InvitationId
  scope : ProjectScope
  role : ProjectRole
  window : GrantWindow
  expiresAt : Int
  createdBy : Principal
  createdAt : Int
  label : Option String
  standing : OrganizationRole
  redeemed : Option Redemption
  deriving DecidableEq, Repr

/-- What a redeemer learns. -/
structure Redeemed where
  organization : Organization
  project : Project
  role : ProjectRole
  window : GrantWindow
  grant : GrantId
  deriving DecidableEq, Repr

/-! ## Commands -/

inductive Command where
  | setMember (principal : Principal) (role : OrganizationRole)
  | removeMember (principal : Principal)
  | createTeam (name : String)
  | deleteTeam (team : TeamId)
  | setTeamMember (team : TeamId) (principal : Principal) (present : Bool)
  | createProject (name : String)
  | grant (project : ProjectId) (grantee : Grantee) (role : ProjectRole) (window : GrantWindow)
  | revokeGrant (project : ProjectId) (grant : GrantId)
  deriving DecidableEq, Repr

inductive Change where
  | applied
  | teamCreated (team : Team)
  | projectCreated (project : Project)
  | grantCreated (grant : Grant)
  deriving DecidableEq, Repr

end Aiwatcher.Iam
