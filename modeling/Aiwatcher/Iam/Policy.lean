import Aiwatcher.Iam.Model
import Aiwatcher.Library.Sequences

/-!
# Aiwatcher.Iam.Policy

One organization's membership and grants, and the operations that change them
(`policy.rs`).  An operation is a program over the state that may refuse; what it wrote
before it refuses stays written.

The identifiers an operation mints are given to it, in `Minted`.
-/

namespace Aiwatcher.Iam

open Library

def SCHEMA_VERSION : Nat := 1

/-- How long a spent or lapsed invitation is kept. -/
def INVITATION_RETENTION_SECONDS : Int := 30 * 24 * 60 * 60

structure Member where
  principal : Principal
  role : OrganizationRole
  deriving DecidableEq, Repr

structure TeamRecord where
  team : Team
  members : List Principal
  deriving DecidableEq, Repr

/-- An offer, and the digest of the secret that redeems it. -/
structure InvitationRecord where
  invitation : Invitation
  tokenSha256 : String
  deriving DecidableEq, Repr

structure OrganizationState where
  schemaVersion : Nat
  organization : Organization
  members : List Member
  teams : List TeamRecord
  projects : List Project
  grants : List Grant
  invitations : List InvitationRecord
  deriving DecidableEq, Repr

/-- The identifiers the next operation mints. -/
structure Minted where
  team : TeamId
  project : ProjectId
  grant : GrantId
  invitation : InvitationId
  deriving DecidableEq, Repr

namespace OrganizationState

/-! ## Reading -/

def start (id : OrganizationId) (owner : Principal) (label : String) :
    Except Error OrganizationState := do
  owner.validate
  let label ← name label
  pure {
    schemaVersion := SCHEMA_VERSION
    organization := { id := id, name := label }
    members := [{ principal := owner, role := .owner }]
    teams := []
    projects := []
    grants := []
    invitations := [] }

def validateTeam (state : OrganizationState) (record : TeamRecord) : Except Error Unit := do
  let _ ← name record.team.name
  refuseIf (record.team.organization ≠ state.organization.id ∨
      (record.members.any fun member => !(state.members.map (·.principal)).contains member) ∨
      !distinct record.members)
    (.incompatible "invalid team membership or organization")

def validateProject (state : OrganizationState) (project : Project) : Except Error Unit := do
  let _ ← name project.name
  refuseIf (project.scope.organization ≠ state.organization.id)
    (.incompatible "project in another organization")

def validateInvitation (state : OrganizationState) (record : InvitationRecord) :
    Except Error Unit := do
  record.invitation.window.validate
  record.invitation.createdBy.validate
  refuseIf (record.invitation.scope.organization ≠ state.organization.id ∨
      !(state.projects.map (·.scope.project)).contains record.invitation.scope.project ∨
      byteLength record.tokenSha256 ≠ 64 ∨
      (record.invitation.redeemed.any fun redemption =>
        !(state.members.map (·.principal)).contains redemption.principal))
    (.incompatible "invitation outside this organization or naming nothing")

/-- Whoever a grant names is here. -/
def holdsGrantee (state : OrganizationState) : Grantee → Bool
  | .user user => (state.members.map (·.principal)).contains user
  | .team team => (state.teams.map (·.team.id)).contains team

def validateGrant (state : OrganizationState) (grant : Grant) : Except Error Unit := do
  grant.window.validate
  refuseIf (grant.scope.organization ≠ state.organization.id ∨
      !(state.projects.map (·.scope.project)).contains grant.scope.project ∨
      !state.holdsGrantee grant.grantee)
    (.incompatible "grant crosses an organization or has a missing reference")

def validate (state : OrganizationState) : Except Error Unit := do
  refuseIf (state.schemaVersion ≠ SCHEMA_VERSION) (.incompatible "unknown schema version")
  let _ ← name state.organization.name
  refuseIf (!distinct (state.members.map (·.principal)) ∨
      !(state.members.any fun member => member.role = .owner))
    (.incompatible "duplicate memberships or missing owner")
  forM state.members fun member => member.principal.validate
  refuseIf (!distinct (state.projects.map (·.scope.project)) ∨
      !distinct (state.teams.map (·.team.id)) ∨ !distinct (state.grants.map (·.id)))
    (.incompatible "duplicate project, team or grant IDs")
  forM state.projects state.validateProject
  forM state.teams state.validateTeam
  refuseIf (!distinct (state.invitations.map (·.invitation.id)))
    (.incompatible "duplicate invitation IDs")
  forM state.invitations state.validateInvitation
  forM state.grants state.validateGrant

/-- What somebody is in the organization, when they are in it. -/
def standing (state : OrganizationState) (principal : Principal) : Option OrganizationRole :=
  (state.members.find? fun member => member.principal = principal).map (·.role)

def memberRole (state : OrganizationState) (actor : Principal) :
    Except Error OrganizationRole := do
  actor.validate
  okOr .notFound (state.standing actor)

def authorizeAudit (state : OrganizationState) (actor : Principal) : Except Error Unit := do
  let role ← state.memberRole actor
  refuseIf (role < .admin) .forbidden

/-- The teams somebody is in. -/
def teamsOf (state : OrganizationState) (actor : Principal) : List TeamId :=
  (state.teams.filter fun record => record.members.contains actor).map (·.team.id)

/-- A grant names somebody, or a team they are in. -/
def reaches (state : OrganizationState) (actor : Principal) : Grantee → Bool
  | .user user => user = actor
  | .team team => (state.teamsOf actor).contains team

/-- What a grant leaves now. -/
def effective (now : Int) (grant : Grant) : Option EffectiveGrant :=
  (grant.window.roleAt grant.role now).map fun role => { grant := grant, role := role }

/-- The grants somebody holds on a project, each with what it leaves now. -/
def effectiveGrants (state : OrganizationState) (scope : ProjectScope) (actor : Principal)
    (now : Int) : List EffectiveGrant :=
  (state.grants.filter fun grant =>
    grant.scope = scope && state.reaches actor grant.grantee).filterMap (effective now)

def access (state : OrganizationState) (scope : ProjectScope) (actor : Principal) (now : Int) :
    Except Error ProjectAccess := do
  let _ ← state.memberRole actor
  let project ← okOr .notFound (state.projects.find? fun project => project.scope = scope)
  let grants := state.effectiveGrants scope actor now
  let role ← okOr .notFound (grants.map (·.role)).max?
  pure {
    project := project
    role := role
    grants := grants
    evaluatedAt := now }

/-- A project's own admin. -/
def requireProjectAdmin (state : OrganizationState) (scope : ProjectScope) (actor : Principal)
    (now : Int) : Except Error Unit := do
  let access ← state.access scope actor now
  access.require .admin

def manageProject (state : OrganizationState) (actor : Principal) (project : ProjectId)
    (now : Int) : Except Error ProjectScope := do
  let scope : ProjectScope := { organization := state.organization.id, project := project }
  refuseIf (!state.projects.any fun entry => entry.scope = scope) .notFound
  let role ← state.memberRole actor
  let _ ← (if role < .admin then state.requireProjectAdmin scope actor now else .ok ())
  pure scope

def keepOwner (state : OrganizationState) (user : Principal) (next : Option OrganizationRole) :
    Except Error Unit := do
  let role ← state.memberRole user
  refuseIf (role = .owner ∧ next ≠ some .owner ∧
      (state.members.filter fun member => member.role = .owner).length = 1) .lastOwner

/-- An offer that can do nothing any more, for long enough. -/
def spent (now : Int) (record : InvitationRecord) : Bool :=
  let done := (record.invitation.redeemed.map (·.moment)).getD record.invitation.expiresAt
  now - done ≥ INVITATION_RETENTION_SECONDS

def forgetSpentInvitations (now : Int) (state : OrganizationState) : OrganizationState :=
  { state with invitations := state.invitations.filter fun record => !spent now record }

/-- The offer a token's digest opens. -/
def offered (state : OrganizationState) (tokenSha256 : String) : Option InvitationRecord :=
  state.invitations.find? fun record => record.tokenSha256 = tokenSha256

/-- Which offer a redemption produced. -/
def invitationOf (state : OrganizationState) (grant : GrantId) : Option InvitationId :=
  (state.invitations.find? fun record => record.invitation.redeemed.any
    fun redemption => redemption.grant = grant).map (·.invitation.id)

/-! ## Writing -/

/-- A member is given a role, or joins with it. -/
def seat (principal : Principal) (next : OrganizationRole) (state : OrganizationState) :
    OrganizationState :=
  if state.members.any fun member => member.principal = principal then
    { state with
      members := updateFirst (fun member => member.principal = principal)
        (fun member => { member with role := next }) state.members }
  else { state with members := state.members ++ [{ principal := principal, role := next }] }

/-- A member leaves, and their teams and their own grants with them. -/
def unseat (principal : Principal) (state : OrganizationState) : OrganizationState :=
  { state with
    members := state.members.filter fun member => member.principal ≠ principal
    teams := state.teams.map fun record => { record with
      members := record.members.filter fun member => member ≠ principal }
    grants := state.grants.filter fun grant => grant.grantee ≠ .user principal }

def addTeam (state : OrganizationState) (team : Team) : OrganizationState :=
  { state with teams := state.teams ++ [{ team := team, members := [] }] }

/-- A team goes, and the grants to it. -/
def disband (team : TeamId) (state : OrganizationState) : OrganizationState :=
  { state with
    teams := state.teams.filter fun entry => entry.team.id ≠ team
    grants := state.grants.filter fun grant => grant.grantee ≠ .team team }

def setInTeam (team : TeamId) (principal : Principal) (present : Bool)
    (state : OrganizationState) : OrganizationState :=
  { state with
    teams := updateFirst (fun entry => entry.team.id = team)
      (fun record => { record with
        members := (record.members.filter fun member => member ≠ principal) ++
          if present then [principal] else [] }) state.teams }

/-- A project, and its creator's grant on it. -/
def addProject (state : OrganizationState) (project : Project) (grant : Grant) :
    OrganizationState :=
  { state with
    projects := state.projects ++ [project]
    grants := state.grants ++ [grant] }

def addGrant (state : OrganizationState) (grant : Grant) : OrganizationState :=
  { state with grants := state.grants ++ [grant] }

def dropGrant (state : OrganizationState) (grant : GrantId) : OrganizationState :=
  { state with grants := state.grants.filter fun entry => entry.id ≠ grant }

def addInvitation (state : OrganizationState) (record : InvitationRecord) : OrganizationState :=
  { state with invitations := state.invitations ++ [record] }

def dropInvitation (state : OrganizationState) (invitation : InvitationId) :
    OrganizationState :=
  { state with
    invitations := state.invitations.filter fun record => record.invitation.id ≠ invitation }

/-- The offer is taken: the redeemer is a member with a grant, and the record says so. -/
def takeUp (invitation : Invitation) (grant : Grant) (redeemer : Principal) (now : Int)
    (state : OrganizationState) : OrganizationState :=
  { state with
    members :=
      if (state.memberRole redeemer).isOk then state.members
      else state.members ++ [{ principal := redeemer, role := invitation.standing }]
    grants := state.grants ++ [grant]
    invitations := updateFirst (fun record => record.invitation.id = invitation.id)
      (fun record => { record with
        invitation := { record.invitation with
          redeemed := some { principal := redeemer, moment := now, grant := grant.id } } })
      state.invitations }

end OrganizationState

/-! ## Operations -/

/-- An operation on one organization. -/
abbrev Policy := EStateM Error OrganizationState

open OrganizationState MonadExcept

def isHexDigit (c : Char) : Bool :=
  c.isDigit || ('a' ≤ c && c ≤ 'f') || ('A' ≤ c && c ≤ 'F')

def invite (minted : Minted) (actor : Principal) (project : ProjectId) (offer : InvitationOffer)
    (tokenSha256 : String) (now : Int) : Policy Invitation := do
  let state ← get
  let scope ← ofExcept (state.manageProject actor project now)
  ofExcept offer.window.validate
  refuseIf (offer.expiresAt ≤ now) (.invalid "an invitation must expire in the future")
  refuseIf (byteLength tokenSha256 ≠ 64 ∨ !tokenSha256.toList.all isHexDigit)
    (.invalid "the token digest is not a SHA-256")
  let label ← ofExcept (offer.label.mapM name)
  modify (forgetSpentInvitations now)
  let invitation : Invitation := {
    id := minted.invitation
    scope := scope
    role := offer.role
    window := offer.window
    expiresAt := offer.expiresAt
    createdBy := actor
    createdAt := now
    label := label
    standing := offer.standing
    redeemed := none }
  modify fun state => state.addInvitation { invitation := invitation, tokenSha256 := tokenSha256 }
  pure invitation

def revokeInvitation (actor : Principal) (invitation : InvitationId) (now : Int) :
    Policy Unit := do
  let state ← get
  let record ← ofExcept (okOr .notFound
    (state.invitations.find? fun record => record.invitation.id = invitation))
  let _ ← ofExcept (state.manageProject actor record.invitation.scope.project now)
  refuseIf record.invitation.redeemed.isSome .redeemed
  modify fun state => state.dropInvitation invitation

def redeem (minted : Minted) (tokenSha256 : String) (redeemer : Principal) (now : Int) :
    Policy Redeemed := do
  ofExcept redeemer.validate
  let state ← get
  let record ← ofExcept (okOr .notFound (state.offered tokenSha256))
  refuseIf record.invitation.redeemed.isSome .redeemed
  refuseIf (now ≥ record.invitation.expiresAt) .expired
  let invitation := record.invitation
  let project ← ofExcept (okOr .notFound
    (state.projects.find? fun project => project.scope = invitation.scope))
  let grant : Grant := {
    id := minted.grant
    scope := invitation.scope
    grantee := .user redeemer
    role := invitation.role
    window := invitation.window }
  modify (takeUp invitation grant redeemer now)
  pure {
    organization := state.organization
    project := project
    role := grant.role
    window := grant.window
    grant := grant.id }

/-! ## Commands -/

/-- The commands a project admin may give. -/
def Command.isGranting : Command → Bool
  | .grant .. => true
  | .revokeGrant .. => true
  | _ => false

def setMember (role : OrganizationRole) (principal : Principal) (next : OrganizationRole) :
    Policy Change := do
  ofExcept principal.validate
  let state ← get
  let previous := state.standing principal
  refuseIf (role ≠ .owner ∧
    (next ≠ .member ∨ previous.any fun role => role ≠ .member)) .forbidden
  ofExcept (if previous.isSome then state.keepOwner principal (some next) else .ok ())
  modify (seat principal next)
  pure .applied

def removeMember (role : OrganizationRole) (principal : Principal) : Policy Change := do
  let state ← get
  let previous ← ofExcept (state.memberRole principal)
  refuseIf (role ≠ .owner ∧ previous ≠ .member) .forbidden
  ofExcept (state.keepOwner principal none)
  modify (unseat principal)
  pure .applied

def createTeam (minted : Minted) (label : String) : Policy Change := do
  let state ← get
  let label ← ofExcept (name label)
  let team : Team := { id := minted.team, organization := state.organization.id, name := label }
  modify fun state => state.addTeam team
  pure (.teamCreated team)

def deleteTeam (team : TeamId) : Policy Change := do
  let state ← get
  refuseIf (!state.teams.any fun entry => entry.team.id = team) .notFound
  modify (disband team)
  pure .applied

def setTeamMember (team : TeamId) (principal : Principal) (present : Bool) : Policy Change := do
  let state ← get
  let role ← ofExcept (state.memberRole principal)
  refuseIf (role < .member) .forbidden
  refuseIf (!state.teams.any fun entry => entry.team.id = team) .notFound
  modify (setInTeam team principal present)
  pure .applied

/-- A creator's access is a grant committed with the project. -/
def createProject (minted : Minted) (actor : Principal) (label : String) (now : Int) :
    Policy Change := do
  let state ← get
  let label ← ofExcept (name label)
  let project : Project := {
    scope := { organization := state.organization.id, project := minted.project }
    name := label }
  let grant : Grant := {
    id := minted.grant
    scope := project.scope
    grantee := .user actor
    role := .admin
    window := GrantWindow.permanent now }
  modify fun state => state.addProject project grant
  pure (.projectCreated project)

/-- Whoever a new grant is for has to be here. -/
def checkGrantee (state : OrganizationState) : Grantee → Except Error Unit
  | .user user => (state.memberRole user).map fun _ => ()
  | .team team => refuseIf (!state.teams.any fun entry => entry.team.id = team) .notFound

def grant (minted : Minted) (actor : Principal) (project : ProjectId) (grantee : Grantee)
    (role : ProjectRole) (window : GrantWindow) (now : Int) : Policy Change := do
  let state ← get
  let scope ← ofExcept (state.manageProject actor project now)
  ofExcept window.validate
  ofExcept (checkGrantee state grantee)
  let grant : Grant := {
    id := minted.grant
    scope := scope
    grantee := grantee
    role := role
    window := window }
  modify fun state => state.addGrant grant
  pure (.grantCreated grant)

def revokeGrant (actor : Principal) (project : ProjectId) (grant : GrantId) (now : Int) :
    Policy Change := do
  let state ← get
  let scope ← ofExcept (state.manageProject actor project now)
  refuseIf (!state.grants.any fun entry => entry.id = grant && entry.scope = scope) .notFound
  modify fun state => state.dropGrant grant
  pure .applied

/-- Grants can be given by a project admin; everything else is the organization admin's. -/
def apply (minted : Minted) (actor : Principal) (command : Command) (now : Int) :
    Policy Change := do
  let state ← get
  let role ← ofExcept (state.memberRole actor)
  refuseIf (!command.isGranting ∧ role < .admin) .forbidden
  match command with
  | .setMember principal next => setMember role principal next
  | .removeMember principal => removeMember role principal
  | .createTeam label => createTeam minted label
  | .deleteTeam team => deleteTeam team
  | .setTeamMember team principal present => setTeamMember team principal present
  | .createProject label => createProject minted actor label now
  | .grant project grantee role window => grant minted actor project grantee role window now
  | .revokeGrant project grant => revokeGrant actor project grant now

/-! ## Acts -/

inductive Operation where
  | apply (command : Command)
  | invite (project : ProjectId) (offer : InvitationOffer) (tokenSha256 : String)
  | revokeInvitation (invitation : InvitationId)
  | redeem (tokenSha256 : String)
  deriving DecidableEq, Repr

/-- One operation: who asks for it and when, and the identifiers it may mint. -/
structure Act where
  actor : Principal
  operation : Operation
  minted : Minted
  now : Int
  deriving DecidableEq, Repr

inductive Answer where
  | changed (change : Change)
  | invited (invitation : Invitation)
  | revoked
  | redeemed (redeemed : Redeemed)
  deriving DecidableEq, Repr

def Act.run (act : Act) : Policy Answer :=
  match act.operation with
  | .apply command => do
      let change ← apply act.minted act.actor command act.now
      pure (.changed change)
  | .invite project offer tokenSha256 => do
      let invitation ← invite act.minted act.actor project offer tokenSha256 act.now
      pure (.invited invitation)
  | .revokeInvitation invitation => do
      revokeInvitation act.actor invitation act.now
      pure .revoked
  | .redeem tokenSha256 => do
      let redeemed ← redeem act.minted tokenSha256 act.actor act.now
      pure (.redeemed redeemed)

end Aiwatcher.Iam
