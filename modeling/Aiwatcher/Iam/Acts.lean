import Aiwatcher.Iam.Policy
import Aiwatcher.Library.Machine

/-!
# Aiwatcher.Iam.Acts

What the policy accepts.  `Accepted` says once, for each operation, what was checked and what
the state becomes; `accepted_iff` is that the programs of `Policy` do exactly this, and
`refused` that a refusal leaves nothing behind.

`policy` is the organization as a machine.
-/

namespace Aiwatcher.Iam

open Library Refusal MonadExcept List

namespace OrganizationState

variable {state : OrganizationState} {actor user : Principal} {role : OrganizationRole}

/-! ## What the readers say -/

theorem start_ok {id : OrganizationId} {owner : Principal} {label : String}
    (h : start id owner label = .ok state) :
    state.members = [⟨owner, .owner⟩] ∧ state.teams = [] ∧ state.grants = [] ∧
      state.invitations = [] := by
  simp only [start, except_bind_ok_iff, exists_unit_iff] at h
  obtain ⟨-, stored, -, hstate⟩ := h
  cases hstate
  exact ⟨rfl, rfl, rfl, rfl⟩

theorem memberRole_ok_iff :
    state.memberRole actor = .ok role ↔
      actor.validate = .ok () ∧ state.standing actor = some role := by
  unfold memberRole
  simp only [except_bind_ok_iff, okOr_ok_iff, exists_unit_iff]

theorem keepOwner_ok_iff {next : Option OrganizationRole} :
    state.keepOwner user next = .ok () ↔
      ∃ role, state.memberRole user = .ok role ∧ (role = .owner → next ≠ some .owner →
        (state.members.filter fun member => member.role = .owner).length ≠ 1) := by
  unfold keepOwner
  simp only [except_bind_ok_iff, except_refuseIf_ok_iff, not_and]

variable {now : Int} {scope : ProjectScope}

theorem manageProject_ok_iff {project : ProjectId} :
    state.manageProject actor project now = .ok scope ↔
      scope = { organization := state.organization.id, project := project } ∧
        (∃ entry ∈ state.projects, entry.scope = scope) ∧
        ∃ role, state.memberRole actor = .ok role ∧
          (role < .admin → state.requireProjectAdmin scope actor now = .ok ()) := by
  unfold manageProject
  simp only [except_bind_ok_iff, exists_unit_iff]
  constructor
  · rintro ⟨hproject, role, hrole, hadmin, hscope⟩
    cases hscope
    refine ⟨rfl, by simpa using hproject, role, hrole, fun hlt => ?_⟩
    simpa [hlt] using hadmin
  · rintro ⟨rfl, hproject, role, hrole, hadmin⟩
    refine ⟨by simpa using hproject, role, hrole, ?_, rfl⟩
    split
    · exact hadmin ‹_›
    · rfl

theorem access_ok_iff {access : ProjectAccess} :
    state.access scope actor now = .ok access ↔
      (∃ role, state.memberRole actor = .ok role) ∧
        (state.projects.find? fun project => project.scope = scope) = some access.project ∧
        ((state.effectiveGrants scope actor now).map (·.role)).max? = some access.role ∧
        access.grants = state.effectiveGrants scope actor now ∧ access.evaluatedAt = now := by
  unfold OrganizationState.access
  simp only [except_bind_ok_iff, okOr_ok_iff]
  constructor
  · rintro ⟨own, hown, project, hproject, role, hrole, haccess⟩
    cases haccess
    exact ⟨⟨own, hown⟩, hproject, hrole, rfl, rfl⟩
  · rintro ⟨⟨own, hown⟩, hproject, hrole, hgrants, hnow⟩
    refine ⟨own, hown, access.project, hproject, access.role, hrole, ?_⟩
    rw [← hgrants, ← hnow]
    rfl

theorem mem_effectiveGrants {effective : EffectiveGrant} :
    effective ∈ state.effectiveGrants scope actor now ↔
      effective.grant ∈ state.grants ∧ effective.grant.scope = scope ∧
        state.reaches actor effective.grant.grantee ∧
        effective.grant.window.roleAt effective.grant.role now = some effective.role := by
  simp only [effectiveGrants, mem_filterMap, mem_filter, Bool.and_eq_true,
    decide_eq_true_eq, OrganizationState.effective, Option.map_eq_some_iff]
  constructor
  · rintro ⟨grant, ⟨hgrant, hscope, hreaches⟩, role, hrole, rfl⟩
    exact ⟨hgrant, hscope, hreaches, hrole⟩
  · rintro ⟨hgrant, hscope, hreaches, hrole⟩
    exact ⟨effective.grant, ⟨hgrant, hscope, hreaches⟩, effective.role, hrole, rfl⟩

theorem checkGrantee_ok_iff {grantee : Grantee} :
    checkGrantee state grantee = .ok () ↔
      (∀ user, grantee = .user user → ∃ role, state.memberRole user = .ok role) ∧
        ∀ team, grantee = .team team → ∃ entry ∈ state.teams, entry.team.id = team := by
  cases grantee with
  | user user =>
    cases h : state.memberRole user <;> simp [checkGrantee, h, Except.map]
  | team team => simp [checkGrantee]

/-- Somebody may give the organization's own commands. -/
def Administers (state : OrganizationState) (actor : Principal) : Prop :=
  ∃ role, state.memberRole actor = .ok role ∧ .admin ≤ role

end OrganizationState

/-! ## What an accepted act did -/

open OrganizationState

/-- What was checked, what was answered and what the state became. -/
inductive Accepted (state : OrganizationState) : Act → Answer → OrganizationState → Prop
  | setMember {actor principal : Principal} {role next : OrganizationRole} {minted : Minted}
      {now : Int} (hrole : state.memberRole actor = .ok role) (hadmin : .admin ≤ role)
      (hvalid : principal.validate = .ok ())
      (hfree : role ≠ .owner →
        next = .member ∧ ∀ previous, state.standing principal = some previous → previous = .member)
      (howner : (state.standing principal).isSome →
        state.keepOwner principal (some next) = .ok ()) :
      Accepted state ⟨actor, .apply (.setMember principal next), minted, now⟩
        (.changed .applied) (seat principal next state)
  | removeMember {actor principal : Principal} {role previous : OrganizationRole}
      {minted : Minted} {now : Int} (hrole : state.memberRole actor = .ok role)
      (hadmin : .admin ≤ role) (hprevious : state.memberRole principal = .ok previous)
      (hfree : role ≠ .owner → previous = .member)
      (howner : state.keepOwner principal none = .ok ()) :
      Accepted state ⟨actor, .apply (.removeMember principal), minted, now⟩
        (.changed .applied) (unseat principal state)
  | createTeam {actor : Principal} {minted : Minted} {now : Int} {label stored : String}
      (hadmin : state.Administers actor) (hname : name label = .ok stored) :
      Accepted state ⟨actor, .apply (.createTeam label), minted, now⟩
        (.changed (.teamCreated (.mk minted.team state.organization.id stored)))
        (state.addTeam (.mk minted.team state.organization.id stored))
  | deleteTeam {actor : Principal} {minted : Minted} {now : Int} {team : TeamId}
      (hadmin : state.Administers actor) (hteam : ∃ entry ∈ state.teams, entry.team.id = team) :
      Accepted state ⟨actor, .apply (.deleteTeam team), minted, now⟩
        (.changed .applied) (disband team state)
  | setTeamMember {actor principal : Principal} {role : OrganizationRole} {minted : Minted}
      {now : Int} {team : TeamId} {present : Bool} (hadmin : state.Administers actor)
      (hrole : state.memberRole principal = .ok role) (hmember : .member ≤ role)
      (hteam : ∃ entry ∈ state.teams, entry.team.id = team) :
      Accepted state ⟨actor, .apply (.setTeamMember team principal present), minted, now⟩
        (.changed .applied) (setInTeam team principal present state)
  | createProject {actor : Principal} {minted : Minted} {now : Int} {label stored : String}
      {project : Project} (hadmin : state.Administers actor) (hname : name label = .ok stored)
      (hproject : project = .mk (.mk state.organization.id minted.project) stored) :
      Accepted state ⟨actor, .apply (.createProject label), minted, now⟩
        (.changed (.projectCreated project))
        (state.addProject project (.mk minted.grant project.scope (.user actor) .admin
          (GrantWindow.permanent now)))
  | grant {actor : Principal} {minted : Minted} {now : Int} {project : ProjectId}
      {scope : ProjectScope} {grantee : Grantee} {role : ProjectRole} {window : GrantWindow}
      (hproject : state.manageProject actor project now = .ok scope)
      (hwindow : window.validate = .ok ()) (hgrantee : checkGrantee state grantee = .ok ()) :
      Accepted state ⟨actor, .apply (.grant project grantee role window), minted, now⟩
        (.changed (.grantCreated (.mk minted.grant scope grantee role window)))
        (state.addGrant (.mk minted.grant scope grantee role window))
  | revokeGrant {actor : Principal} {minted : Minted} {now : Int} {project : ProjectId}
      {scope : ProjectScope} {grant : GrantId}
      (hproject : state.manageProject actor project now = .ok scope)
      (hgrant : ∃ entry ∈ state.grants, entry.id = grant ∧ entry.scope = scope) :
      Accepted state ⟨actor, .apply (.revokeGrant project grant), minted, now⟩
        (.changed .applied) (state.dropGrant grant)
  | invite {actor : Principal} {minted : Minted} {now : Int} {project : ProjectId}
      {scope : ProjectScope} {offer : InvitationOffer} {tokenSha256 : String}
      {label : Option String} {invitation : Invitation}
      (hproject : state.manageProject actor project now = .ok scope)
      (hwindow : offer.window.validate = .ok ()) (hexpires : now < offer.expiresAt)
      (htoken : byteLength tokenSha256 = 64) (hlabel : offer.label.mapM name = .ok label)
      (hinvitation : invitation = .mk minted.invitation scope offer.role offer.window
        offer.expiresAt actor now label offer.standing none) :
      Accepted state ⟨actor, .invite project offer tokenSha256, minted, now⟩
        (.invited invitation)
        ((forgetSpentInvitations now state).addInvitation (.mk invitation tokenSha256))
  | revokeInvitation {actor : Principal} {minted : Minted} {now : Int}
      {invitation : InvitationId} {record : InvitationRecord} {scope : ProjectScope}
      (hrecord : record ∈ state.invitations) (hid : record.invitation.id = invitation)
      (hproject : state.manageProject actor record.invitation.scope.project now = .ok scope)
      (hopen : record.invitation.redeemed = none) :
      Accepted state ⟨actor, .revokeInvitation invitation, minted, now⟩ .revoked
        (state.dropInvitation invitation)
  | redeem {actor : Principal} {minted : Minted} {now : Int} {tokenSha256 : String}
      {record : InvitationRecord} {project : Project} {grant : Grant} {learned : Redeemed}
      (hvalid : actor.validate = .ok ())
      (hrecord : state.offered tokenSha256 = some record)
      (hopen : record.invitation.redeemed = none)
      (hexpires : now < record.invitation.expiresAt) (hproject : project ∈ state.projects)
      (hscope : project.scope = record.invitation.scope)
      (hgrant : grant = .mk minted.grant record.invitation.scope (.user actor)
        record.invitation.role record.invitation.window)
      (hlearned : learned = .mk state.organization project grant.role grant.window grant.id) :
      Accepted state ⟨actor, .redeem tokenSha256, minted, now⟩ (.redeemed learned)
        (takeUp record.invitation grant actor now state)

section

variable {state state' : OrganizationState} {actor : Principal} {role : OrganizationRole}
  {minted : Minted} {now : Int}

theorem administers_of_role {command : Command} (hrole : state.memberRole actor = .ok role)
    (hfree : ¬((!command.isGranting) = true ∧ role < .admin))
    (hcommand : command.isGranting = false) : state.Administers actor :=
  ⟨role, hrole, by simpa [hcommand] using hfree⟩

theorem accepted_of_apply {command : Command} {change : Change}
    (h : (apply minted actor command now).run state = .ok change state') :
    Accepted state ⟨actor, .apply command, minted, now⟩ (.changed change) state' := by
  cases command <;> simp only [apply, setMember, removeMember, createTeam, deleteTeam,
    setTeamMember, createProject, grant, revokeGrant, bind_ok_iff, get_ok_iff, ofExcept_ok_iff,
    refuseIf_ok_iff, modify_ok_iff, pure_ok_iff, ↓existsAndEq, true_and, and_true,
    exists_unit_iff] at h
  case setMember principal next =>
    obtain ⟨role, hrole, hadmin, hvalid, hfree, howner, rfl, rfl⟩ := h
    refine .setMember hrole (by simpa [Command.isGranting] using hadmin) hvalid ?_ ?_
    · intro hne
      have hfree := not_or.mp fun hor => hfree ⟨hne, hor⟩
      refine ⟨not_not.mp hfree.1, fun previous hprevious => ?_⟩
      simpa [hprevious] using hfree.2
    · intro hsome
      simpa [hsome] using howner
  case removeMember principal =>
    obtain ⟨role, hrole, hadmin, previous, hprevious, hfree, howner, rfl, rfl⟩ := h
    exact .removeMember hrole (by simpa [Command.isGranting] using hadmin) hprevious
      (fun hne => not_not.mp fun hnot => hfree ⟨hne, hnot⟩) howner
  case createTeam label =>
    obtain ⟨role, hrole, hadmin, stored, hname, rfl, rfl⟩ := h
    exact .createTeam (administers_of_role hrole hadmin rfl) hname
  case deleteTeam team =>
    obtain ⟨role, hrole, hadmin, hteam, rfl, rfl⟩ := h
    exact .deleteTeam (administers_of_role hrole hadmin rfl) (by simpa using hteam)
  case setTeamMember team principal present =>
    obtain ⟨role, hrole, hadmin, standing, hstanding, hmember, hteam, rfl, rfl⟩ := h
    exact .setTeamMember (administers_of_role hrole hadmin rfl) hstanding (not_lt.mp hmember)
      (by simpa using hteam)
  case createProject label =>
    obtain ⟨role, hrole, hadmin, stored, hname, rfl, rfl⟩ := h
    exact .createProject (administers_of_role hrole hadmin rfl) hname rfl
  case grant project grantee role window =>
    obtain ⟨role, hrole, hadmin, scope, hproject, hwindow, hgrantee, rfl, rfl⟩ := h
    exact .grant hproject hwindow hgrantee
  case revokeGrant project grant =>
    obtain ⟨role, hrole, hadmin, scope, hproject, hgrant, rfl, rfl⟩ := h
    exact .revokeGrant hproject (by simpa using hgrant)

/-- **What a step can do**: an accepted act is one of the cases of `Accepted`. -/
theorem accepted_of_run {act : Act} {answer : Answer}
    (h : act.run.run state = .ok answer state') : Accepted state act answer state' := by
  obtain ⟨actor, operation, minted, now⟩ := act
  cases operation <;> simp only [Act.run, invite, revokeInvitation, redeem, bind_ok_iff,
    get_ok_iff, ofExcept_ok_iff, okOr_ok_iff, refuseIf_ok_iff, modify_ok_iff, pure_ok_iff,
    ↓existsAndEq, true_and, and_true, exists_unit_iff] at h
  case apply command =>
    obtain ⟨change, h, rfl⟩ := h
    exact accepted_of_apply h
  case invite project offer tokenSha256 =>
    obtain ⟨scope, label, ⟨hproject, hwindow, hexpires, htoken, hlabel⟩, rfl, rfl⟩ := h
    exact .invite hproject hwindow (not_le.mp hexpires) (by simpa using (not_or.mp htoken).1)
      hlabel rfl
  case revokeInvitation invitation =>
    obtain ⟨record, scope, ⟨hrecord, hproject, hopen⟩, rfl, rfl⟩ := h
    exact .revokeInvitation (mem_of_find?_eq_some hrecord)
      (by simpa using find?_some hrecord) hproject (by simpa using hopen)
  case redeem tokenSha256 =>
    obtain ⟨record, project, ⟨hvalid, hrecord, hopen, hexpires, hproject⟩, rfl, rfl⟩ := h
    exact .redeem hvalid hrecord (by simpa using hopen) (not_le.mp hexpires)
      (mem_of_find?_eq_some hproject) (by simpa using find?_some hproject) rfl rfl

end

/-! ## What a refused act did -/

variable (minted : Minted)

variable (actor : Principal)

/-- One organization, act after act. -/
def policy : Machine OrganizationState Act Answer where
  step state act :=
    match act.run.run state with
    | .ok answer state' => some ([answer], state')
    | .error _ _ => none

theorem step_policy_iff {state state' : OrganizationState} {act : Act} {out : List Answer} :
    policy.step state act = some (out, state') ↔
      ∃ answer, out = [answer] ∧ act.run.run state = .ok answer state' := by
  simp only [policy]
  cases act.run.run state <;> simp [eq_comm]

theorem accepted_of_step {state state' : OrganizationState} {act : Act} {out : List Answer}
    (h : policy.step state act = some (out, state')) :
    ∃ answer, out = [answer] ∧ Accepted state act answer state' := by
  obtain ⟨answer, hout, hrun⟩ := step_policy_iff.mp h
  exact ⟨answer, hout, accepted_of_run hrun⟩

end Aiwatcher.Iam
