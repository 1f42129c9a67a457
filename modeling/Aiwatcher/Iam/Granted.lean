import Aiwatcher.Iam.Revoked

/-!
# Aiwatcher.Iam.Granted

A role on a project comes from the grants and from nothing else.  In a stored state `access`
answers the greatest of what the grants leave, and two states that agree on the grants of a
project and on somebody's teams give them the same role, whoever they are in either
organization.
-/

namespace Aiwatcher.Iam

open Library Refusal OrganizationState

namespace OrganizationState

variable {state other : OrganizationState} {scope : ProjectScope} {principal : Principal}
  {now : Int} {role : ProjectRole}

/-- A grant is somebody's own or one of their teams'. -/
def Names (state : OrganizationState) (principal : Principal) (grantee : Grantee) : Prop :=
  grantee = .user principal ∨ ∃ team, grantee = .team team ∧ state.Seated team principal

/-- The roles that live grants of a project leave somebody. -/
def granted (state : OrganizationState) : ProjectScope → Principal → Int → Set ProjectRole :=
  roles (· ∈ state.grants) state.Seated

/-- The role `access` answers. -/
def roleOn (state : OrganizationState) (scope : ProjectScope) (principal : Principal)
    (now : Int) : Option ProjectRole :=
  (state.access scope principal now).toOption.map (·.role)

/-- Two states hold the same grants of a project for somebody, who is in the same teams. -/
structure AgreeFor (state other : OrganizationState) (scope : ProjectScope)
    (principal : Principal) : Prop where
  teams : ∀ team, state.Seated team principal ↔ other.Seated team principal
  grants : ∀ grant, grant.scope = scope → state.Names principal grant.grantee →
    (grant ∈ state.grants ↔ grant ∈ other.grants)

theorem mem_granted : role ∈ state.granted scope principal now ↔
    ∃ grant ∈ state.grants, grant.scope = scope ∧ state.Names principal grant.grantee ∧
      grant.window.roleAt grant.role now = some role :=
  Iff.rfl

theorem AgreeFor.granted_eq (h : AgreeFor state other scope principal) :
    state.granted scope principal now = other.granted scope principal now := by
  have hnames : ∀ grantee, state.Names principal grantee ↔ other.Names principal grantee := by
    simp [Names, h.teams]
  ext role
  simp only [mem_granted, ← hnames]
  constructor
  · rintro ⟨grant, hgrant, hscope, hgrantee, hrole⟩
    exact ⟨grant, (h.grants grant hscope hgrantee).mp hgrant, hscope, hgrantee, hrole⟩
  · rintro ⟨grant, hgrant, hscope, hgrantee, hrole⟩
    exact ⟨grant, (h.grants grant hscope hgrantee).mpr hgrant, hscope, hgrantee, hrole⟩

/-! ## Whom a stored grant names -/

theorem Sound.mem_principals_of_names (sound : state.Sound) {grant : Grant}
    (hgrant : grant ∈ state.grants) (hnames : state.Names principal grant.grantee) :
    principal ∈ state.principals := by
  have hheld : state.holdsGrantee grant.grantee := (sound.grant grant hgrant).2.2
  obtain hgrantee | ⟨team, -, record, hrecord, -, hmember⟩ := hnames
  · rw [hgrantee] at hheld
    exact List.contains_iff_mem.mp hheld
  · exact (sound.team record hrecord).2.2.1 principal hmember

theorem Sound.memberRole_of_mem (sound : state.Sound) (h : principal ∈ state.principals) :
    ∃ standing, state.memberRole principal = .ok standing := by
  obtain ⟨member, hmember, hprincipal⟩ := List.mem_map.mp h
  have hvalid : principal.validate = .ok () := hprincipal ▸ sound.principals member hmember
  obtain ⟨standing, hstanding⟩ := Option.isSome_iff_exists.mp (standing_isSome_iff.mpr h)
  exact ⟨standing, memberRole_ok_iff.mpr ⟨hvalid, hstanding⟩⟩

theorem Sound.exists_project (sound : state.Sound) (h : state.HoldsScope scope) :
    ∃ project ∈ state.projects, project.scope = scope := by
  obtain ⟨horganization, hproject⟩ := h
  obtain ⟨project, hmem, hid⟩ := List.mem_map.mp hproject
  have hother := (sound.project project hmem).2
  refine ⟨project, hmem, ?_⟩
  cases hp : project.scope
  cases scope
  simp_all

/-! ## What `access` answers -/

theorem exists_isGreatest {roles : Set ProjectRole} (h : roles.Nonempty) :
    ∃ top, IsGreatest roles top := by
  by_cases hadmin : .admin ∈ roles
  · exact ⟨.admin, hadmin, fun role _ => by cases role <;> decide⟩
  by_cases heditor : .editor ∈ roles
  · refine ⟨.editor, heditor, fun role hrole => ?_⟩
    cases role <;> first | contradiction | decide
  · obtain ⟨role, hrole⟩ := h
    refine ⟨.viewer, ?_, fun other _ => ?_⟩
    · cases role <;> first | contradiction | assumption
    · cases other <;> first | contradiction | decide

theorem Sound.roleOn_eq_some_iff (sound : state.Sound) :
    state.roleOn scope principal now = some role ↔
      IsGreatest (state.granted scope principal now) role := by
  have hanswers : state.roleOn scope principal now = some role ↔
      ∃ access, state.access scope principal now = .ok access ∧ access.role = role := by
    cases haccess : state.access scope principal now <;>
      simp [roleOn, haccess, Except.toOption]
  rw [hanswers, accessIs state scope principal now role]
  constructor
  · exact fun h => h.2.2
  · intro h
    obtain ⟨grant, hgrant, hscope, hnames, -⟩ := h.1
    have hmember := sound.memberRole_of_mem (sound.mem_principals_of_names hgrant hnames)
    exact ⟨hmember, sound.exists_project (hscope ▸ (sound.grant grant hgrant).2.1), h⟩

/-- Roles that somebody is left have a greatest one. -/
theorem Sound.roleOn_eq_none_iff (sound : state.Sound) :
    state.roleOn scope principal now = none ↔ state.granted scope principal now = ∅ := by
  constructor
  · intro h
    by_contra hne
    obtain ⟨top, htop⟩ := exists_isGreatest (Set.nonempty_iff_ne_empty.mpr hne)
    rw [sound.roleOn_eq_some_iff.mpr htop] at h
    cases h
  · intro h
    cases hrole : state.roleOn scope principal now with
    | none => rfl
    | some role =>
      have hgreatest := sound.roleOn_eq_some_iff.mp hrole
      simp [h, IsGreatest] at hgreatest

end OrganizationState

/-- **Access is exactly the grants**: in a stored state the role is the greatest one that a
live grant of the project leaves, its grantee being the principal or a team of theirs, and
there is none where there is no such grant, whatever the principal is in the organization;
two stored states that agree on these grants and teams give one role. -/
theorem access_is_the_grants {state : OrganizationState} (hvalid : state.validate = .ok ())
    (scope : ProjectScope) (principal : Principal) (now : Int) :
    (∀ role, state.roleOn scope principal now = some role ↔
        IsGreatest (state.granted scope principal now) role) ∧
      (state.roleOn scope principal now = none ↔
        state.granted scope principal now = ∅) ∧
      ∀ other : OrganizationState, other.validate = .ok () →
        AgreeFor state other scope principal →
          state.roleOn scope principal now = other.roleOn scope principal now := by
  have sound : state.Sound := (validate_ok_iff.mp hvalid).1
  refine ⟨fun role => sound.roleOn_eq_some_iff, sound.roleOn_eq_none_iff, ?_⟩
  intro other hother hagree
  have hsound : other.Sound := (validate_ok_iff.mp hother).1
  ext role
  rw [sound.roleOn_eq_some_iff, hsound.roleOn_eq_some_iff, hagree.granted_eq]

/-- The founder's project and a team that edits it, with a guest in the team. -/
def shared : OrganizationState :=
  { founded with
    members := [⟨founder, .owner⟩, ⟨guest, .guest⟩]
    teams := [⟨⟨⟨2⟩, ⟨1⟩, "Lab"⟩, [guest]⟩]
    projects := [⟨⟨⟨1⟩, ⟨3⟩⟩, "Demo"⟩]
    grants := [⟨⟨4⟩, ⟨⟨1⟩, ⟨3⟩⟩, .team ⟨2⟩, .editor, .permanent 10⟩] }

/-- The guest edits by their team, and would as an admin; the owner reaches nothing. -/
theorem access_is_the_grants_shared :
    IsGreatest (shared.granted ⟨⟨1⟩, ⟨3⟩⟩ guest 20) .editor ∧
      shared.granted ⟨⟨1⟩, ⟨3⟩⟩ founder 20 = ∅ ∧
      shared.roleOn ⟨⟨1⟩, ⟨3⟩⟩ guest 20 =
        { shared with members := [⟨founder, .owner⟩, ⟨guest, .admin⟩] }.roleOn
          ⟨⟨1⟩, ⟨3⟩⟩ guest 20 := by
  have hvalid : shared.validate = .ok () := by decide +kernel
  refine ⟨?_, ?_, ?_⟩
  · exact ((access_is_the_grants hvalid _ guest 20).1 .editor).mp (by decide +kernel)
  · exact (access_is_the_grants hvalid _ founder 20).2.1.mp (by decide +kernel)
  · exact (access_is_the_grants hvalid _ guest 20).2.2 _ (by decide +kernel)
      ⟨fun _ => Iff.rfl, fun _ _ _ => Iff.rfl⟩

/-! ## Nothing is lost by itself -/

/-- An act that gives leaves every grant and every seat. -/
theorem kept_of_accepted {state state' : OrganizationState} {act : Act} {answer : Answer}
    (sound : state.Sound) (hstep : Accepted state act answer state')
    (hgives : ∀ command, act.operation = .apply command → command.takesAway = false) :
    state.grants ⊆ state'.grants ∧ ∀ team q, state.Seated team q → state'.Seated team q := by
  cases hstep with
  | removeMember | deleteTeam | revokeGrant => cases hgives _ rfl
  | setMember =>
    rw [seat_eq]
    exact ⟨List.Subset.refl _, fun _ _ h => h⟩
  | createTeam =>
    exact ⟨List.Subset.refl _, fun team q ⟨record, hrecord, h⟩ =>
      ⟨record, List.mem_append_left _ hrecord, h⟩⟩
  | setTeamMember _ _ _ hteam =>
    have hpresent := hgives _ rfl
    simp only [Command.takesAway, Bool.not_eq_false'] at hpresent
    refine ⟨List.Subset.refl _, fun team q h => ?_⟩
    rw [seated_setInTeam sound.teams hteam]
    grind
  | createProject | grant | redeem => exact ⟨List.subset_append_left _ _, fun _ _ h => h⟩
  | invite | revokeInvitation => exact ⟨List.Subset.refl _, fun _ _ h => h⟩

/-- **Nobody loses a role by themselves**: as long as no act removes a member, deletes a team, takes
somebody out of one or revokes a grant, nobody's role on any project gets lower, whatever else is
done and at whatever moment it is asked for. -/
theorem roles_only_grow {state : OrganizationState} (hvalid : state.validate = .ok ())
    (acts : List Act) (hfresh : ∀ st ∈ policy.run state acts, st.before.Fresh st.input.minted)
    (hgives : ∀ act ∈ acts, ∀ command, act.operation = .apply command → command.takesAway = false)
    {scope : ProjectScope} {principal : Principal} {now : Int} {role : ProjectRole}
    (hrole : state.roleOn scope principal now = some role) :
    ∃ higher, (policy.last state acts).roleOn scope principal now = some higher ∧ role ≤ higher := by
  have sound : state.Sound := (validate_ok_iff.mp hvalid).1
  obtain ⟨hsound, hgrants, hseats⟩ := Machine.inv_last_of_admits (M := policy)
    (fun later => later.Sound ∧ state.grants ⊆ later.grants ∧
      ∀ team q, state.Seated team q → later.Seated team q)
    (fun before act => before.Fresh act.minted ∧
      ∀ command, act.operation = .apply command → command.takesAway = false)
    (fun before act out after h hadmits hstep => by
      obtain ⟨answer, -, haccepted⟩ := accepted_of_step hstep
      obtain ⟨hgrants, hseats⟩ := kept_of_accepted h.1 haccepted hadmits.2
      exact ⟨h.1.accepted hadmits.1 haccepted, List.Subset.trans h.2.1 hgrants,
        fun team q hin => hseats team q (h.2.2 team q hin)⟩)
    ⟨sound, List.Subset.refl _, fun _ _ h => h⟩
    (fun st hst => ⟨hfresh st hst, hgives st.input (Machine.input_mem_of_mem_run hst)⟩)
  have hheld := sound.roleOn_eq_some_iff.mp hrole
  have hsub : state.granted scope principal now ⊆
      (policy.last state acts).granted scope principal now := by
    rintro r ⟨grant, hgrant, hscope, hnames, hlive⟩
    exact ⟨grant, hgrants hgrant, hscope, hnames.imp_right fun ⟨team, hteam, hin⟩ =>
      ⟨team, hteam, hseats team principal hin⟩, hlive⟩
  obtain ⟨higher, hhigher⟩ := exists_isGreatest ⟨role, hsub hheld.1⟩
  exact ⟨higher, hsound.roleOn_eq_some_iff.mpr hhigher, hhigher.2 (hsub hheld.1)⟩

/-- The guest's team gets a second member, and the guest still edits. -/
theorem roles_only_grow_shared : ∃ higher,
    (policy.last shared [⟨founder, .apply (.setTeamMember ⟨2⟩ founder true),
      mint 5, 15⟩]).roleOn ⟨⟨1⟩, ⟨3⟩⟩ guest 20 = some higher ∧ .editor ≤ higher :=
  roles_only_grow (by decide +kernel) _ (by decide +kernel) (by simp [Command.takesAway])
    (by decide +kernel)

end Aiwatcher.Iam
