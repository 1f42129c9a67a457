import Aiwatcher.Iam.Acts
import Mathlib.Data.List.DropRight

/-!
# Aiwatcher.Iam.Valid

Which states can be stored.  `Sound` and `RedeemersHeld` are what `validate` checks, the
second being the one clause about who redeemed an offer; every accepted act keeps `Sound`,
and removing a member is the one that does not keep the other.
-/

namespace Aiwatcher.Iam

open Library Refusal List

/-! ## Names -/

theorem trim_eq_rdropWhile (s : String) :
    trim s = String.ofList ((s.toList.dropWhile isWhitespace).rdropWhile isWhitespace) := rfl

/-- What is left after both ends are dropped begins with an element that stays. -/
theorem dropWhile_rdropWhile {α : Type} (p : α → Bool) (l : List α) :
    ((l.dropWhile p).rdropWhile p).dropWhile p = (l.dropWhile p).rdropWhile p := by
  have hfront : (l.dropWhile p).rdropWhile p <+: l.dropWhile p := rdropWhile_prefix p _
  rw [dropWhile_eq_self_iff]
  intro hlength
  rw [hfront.getElem hlength]
  exact dropWhile_get_zero_not p l (Nat.lt_of_lt_of_le hlength hfront.length_le)

theorem trim_trim (s : String) : trim (trim s) = trim s := by
  rw [trim_eq_rdropWhile, trim_eq_rdropWhile, String.toList_ofList, dropWhile_rdropWhile,
    rdropWhile_idempotent]

theorem name_of_name {label stored : String} (h : name label = .ok stored) :
    name stored = .ok stored := by
  unfold name at h
  dsimp only at h
  split at h
  · cases h
  · rename_i hfine
    cases h
    unfold name
    dsimp only
    rw [trim_trim, if_neg hfine]

/-! ## What `validate` checks -/

namespace OrganizationState

/-- Whom the organization holds. -/
def principals (state : OrganizationState) : List Principal := state.members.map (·.principal)

/-- A scope names a project of the organization. -/
def HoldsScope (state : OrganizationState) (scope : ProjectScope) : Prop :=
  scope.organization = state.organization.id ∧
    scope.project ∈ state.projects.map (·.scope.project)

/-- Everything `validate` checks but who redeemed the offers. -/
structure Sound (state : OrganizationState) : Prop where
  version : state.schemaVersion = SCHEMA_VERSION
  named : ∃ stored, name state.organization.name = .ok stored
  members : state.principals.Nodup
  owner : ∃ member ∈ state.members, member.role = .owner
  principals : ∀ member ∈ state.members, member.principal.validate = .ok ()
  projects : (state.projects.map (·.scope.project)).Nodup
  teams : (state.teams.map (·.team.id)).Nodup
  grants : (state.grants.map (·.id)).Nodup
  offers : (state.invitations.map (·.invitation.id)).Nodup
  project : ∀ project ∈ state.projects, (∃ stored, name project.name = .ok stored) ∧
    project.scope.organization = state.organization.id
  team : ∀ record ∈ state.teams, (∃ stored, name record.team.name = .ok stored) ∧
    record.team.organization = state.organization.id ∧
    (∀ member ∈ record.members, member ∈ state.principals) ∧ record.members.Nodup
  offer : ∀ record ∈ state.invitations, record.invitation.window.validate = .ok () ∧
    record.invitation.createdBy.validate = .ok () ∧
    state.HoldsScope record.invitation.scope ∧ byteLength record.tokenSha256 = 64
  grant : ∀ grant ∈ state.grants, grant.window.validate = .ok () ∧
    state.HoldsScope grant.scope ∧ state.holdsGrantee grant.grantee

/-- Whoever redeemed an offer is a member. -/
def RedeemersHeld (state : OrganizationState) : Prop :=
  ∀ record ∈ state.invitations, ∀ redemption,
    record.invitation.redeemed = some redemption → redemption.principal ∈ state.principals

variable {state : OrganizationState}

theorem validateProject_ok_iff {project : Project} :
    state.validateProject project = .ok () ↔ (∃ stored, name project.name = .ok stored) ∧
      project.scope.organization = state.organization.id := by
  simp only [validateProject, except_bind_ok_iff, except_refuseIf_ok_iff, exists_and_right, not_not]

theorem validateTeam_ok_iff {record : TeamRecord} :
    state.validateTeam record = .ok () ↔ (∃ stored, name record.team.name = .ok stored) ∧
      record.team.organization = state.organization.id ∧
      (∀ member ∈ record.members, member ∈ state.principals) ∧ record.members.Nodup := by
  simp only [validateTeam, except_bind_ok_iff, except_refuseIf_ok_iff, exists_and_right,
    not_or, not_not]
  simp [distinct_iff_nodup, principals]

variable {grant : Grant} {principal : Principal} {record : InvitationRecord}

theorem validateInvitation_ok_iff :
    state.validateInvitation record = .ok () ↔ (record.invitation.window.validate = .ok () ∧
        record.invitation.createdBy.validate = .ok () ∧
        state.HoldsScope record.invitation.scope ∧ byteLength record.tokenSha256 = 64) ∧
      ∀ redemption, record.invitation.redeemed = some redemption →
        redemption.principal ∈ state.principals := by
  simp only [validateInvitation, except_bind_ok_iff, except_refuseIf_ok_iff, exists_unit_iff,
    not_or, not_not, and_assoc, HoldsScope]
  cases record.invitation.redeemed <;> simp [principals]

theorem validateGrant_ok_iff :
    state.validateGrant grant = .ok () ↔ grant.window.validate = .ok () ∧
      state.HoldsScope grant.scope ∧ state.holdsGrantee grant.grantee := by
  simp only [validateGrant, except_bind_ok_iff, except_refuseIf_ok_iff, exists_unit_iff,
    not_or, not_not, HoldsScope]
  simp [and_assoc]

/-- **What is checked before a state is stored.** -/
theorem validate_ok_iff : state.validate = .ok () ↔ state.Sound ∧ state.RedeemersHeld := by
  simp only [validate, except_bind_ok_iff, except_refuseIf_ok_iff, exists_unit_iff,
    forM_ok_iff, not_or, not_not, validateProject_ok_iff, validateTeam_ok_iff,
    validateInvitation_ok_iff, validateGrant_ok_iff, exists_and_right]
  simp only [Bool.not_eq_true', Bool.not_eq_false, distinct_iff_nodup, any_eq_true,
    decide_eq_true_eq]
  constructor
  · rintro ⟨hversion, hnamed, ⟨hmembers, howner⟩, hprincipals, ⟨hprojects, hteams, hgrants⟩,
      hproject, hteam, hoffers, hoffer, hgrant⟩
    exact ⟨⟨hversion, hnamed, hmembers, howner, hprincipals, hprojects, hteams, hgrants, hoffers,
      hproject, hteam, fun record hrecord => (hoffer record hrecord).1, hgrant⟩,
      fun record hrecord => (hoffer record hrecord).2⟩
  · rintro ⟨sound, hredeemers⟩
    exact ⟨sound.version, sound.named, ⟨sound.members, sound.owner⟩, sound.principals,
      ⟨sound.projects, sound.teams, sound.grants⟩, sound.project, sound.team, sound.offers,
      fun record hrecord => ⟨sound.offer record hrecord, hredeemers record hrecord⟩, sound.grant⟩

/-! ## What keeps it -/

/-- None of the new identifiers is held. -/
structure Fresh (state : OrganizationState) (minted : Minted) : Prop where
  team : minted.team ∉ state.teams.map (·.team.id)
  project : minted.project ∉ state.projects.map (·.scope.project)
  grant : minted.grant ∉ state.grants.map (·.id)
  invitation : minted.invitation ∉ state.invitations.map (·.invitation.id)

theorem fresh_iff {minted : Minted} : state.Fresh minted ↔
    minted.team ∉ state.teams.map (·.team.id) ∧
      minted.project ∉ state.projects.map (·.scope.project) ∧
      minted.grant ∉ state.grants.map (·.id) ∧
      minted.invitation ∉ state.invitations.map (·.invitation.id) :=
  ⟨fun h => ⟨h.team, h.project, h.grant, h.invitation⟩, fun h => ⟨h.1, h.2.1, h.2.2.1, h.2.2.2⟩⟩

instance (minted : Minted) : Decidable (state.Fresh minted) := decidable_of_iff' _ fresh_iff

theorem holdsGrantee_mono {state' : OrganizationState} {grantee : Grantee}
    (hprincipals : state.principals ⊆ state'.principals)
    (hteams : state.teams.map (·.team.id) ⊆ state'.teams.map (·.team.id))
    (h : state.holdsGrantee grantee) : state'.holdsGrantee grantee := by
  cases grantee with
  | user user => exact contains_iff_mem.mpr (hprincipals (contains_iff_mem.mp h))
  | team team => exact contains_iff_mem.mpr (hteams (contains_iff_mem.mp h))

theorem standing_eq_some_iff (hmembers : state.principals.Nodup) {role : OrganizationRole} :
    state.standing principal = some role ↔ ⟨principal, role⟩ ∈ state.members := by
  constructor
  · intro h
    obtain ⟨member, hfind, rfl⟩ := Option.map_eq_some_iff.mp h
    have hprincipal : member.principal = principal := by simpa using find?_some hfind
    subst hprincipal
    exact mem_of_find?_eq_some hfind
  · intro h
    have hsome : (state.members.find? fun member => member.principal = principal).isSome :=
      find?_isSome.mpr ⟨_, h, by simp⟩
    obtain ⟨member, hfind⟩ := Option.isSome_iff_exists.mp hsome
    have hsame : member.principal = principal := by simpa using find?_some hfind
    have hmember : member = ⟨principal, role⟩ :=
      inj_on_of_nodup_map hmembers (mem_of_find?_eq_some hfind) h hsame
    simp [standing, hfind, hmember]

theorem standing_isSome_iff : (state.standing principal).isSome ↔ principal ∈ state.principals := by
  simp [standing, principals]

theorem mem_principals_of_memberRole {role : OrganizationRole}
    (h : state.memberRole principal = .ok role) : principal ∈ state.principals := by
  rw [← standing_isSome_iff, (memberRole_ok_iff.mp h).2]
  rfl

/-- The rule about the last owner: whoever may stop being one leaves another behind. -/
theorem exists_other_owner (sound : state.Sound) {user : Principal}
    {next : Option OrganizationRole} (hkeep : state.keepOwner user next = .ok ())
    (hnext : next ≠ some .owner) :
    ∃ member ∈ state.members, member.role = .owner ∧ member.principal ≠ user := by
  obtain ⟨role, hrole, howners⟩ := keepOwner_ok_iff.mp hkeep
  by_contra hnone
  have hall : ∀ member ∈ state.members, member.role = .owner → member = ⟨user, .owner⟩ := by
    intro member hmember hrole
    have hprincipal : member.principal = user :=
      not_not.mp fun hne => hnone ⟨member, hmember, hrole, hne⟩
    rw [← hprincipal, ← hrole]
  obtain ⟨owner, howner, hownerRole⟩ := sound.owner
  have huser : ⟨user, .owner⟩ ∈ state.members := hall owner howner hownerRole ▸ howner
  have hstanding := (standing_eq_some_iff sound.members).mpr huser
  rw [(memberRole_ok_iff.mp hrole).2, Option.some.injEq] at hstanding
  have hperm : (state.members.filter fun member => member.role = .owner).Perm
      [⟨user, .owner⟩] := by
    refine (perm_ext_iff_of_nodup (.filter _ (.of_map _ sound.members))
      (nodup_singleton _)).mpr fun member => ?_
    simp only [mem_filter, decide_eq_true_eq, mem_singleton]
    exact ⟨fun h => hall member h.1 h.2, fun h => h ▸ ⟨huser, rfl⟩⟩
  exact howners hstanding hnext (by simpa using hperm.length_eq)

/-! ### Seating and unseating -/

theorem mem_members_seat (hmembers : state.principals.Nodup) {principal : Principal}
    {next : OrganizationRole} {member : Member} :
    member ∈ (seat principal next state).members ↔
      (member ∈ state.members ∧ member.principal ≠ principal) ∨ member = ⟨principal, next⟩ := by
  unfold seat
  split
  · rename_i hheld
    rw [updateFirst_eq_map hmembers, mem_map]
    obtain ⟨held, hmem, hprincipal⟩ := by simpa using hheld
    constructor
    · rintro ⟨old, hold, rfl⟩
      by_cases heq : old.principal = principal
      · simp [heq]
      · simp [heq, hold]
    · rintro (⟨hmember, hne⟩ | rfl)
      · exact ⟨member, hmember, by simp [hne]⟩
      · exact ⟨held, hmem, by simp [hprincipal]⟩
  · rename_i hnew
    have hnew : ∀ member ∈ state.members, member.principal ≠ principal := by simpa using hnew
    simp only [mem_append, mem_singleton]
    exact or_congr_left ⟨fun h => ⟨h, hnew member h⟩, fun h => h.1⟩

theorem principals_seat (principal : Principal) (next : OrganizationRole) :
    (seat principal next state).principals = state.principals ∨
      principal ∉ state.principals ∧
        (seat principal next state).principals = state.principals ++ [principal] := by
  unfold seat principals
  split
  · refine .inl (map_updateFirst ?_ _)
    simp
  · rename_i h
    exact .inr ⟨by simpa using h, by simp⟩

theorem principals_subset_seat (principal : Principal) (next : OrganizationRole) :
    state.principals ⊆ (seat principal next state).principals := by
  rcases @principals_seat state principal next with h | ⟨-, h⟩
  · exact h ▸ List.Subset.refl _
  · exact h ▸ subset_append_left _ _

theorem Sound.withMembers (sound : state.Sound) {members : List Member}
    (hnodup : (members.map (·.principal)).Nodup)
    (howner : ∃ member ∈ members, member.role = .owner)
    (hvalid : ∀ member ∈ members, member.principal.validate = .ok ())
    (hsub : state.principals ⊆ members.map (·.principal)) :
    Sound { state with members := members } where
  version := sound.version
  named := sound.named
  members := hnodup
  owner := howner
  principals := hvalid
  projects := sound.projects
  teams := sound.teams
  grants := sound.grants
  offers := sound.offers
  project := sound.project
  team record hrecord :=
    have h := sound.team record hrecord
    ⟨h.1, h.2.1, fun member hmember => hsub (h.2.2.1 member hmember), h.2.2.2⟩
  offer := sound.offer
  grant grant hgrant :=
    have h := sound.grant grant hgrant
    ⟨h.1, h.2.1, holdsGrantee_mono hsub (List.Subset.refl _) h.2.2⟩

theorem seat_eq (principal : Principal) (next : OrganizationRole) :
    seat principal next state = { state with members := (seat principal next state).members } := by
  unfold seat
  split <;> rfl

theorem Sound.seat (sound : state.Sound) {next : OrganizationRole}
    (hvalid : principal.validate = .ok ())
    (howner : (state.standing principal).isSome →
      state.keepOwner principal (some next) = .ok ()) :
    (seat principal next state).Sound := by
  have hmem := @mem_members_seat state sound.members principal next
  have hprincipals := @principals_seat state principal next
  rw [seat_eq]
  refine sound.withMembers ?_ ?_ ?_ ?_
  · change (OrganizationState.seat principal next state).principals.Nodup
    rcases hprincipals with h | ⟨hnew, h⟩
    · exact h ▸ sound.members
    · exact h ▸ sound.members.append (nodup_singleton _) (by simpa using hnew)
  · by_cases hnext : next = .owner
    · exact ⟨⟨principal, next⟩, hmem.mpr (.inr rfl), hnext⟩
    · by_cases hheld : (state.standing principal).isSome
      · obtain ⟨owner, howner, hrole, hne⟩ :=
          exists_other_owner sound (howner hheld) (by simpa using hnext)
        exact ⟨owner, hmem.mpr (.inl ⟨howner, hne⟩), hrole⟩
      · obtain ⟨owner, howner, hrole⟩ := sound.owner
        refine ⟨owner, hmem.mpr (.inl ⟨howner, fun heq => hheld ?_⟩), hrole⟩
        exact standing_isSome_iff.mpr (heq ▸ mem_map_of_mem howner)
  · intro member hmember
    rcases hmem.mp hmember with h | rfl
    · exact sound.principals member h.1
    · exact hvalid
  · exact principals_subset_seat principal next

theorem principals_unseat (principal : Principal) :
    (unseat principal state).principals =
      state.principals.filter fun held => held ≠ principal := by
  simp only [principals, unseat, filter_map]
  rfl

theorem Sound.unseat (sound : state.Sound) (howner : state.keepOwner principal none = .ok ()) :
    (unseat principal state).Sound where
  version := sound.version
  named := sound.named
  members := principals_unseat principal ▸ sound.members.filter _
  owner := by
    obtain ⟨owner, hmember, hrole, hne⟩ := exists_other_owner sound howner (by simp)
    exact ⟨owner, mem_filter.mpr ⟨hmember, by simpa using hne⟩, hrole⟩
  principals member hmember := sound.principals member (mem_of_mem_filter hmember)
  projects := sound.projects
  teams := by
    simpa [OrganizationState.unseat, Function.comp_def] using sound.teams
  grants := sound.grants.sublist (List.filter_sublist.map _)
  offers := sound.offers
  project := sound.project
  team record hrecord := by
    obtain ⟨old, hold, rfl⟩ := mem_map.mp hrecord
    have h := sound.team old hold
    refine ⟨h.1, h.2.1, fun member hmember => ?_, h.2.2.2.filter _⟩
    rw [principals_unseat]
    obtain ⟨hmember, hne⟩ := mem_filter.mp hmember
    exact mem_filter.mpr ⟨h.2.2.1 member hmember, hne⟩
  offer := sound.offer
  grant grant hgrant := by
    obtain ⟨hgrant, hne⟩ := mem_filter.mp hgrant
    have h := sound.grant grant hgrant
    refine ⟨h.1, h.2.1, ?_⟩
    cases hgrantee : grant.grantee with
    | user user =>
      rw [hgrantee] at h hne
      have hheld : user ∈ state.principals := contains_iff_mem.mp h.2.2
      have hother : user ≠ principal := by simpa using hne
      refine contains_iff_mem.mpr ?_
      change user ∈ (OrganizationState.unseat principal state).principals
      rw [principals_unseat]
      exact mem_filter.mpr ⟨hheld, by simpa using hother⟩
    | team team =>
      rw [hgrantee] at h
      have hheld : team ∈ state.teams.map (·.team.id) := contains_iff_mem.mp h.2.2
      simpa [holdsGrantee, OrganizationState.unseat] using hheld

/-! ### Teams -/

theorem Sound.addTeam (sound : state.Sound) {team : Team} {label : String}
    (hnew : team.id ∉ state.teams.map (·.team.id)) (hname : name label = .ok team.name)
    (horganization : team.organization = state.organization.id) : (state.addTeam team).Sound :=
  { sound with
    teams := by
      simpa [OrganizationState.addTeam] using
        sound.teams.append (nodup_singleton team.id) (by simpa using hnew)
    team := by
      intro record hrecord
      rcases mem_append.mp hrecord with hrecord | hrecord
      · exact sound.team record hrecord
      · obtain rfl := mem_singleton.mp hrecord
        exact ⟨⟨_, name_of_name hname⟩, horganization, by simp, nodup_nil⟩
    grant := fun grant hgrant =>
      have h := sound.grant grant hgrant
      ⟨h.1, h.2.1, holdsGrantee_mono (List.Subset.refl state.principals)
        (by simp [OrganizationState.addTeam]) h.2.2⟩ }

theorem Sound.disband (sound : state.Sound) (team : TeamId) : (disband team state).Sound :=
  { sound with
    teams := sound.teams.sublist (List.filter_sublist.map _)
    team := fun record hrecord => sound.team record (mem_of_mem_filter hrecord)
    grants := sound.grants.sublist (List.filter_sublist.map _)
    grant := by
      intro grant hgrant
      obtain ⟨hgrant, hne⟩ := mem_filter.mp hgrant
      have h := sound.grant grant hgrant
      refine ⟨h.1, h.2.1, ?_⟩
      cases hgrantee : grant.grantee with
      | user user =>
        rw [hgrantee] at h
        exact h.2.2
      | team other =>
        rw [hgrantee] at h hne
        have hheld : other ∈ state.teams.map (·.team.id) := contains_iff_mem.mp h.2.2
        obtain ⟨record, hrecord, rfl⟩ := mem_map.mp hheld
        have hother : record.team.id ≠ team := by simpa using hne
        exact contains_iff_mem.mpr (mem_map.mpr
          ⟨record, mem_filter.mpr ⟨hrecord, by simpa using hother⟩, rfl⟩) }

theorem teams_setInTeam (team : TeamId) (principal : Principal) (present : Bool) :
    (setInTeam team principal present state).teams.map (·.team.id) =
      state.teams.map (·.team.id) := by
  unfold setInTeam
  refine map_updateFirst ?_ _
  simp

theorem Sound.setInTeam (sound : state.Sound) {team : TeamId} {present : Bool}
    (hheld : principal ∈ state.principals) : (setInTeam team principal present state).Sound :=
  have hteams := @teams_setInTeam state team principal present
  { sound with
    teams := hteams ▸ sound.teams
    team := by
      intro record hrecord
      rcases mem_updateFirst hrecord with hrecord | ⟨old, hold, -, rfl⟩
      · exact sound.team record hrecord
      · have h := sound.team old hold
        refine ⟨h.1, h.2.1, fun member hmember => ?_, ?_⟩
        · rcases mem_append.mp hmember with hmember | hmember
          · exact h.2.2.1 member (mem_of_mem_filter hmember)
          · have heq : member = principal := by
              cases present <;> simp_all
            exact heq ▸ hheld
        · refine (h.2.2.2.filter _).append (by cases present <;> simp) ?_
          cases present <;> simp [disjoint_singleton]
    grant := fun grant hgrant =>
      have h := sound.grant grant hgrant
      ⟨h.1, h.2.1, holdsGrantee_mono (List.Subset.refl state.principals)
        (hteams ▸ List.Subset.refl _) h.2.2⟩ }

/-! ### Projects and grants -/

theorem Sound.addGrant (sound : state.Sound) (hnew : grant.id ∉ state.grants.map (·.id))
    (hwindow : grant.window.validate = .ok ()) (hscope : state.HoldsScope grant.scope)
    (hgrantee : state.holdsGrantee grant.grantee) : (state.addGrant grant).Sound :=
  { sound with
    grants := by
      simpa [OrganizationState.addGrant] using
        sound.grants.append (nodup_singleton grant.id) (by simpa using hnew)
    grant := by
      intro held hheld
      rcases mem_append.mp hheld with hheld | hheld
      · exact sound.grant held hheld
      · obtain rfl := mem_singleton.mp hheld
        exact ⟨hwindow, hscope, hgrantee⟩ }

theorem HoldsScope.mono {projects : List Project} {scope : ProjectScope}
    (h : state.HoldsScope scope) (hsub : state.projects ⊆ projects) :
    HoldsScope { state with projects := projects } scope :=
  ⟨h.1, map_subset _ hsub h.2⟩

section

variable (sound : state.Sound)

include sound

theorem Sound.withProject {project : Project} {label : String}
    (hnew : project.scope.project ∉ state.projects.map (·.scope.project))
    (hname : name label = .ok project.name)
    (horganization : project.scope.organization = state.organization.id) :
    Sound { state with projects := state.projects ++ [project] } :=
  { sound with
    projects := by
      simpa using sound.projects.append (nodup_singleton project.scope.project)
        (by simpa using hnew)
    project := by
      intro held hheld
      rcases mem_append.mp hheld with hheld | hheld
      · exact sound.project held hheld
      · obtain rfl := mem_singleton.mp hheld
        exact ⟨⟨_, name_of_name hname⟩, horganization⟩
    offer := fun record hrecord =>
      have h := sound.offer record hrecord
      ⟨h.1, h.2.1, h.2.2.1.mono (subset_append_left _ _), h.2.2.2⟩
    grant := fun grant hgrant =>
      have h := sound.grant grant hgrant
      ⟨h.1, h.2.1.mono (subset_append_left _ _), h.2.2⟩ }

theorem Sound.dropGrant (grant : GrantId) : (state.dropGrant grant).Sound :=
  { sound with
    grants := sound.grants.sublist (List.filter_sublist.map _)
    grant := fun held hheld => sound.grant held (mem_of_mem_filter hheld) }

/-! ### Invitations -/

theorem Sound.filterInvitations (keep : InvitationRecord → Bool) :
    Sound { state with invitations := state.invitations.filter keep } :=
  { sound with
    offers := sound.offers.sublist (List.filter_sublist.map _)
    offer := fun record hrecord => sound.offer record (mem_of_mem_filter hrecord) }

theorem Sound.addInvitation (hnew : record.invitation.id ∉ state.invitations.map (·.invitation.id))
    (hwindow : record.invitation.window.validate = .ok ())
    (hauthor : record.invitation.createdBy.validate = .ok ())
    (hscope : state.HoldsScope record.invitation.scope)
    (htoken : byteLength record.tokenSha256 = 64) : (state.addInvitation record).Sound :=
  { sound with
    offers := by
      simpa [OrganizationState.addInvitation] using
        sound.offers.append (nodup_singleton record.invitation.id) (by simpa using hnew)
    offer := by
      intro held hheld
      rcases mem_append.mp hheld with hheld | hheld
      · exact sound.offer held hheld
      · obtain rfl := mem_singleton.mp hheld
        exact ⟨hwindow, hauthor, hscope, htoken⟩ }

theorem Sound.markRedeemed (invitation : InvitationId) (redemption : Redemption) :
    Sound { state with
      invitations := updateFirst (fun record => record.invitation.id = invitation)
        (fun record => { record with
          invitation := { record.invitation with redeemed := some redemption } })
        state.invitations } :=
  { sound with
    offers := by
      rw [map_updateFirst]
      · exact sound.offers
      · simp
    offer := by
      intro record hrecord
      rcases mem_updateFirst hrecord with hrecord | ⟨old, hold, -, rfl⟩
      · exact sound.offer record hrecord
      · exact sound.offer old hold }

end

theorem holdsScope_of_manageProject {actor : Principal} {project : ProjectId} {now : Int}
    {scope : ProjectScope} (h : state.manageProject actor project now = .ok scope) :
    state.HoldsScope scope ∧ actor.validate = .ok () := by
  obtain ⟨rfl, ⟨entry, hentry, hscope⟩, role, hrole, -⟩ := manageProject_ok_iff.mp h
  exact ⟨⟨rfl, mem_map.mpr ⟨entry, hentry, by rw [hscope]⟩⟩, (memberRole_ok_iff.mp hrole).1⟩

theorem holdsGrantee_of_checkGrantee {grantee : Grantee}
    (h : checkGrantee state grantee = .ok ()) : state.holdsGrantee grantee := by
  obtain ⟨huser, hteam⟩ := checkGrantee_ok_iff.mp h
  cases grantee with
  | user user =>
    obtain ⟨role, hrole⟩ := huser user rfl
    exact contains_iff_mem.mpr (mem_principals_of_memberRole hrole)
  | team team =>
    obtain ⟨entry, hentry, hid⟩ := hteam team rfl
    exact contains_iff_mem.mpr (mem_map.mpr ⟨entry, hentry, hid⟩)

theorem members_takeUp {invitation : Invitation} {grant : Grant} {redeemer : Principal} {now : Int}
    (hvalid : redeemer.validate = .ok ()) :
    (takeUp invitation grant redeemer now state).members =
      if redeemer ∈ state.principals then state.members
      else state.members ++ [⟨redeemer, invitation.standing⟩] := by
  have hheld : (state.memberRole redeemer).isOk ↔ redeemer ∈ state.principals := by
    rw [← standing_isSome_iff]
    cases hrole : state.memberRole redeemer with
    | ok role => simp [(memberRole_ok_iff.mp hrole).2, Except.isOk, Except.toBool]
    | error e =>
      have hnone : state.standing redeemer = none := by
        by_contra hsome
        obtain ⟨role, hstanding⟩ := Option.ne_none_iff_exists'.mp hsome
        rw [memberRole_ok_iff.mpr ⟨hvalid, hstanding⟩] at hrole
        cases hrole
      simp [hnone, Except.isOk, Except.toBool]
  simp only [takeUp, hheld]

theorem Sound.takeUp (sound : state.Sound)
    {redeemer : Principal} {now : Int} (hvalid : redeemer.validate = .ok ())
    (hrecord : record ∈ state.invitations) (hnew : grant.id ∉ state.grants.map (·.id))
    (hgrant : grant = .mk grant.id record.invitation.scope (.user redeemer)
      record.invitation.role record.invitation.window) :
    (takeUp record.invitation grant redeemer now state).Sound := by
  have hmembers := @members_takeUp state record.invitation grant redeemer now hvalid
  have hseated : Sound { state with
      members := (OrganizationState.takeUp record.invitation grant redeemer now state).members } := by
    rw [hmembers]
    split
    · exact sound
    · rename_i hstranger
      refine sound.withMembers ?_ ?_ ?_ ?_
      · rw [map_append]
        exact sound.members.append (nodup_singleton _) (by simpa using hstranger)
      · obtain ⟨owner, howner, hrole⟩ := sound.owner
        exact ⟨owner, mem_append_left _ howner, hrole⟩
      · intro member hmember
        rcases mem_append.mp hmember with hmember | hmember
        · exact sound.principals member hmember
        · exact mem_singleton.mp hmember ▸ hvalid
      · rw [map_append]
        exact subset_append_left _ _
  have hredeemer : redeemer ∈ (OrganizationState.takeUp record.invitation grant redeemer now
      state).members.map (·.principal) := by
    rw [hmembers]
    split
    · assumption
    · simp
  have hoffer := sound.offer record hrecord
  have hgranted := hseated.addGrant hnew (hgrant ▸ hoffer.1) (hgrant ▸ hoffer.2.2.1)
    (hgrant ▸ contains_iff_mem.mpr hredeemer)
  exact hgranted.markRedeemed record.invitation.id
    { principal := redeemer, moment := now, grant := grant.id }

/-! ### Acts -/

/-- **Step lemma**: every accepted act keeps what is checked, who redeemed the offers apart. -/
theorem Sound.accepted {state' : OrganizationState} {act : Act} {answer : Answer}
    (sound : state.Sound) (fresh : state.Fresh act.minted)
    (h : Accepted state act answer state') : state'.Sound := by
  cases h with
  | setMember _ _ hvalid _ howner => exact sound.seat hvalid howner
  | removeMember _ _ _ _ howner => exact sound.unseat howner
  | createTeam _ hname => exact sound.addTeam fresh.team hname rfl
  | deleteTeam => exact sound.disband _
  | setTeamMember _ hrole => exact sound.setInTeam (mem_principals_of_memberRole hrole)
  | @createProject actor minted now label stored project hadmin hname hproject =>
    subst hproject
    obtain ⟨role, hrole, -⟩ := hadmin
    refine (sound.withProject fresh.project hname rfl).addGrant fresh.grant
      (GrantWindow.validate_permanent now) ⟨rfl, by simp⟩ ?_
    exact contains_iff_mem.mpr (mem_principals_of_memberRole hrole)
  | grant hproject hwindow hgrantee =>
    exact sound.addGrant fresh.grant hwindow (holdsScope_of_manageProject hproject).1
      (holdsGrantee_of_checkGrantee hgrantee)
  | revokeGrant => exact sound.dropGrant _
  | invite hproject hwindow _ htoken _ hinvitation =>
    subst hinvitation
    obtain ⟨hscope, hauthor⟩ := holdsScope_of_manageProject hproject
    refine (sound.filterInvitations _).addInvitation ?_ hwindow hauthor hscope htoken
    exact fun hmem => fresh.invitation (map_subset _ (filter_subset_self _) hmem)
  | revokeInvitation => exact sound.filterInvitations _
  | redeem hvalid hrecord _ _ _ _ hgrant =>
    subst hgrant
    exact sound.takeUp hvalid (mem_of_find?_eq_some hrecord) fresh.grant rfl

end OrganizationState

end Aiwatcher.Iam
