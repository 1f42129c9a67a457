import Aiwatcher.Iam.Standing

/-!
# Aiwatcher.Iam.Guests

A guest is in no team.  Putting somebody in a team asks for a member; taking a member's
standing away does not ask whether they are in one, and that is the only way a guest comes to
be in a team.
-/

namespace Aiwatcher.Iam

open Library OrganizationState List

namespace OrganizationState

variable {state state' : OrganizationState}

/-- Somebody is in a team. -/
def InTeam (state : OrganizationState) (principal : Principal) : Prop :=
  ∃ record ∈ state.teams, principal ∈ record.members

instance (state : OrganizationState) (principal : Principal) :
    Decidable (state.InTeam principal) :=
  inferInstanceAs (Decidable (∃ record ∈ state.teams, principal ∈ record.members))

/-- Whoever is in a team is a member at least. -/
def TeamsOfMembers (state : OrganizationState) : Prop :=
  ∀ principal, state.InTeam principal →
    ∃ role, state.standing principal = some role ∧ .member ≤ role

/-- No guest is in a team, and what a guest reaches they reach by grants that name them. -/
def GuestsApart (state : OrganizationState) : Prop :=
  ∀ principal, state.standing principal = some .guest → ¬state.InTeam principal ∧
    ∀ scope now access, state.access scope principal now = .ok access →
      ∀ effective ∈ access.grants, effective.grant.grantee = .user principal

/-- What somebody in no team reaches. -/
theorem grantee_of_access {principal : Principal} (h : ¬state.InTeam principal)
    {scope : ProjectScope} {now : Int} {access : ProjectAccess}
    (haccess : state.access scope principal now = .ok access) {effective : EffectiveGrant}
    (heffective : effective ∈ access.grants) : effective.grant.grantee = .user principal := by
  obtain ⟨-, -, -, hgrants, -⟩ := access_ok_iff.mp haccess
  rw [hgrants] at heffective
  obtain ⟨-, -, hreaches, -⟩ := mem_effectiveGrants.mp heffective
  cases hgrantee : effective.grant.grantee with
  | user user =>
    rw [hgrantee] at hreaches
    have huser : user = principal := by simpa [reaches] using hreaches
    rw [huser]
  | team team =>
    rw [hgrantee] at hreaches
    have hteam : team ∈ state.teamsOf principal := by simpa [reaches] using hreaches
    obtain ⟨record, hrecord, -⟩ := mem_map.mp hteam
    obtain ⟨hrecord, hin⟩ := mem_filter.mp hrecord
    exact absurd ⟨record, hrecord, contains_iff_mem.mp hin⟩ h

theorem TeamsOfMembers.guestsApart (h : state.TeamsOfMembers) : state.GuestsApart := by
  intro principal hguest
  have hout : ¬state.InTeam principal := by
    intro hin
    obtain ⟨role, hrole, hmember⟩ := h principal hin
    rw [hguest, Option.some.injEq] at hrole
    exact absurd (hrole ▸ hmember) (by decide)
  exact ⟨hout, fun scope now access haccess effective => grantee_of_access hout haccess⟩

/-- The act takes the standing of somebody who is in a team. -/
def DemotesInTeam (state : OrganizationState) (act : Act) : Prop :=
  ∃ principal, act.operation = .apply (.setMember principal .guest) ∧ state.InTeam principal

theorem TeamsOfMembers.mono (h : state.TeamsOfMembers)
    (hteams : ∀ principal, state'.InTeam principal → state.InTeam principal)
    (hstanding : ∀ principal role, state.standing principal = some role →
      state'.standing principal = some role) : state'.TeamsOfMembers := by
  intro principal hin
  obtain ⟨role, hrole, hmember⟩ := h principal (hteams principal hin)
  exact ⟨role, hstanding principal role hrole, hmember⟩

theorem inTeam_of_setInTeam {team : TeamId} {principal q : Principal} {present : Bool}
    (h : (setInTeam team principal present state).InTeam q) : state.InTeam q ∨ q = principal := by
  obtain ⟨record, hrecord, hin⟩ := h
  rcases mem_updateFirst hrecord with hrecord | ⟨old, hold, -, rfl⟩
  · exact .inl ⟨record, hrecord, hin⟩
  · rcases mem_append.mp hin with hin | hin
    · exact .inl ⟨old, hold, mem_of_mem_filter hin⟩
    · cases present
      · simp at hin
      · exact .inr (by simpa using hin)

/-- **Step lemma**: an accepted act that makes no guest of somebody in a team leaves the teams
to the members. -/
theorem TeamsOfMembers.accepted {act : Act} {answer : Answer} (h : state.TeamsOfMembers)
    (hstep : Accepted state act answer state') (hkeeps : ¬state.DemotesInTeam act) :
    state'.TeamsOfMembers := by
  cases hstep with
  | @setMember actor principal own next minted now =>
    intro q hafter
    have hin : state.InTeam q := by
      rw [seat_eq] at hafter
      exact hafter
    rw [standing_seat]
    split
    · rename_i heq
      subst heq
      refine ⟨next, rfl, ?_⟩
      cases next with
      | guest => exact absurd ⟨q, rfl, hin⟩ hkeeps
      | member => decide
      | admin => decide
      | owner => decide
    · exact h q hin
  | @removeMember actor principal =>
    intro q hin
    obtain ⟨record, hrecord, hq⟩ := hin
    obtain ⟨old, hold, rfl⟩ := mem_map.mp hrecord
    obtain ⟨hq, hne⟩ := mem_filter.mp hq
    have hother : q ≠ principal := by simpa using hne
    rw [standing_unseat, if_neg hother]
    exact h q ⟨old, hold, hq⟩
  | createTeam =>
    refine h.mono (fun q hin => ?_) fun _ _ hrole => hrole
    obtain ⟨record, hrecord, hq⟩ := hin
    rcases mem_append.mp hrecord with hrecord | hrecord
    · exact ⟨record, hrecord, hq⟩
    · rw [mem_singleton.mp hrecord] at hq
      cases hq
  | deleteTeam =>
    refine h.mono (fun q hin => ?_) fun _ _ hrole => hrole
    obtain ⟨record, hrecord, hq⟩ := hin
    exact ⟨record, mem_of_mem_filter hrecord, hq⟩
  | setTeamMember _ hrole hmember =>
    intro q hin
    rcases inTeam_of_setInTeam hin with hold | rfl
    · exact h q hold
    · exact ⟨_, (memberRole_ok_iff.mp hrole).2, hmember⟩
  | redeem hvalid =>
    refine h.mono (fun q hin => hin) fun q role hrole => ?_
    rw [standing_takeUp hvalid, if_neg]
    · exact hrole
    · rintro ⟨rfl, hnone⟩
      simp [hnone] at hrole
  | createProject => exact h
  | grant => exact h
  | revokeGrant => exact h
  | invite => exact h
  | revokeInvitation => exact h

theorem teamsOfMembers_of_start {id : OrganizationId} {owner : Principal} {label : String}
    (h : start id owner label = .ok state) : state.TeamsOfMembers := by
  have hteams := (start_ok h).2.1
  rintro principal ⟨record, hrecord, -⟩
  simp [hteams] at hrecord

end OrganizationState

/-- **No guest is ever in a team**, exactly when nobody who is in a team is made a guest. -/
theorem guestsApart_iff {id : OrganizationId} {owner : Principal} {label : String}
    {state : OrganizationState} (hstart : start id owner label = .ok state) (acts : List Act) :
    (state.GuestsApart ∧ ∀ st ∈ policy.run state acts, st.after.GuestsApart) ↔
      ∀ st ∈ policy.run state acts, ¬st.before.DemotesInTeam st.input := by
  constructor
  · rintro ⟨-, h⟩ st hst ⟨principal, hoperation, hin⟩
    obtain ⟨answer, -, hstep⟩ := accepted_of_step (Machine.step_of_mem_run hst)
    have hafter : st.after = seat principal .guest st.before := by
      generalize st.input = act at hstep hoperation
      generalize st.after = after at hstep
      cases hstep <;> cases hoperation
      rfl
    refine (h st hst principal ?_).1 ?_
    · rw [hafter, standing_seat, if_pos rfl]
    · rw [hafter, seat_eq]
      exact hin
  · intro h
    refine ⟨(teamsOfMembers_of_start hstart).guestsApart, fun st hst => ?_⟩
    exact (Machine.inv_of_mem_run TeamsOfMembers (fun before act => ¬before.DemotesInTeam act)
      (fun _ _ _ _ hinv hkeeps hstep => by
        obtain ⟨_, -, haccepted⟩ := accepted_of_step hstep
        exact hinv.accepted haccepted hkeeps)
      (teamsOfMembers_of_start hstart) h st hst).2.guestsApart

/-! ## A guest in a team -/

/-- A member joins a team and is made a guest. -/
def teamGuest : List Act :=
  [⟨founder, .apply (.setMember guest .member), mint 1, 10⟩,
    ⟨founder, .apply (.createTeam "Lab"), mint 2, 20⟩,
    ⟨founder, .apply (.setTeamMember ⟨2⟩ guest true), mint 3, 30⟩,
    ⟨founder, .apply (.setMember guest .guest), mint 4, 40⟩]

theorem guestsApart_iff_teamGuest :
    (founded.GuestsApart ∧ ∀ st ∈ policy.run founded teamGuest, st.after.GuestsApart) ↔
      ∀ st ∈ policy.run founded teamGuest, ¬st.before.DemotesInTeam st.input :=
  @guestsApart_iff ⟨1⟩ founder "Workshop" founded (by decide +kernel) teamGuest

/-- The guest stays in the team. -/
theorem guest_in_a_team :
    start ⟨1⟩ founder "Workshop" = .ok founded ∧ policy.accepts founded teamGuest ∧
      (policy.last founded teamGuest).standing guest = some .guest ∧
      (policy.last founded teamGuest).InTeam guest := by
  decide +kernel

end Aiwatcher.Iam
