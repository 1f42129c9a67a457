import Aiwatcher.Iam.Standing
import Mathlib.Order.Bounds.Basic

/-!
# Aiwatcher.Iam.Revoked

What somebody may do on a project, and what is left of it when something is taken away.

`roles` says what access is for: the roles that the grants naming somebody, or a team they
are in, leave at a moment.  `accessIs` is that the policy answers the greatest of them.
A command that takes away leaves the other grants and seats as they were, and what comes back
later comes by a new grant or a new seat.
-/

namespace Aiwatcher.Iam

open Library Refusal OrganizationState List Bool

/-- The roles some grants and team seats leave somebody on a project. -/
def roles (grants : Grant → Prop) (seats : TeamId → Principal → Prop) (scope : ProjectScope)
    (principal : Principal) (now : Int) : Set ProjectRole :=
  {role | ∃ grant, grants grant ∧ grant.scope = scope ∧
    (grant.grantee = .user principal ∨ ∃ team, grant.grantee = .team team ∧ seats team principal) ∧
    grant.window.roleAt grant.role now = some role}

namespace OrganizationState

variable {state state' : OrganizationState}

def Seated (state : OrganizationState) (team : TeamId) (principal : Principal) : Prop :=
  ∃ record ∈ state.teams, record.team.id = team ∧ principal ∈ record.members

theorem mem_teamsOf {team : TeamId} {principal : Principal} :
    team ∈ state.teamsOf principal ↔ state.Seated team principal := by
  simp only [teamsOf, Seated, mem_map, mem_filter, contains_iff_mem]
  exact ⟨fun ⟨record, ⟨h, hin⟩, hid⟩ => ⟨record, h, hid, hin⟩,
    fun ⟨record, h, hid, hin⟩ => ⟨record, ⟨h, hin⟩, hid⟩⟩

theorem reaches_iff {principal : Principal} {grantee : Grantee} :
    state.reaches principal grantee ↔
      grantee = .user principal ∨ ∃ team, grantee = .team team ∧ state.Seated team principal := by
  cases grantee with
  | user user => simp [reaches]
  | team team => simp [reaches, mem_teamsOf]

/-- Whoever is here reaches the projects there are with the greatest role some grants and
seats leave them, and nothing where there is none. -/
def AccessIs (state : OrganizationState) (grants : Grant → Prop)
    (seats : TeamId → Principal → Prop) : Prop :=
  ∀ scope principal now role,
    (∃ access, state.access scope principal now = .ok access ∧ access.role = role) ↔
      (∃ own, state.memberRole principal = .ok own) ∧
        (∃ project ∈ state.projects, project.scope = scope) ∧
        IsGreatest (roles grants seats scope principal now) role

/-- **Access is the greatest role the grants leave.** -/
theorem accessIs (state : OrganizationState) : state.AccessIs (· ∈ state.grants) state.Seated := by
  intro scope principal now role
  have hroles : ∀ r, r ∈ (state.effectiveGrants scope principal now).map (·.role) ↔
      r ∈ roles (· ∈ state.grants) state.Seated scope principal now := by
    intro r
    simp only [mem_map, mem_effectiveGrants, reaches_iff, roles, Set.mem_ofPred_eq]
    constructor
    · rintro ⟨effective, ⟨hgrant, hscope, hreaches, hrole⟩, rfl⟩
      exact ⟨effective.grant, hgrant, hscope, hreaches, hrole⟩
    · rintro ⟨grant, hgrant, hscope, hreaches, hrole⟩
      exact ⟨⟨grant, r⟩, ⟨hgrant, hscope, hreaches, hrole⟩, rfl⟩
  have hmax : ∀ r, ((state.effectiveGrants scope principal now).map (·.role)).max? = some r ↔
      IsGreatest (roles (· ∈ state.grants) state.Seated scope principal now) r := by
    intro r
    rw [max?_eq_some_iff]
    simp only [hroles]
    rfl
  simp only [access_ok_iff, hmax]
  constructor
  · rintro ⟨access, ⟨hown, hproject, hgreatest, -⟩, rfl⟩
    exact ⟨hown, ⟨access.project, mem_of_find?_eq_some hproject,
      by simpa using find?_some hproject⟩, hgreatest⟩
  · rintro ⟨hown, ⟨project, hproject, hscope⟩, hgreatest⟩
    have hsome : (state.projects.find? fun project => project.scope = scope).isSome :=
      find?_isSome.mpr ⟨project, hproject, by simpa using hscope⟩
    obtain ⟨found, hfind⟩ := Option.isSome_iff_exists.mp hsome
    exact ⟨⟨found, role, _, now⟩, ⟨hown, hfind, hgreatest, rfl, rfl⟩, rfl⟩

end OrganizationState

/-! ## Taking away -/

def Command.takesAway : Command → Bool
  | .removeMember _ => true
  | .deleteTeam _ => true
  | .setTeamMember _ _ present => !present
  | .revokeGrant _ _ => true
  | _ => false

/-- The grants a command that takes away leaves. -/
def Command.leavesGrant : Command → Grant → Prop
  | .removeMember principal, held => held.grantee ≠ .user principal
  | .deleteTeam team, held => held.grantee ≠ .team team
  | .revokeGrant _ id, held => held.id ≠ id
  | _, _ => True

/-- The team seats it leaves. -/
def Command.leavesSeat : Command → TeamId → Principal → Prop
  | .removeMember principal, _, q => q ≠ principal
  | .deleteTeam team, t, _ => t ≠ team
  | .setTeamMember team principal _, t, q => ¬(t = team ∧ q = principal)
  | _, _, _ => True

namespace OrganizationState

variable {state state' : OrganizationState}

theorem seated_unseat {principal q : Principal} {team : TeamId} :
    (unseat principal state).Seated team q ↔ state.Seated team q ∧ q ≠ principal := by
  simp only [Seated, unseat, mem_map, exists_exists_and_eq_and, mem_filter,
    decide_not, not_eq_true', decide_eq_false_iff_not]
  constructor
  · rintro ⟨record, h, hid, hin, hne⟩
    exact ⟨⟨record, h, hid, hin⟩, hne⟩
  · rintro ⟨⟨record, h, hid, hin⟩, hne⟩
    exact ⟨record, h, hid, hin, hne⟩

theorem seated_disband {q : Principal} {team t : TeamId} :
    (disband team state).Seated t q ↔ state.Seated t q ∧ t ≠ team := by
  simp only [Seated, disband, mem_filter, decide_not, not_eq_true', decide_eq_false_iff_not]
  constructor
  · rintro ⟨record, ⟨h, hne⟩, rfl, hin⟩
    exact ⟨⟨record, h, rfl, hin⟩, hne⟩
  · rintro ⟨⟨record, h, rfl, hin⟩, hne⟩
    exact ⟨record, ⟨h, hne⟩, rfl, hin⟩

theorem seated_setInTeam (hteams : (state.teams.map (·.team.id)).Nodup)
    {principal q : Principal} {team t : TeamId} {present : Bool}
    (hheld : ∃ record ∈ state.teams, record.team.id = team) :
    (setInTeam team principal present state).Seated t q ↔
      (state.Seated t q ∧ ¬(t = team ∧ q = principal)) ∨
        (present ∧ t = team ∧ q = principal) := by
  obtain ⟨held, hmem, hid⟩ := hheld
  simp only [Seated, setInTeam, updateFirst_eq_map hteams, mem_map, exists_exists_and_eq_and]
  constructor
  · rintro ⟨record, hrecord, rfl, hin⟩
    by_cases heq : record.team.id = team
    · simp only [heq, if_true, mem_append, mem_filter, decide_eq_true_eq] at hin ⊢
      rcases hin with ⟨hin, hne⟩ | hin
      · exact .inl ⟨⟨record, hrecord, heq, hin⟩, fun h => hne h.2⟩
      · cases present
        · simp at hin
        · exact .inr ⟨rfl, trivial, by simpa using hin⟩
    · simp only [heq, if_false] at hin ⊢
      exact .inl ⟨⟨record, hrecord, rfl, hin⟩, fun h => h.1⟩
  · rintro (⟨⟨record, hrecord, rfl, hin⟩, hother⟩ | ⟨hpresent, rfl, rfl⟩)
    · refine ⟨record, hrecord, by split <;> rfl, ?_⟩
      split
      · rename_i heq
        refine mem_append_left _ (mem_filter.mpr ⟨hin, ?_⟩)
        simpa using fun h => hother ⟨heq, h⟩
      · exact hin
    · exact ⟨held, hmem, by simp [hid], by simp [hid, hpresent]⟩

variable {act : Act} {answer : Answer}

/-- **Step lemma**: a command that takes away leaves everything else. -/
theorem left_of_accepted (sound : state.Sound) {command : Command}
    (hoperation : act.operation = .apply command) (htakes : command.takesAway)
    (hstep : Accepted state act answer state') :
    (∀ grant, grant ∈ state'.grants ↔ grant ∈ state.grants ∧ command.leavesGrant grant) ∧
      ∀ team q, state'.Seated team q ↔ state.Seated team q ∧ command.leavesSeat team q := by
  cases hstep <;> cases hoperation <;> simp only [Command.takesAway, false_eq_true] at htakes
  case removeMember => 
    exact ⟨fun grant => by simp [unseat, Command.leavesGrant], fun team q => seated_unseat⟩
  case deleteTeam =>
    exact ⟨fun grant => by simp [disband, Command.leavesGrant], fun team q => seated_disband⟩
  case setTeamMember hteam =>
    refine ⟨fun grant => by simp [setInTeam, Command.leavesGrant], fun team q => ?_⟩
    rw [seated_setInTeam sound.teams hteam]
    simp only [not_eq_true'] at htakes
    simp [htakes, Command.leavesSeat]
  case revokeGrant =>
    exact ⟨fun grant => by simp [dropGrant, Command.leavesGrant], fun team q => by
      simp [Seated, dropGrant, Command.leavesSeat]⟩

/-! ## Coming back -/

theorem grants_of_accepted (hstep : Accepted state act answer state') {grant : Grant}
    (h : grant ∈ state'.grants) :
    grant ∈ state.grants ∨ state'.grants = state.grants ++ [grant] := by
  have happend : ∀ {new : Grant}, grant ∈ state.grants ++ [new] →
      grant ∈ state.grants ∨ state.grants ++ [new] = state.grants ++ [grant] := by
    intro new hmem
    rcases mem_append.mp hmem with hmem | hmem
    · exact .inl hmem
    · exact .inr (by rw [mem_singleton.mp hmem])
  cases hstep with
  | setMember =>
    rw [seat_eq] at h
    exact .inl h
  | removeMember => exact .inl (mem_of_mem_filter h)
  | deleteTeam => exact .inl (mem_of_mem_filter h)
  | revokeGrant => exact .inl (mem_of_mem_filter h)
  | createProject => exact happend h
  | grant => exact happend h
  | redeem => exact happend h
  | createTeam => exact .inl h
  | setTeamMember => exact .inl h
  | invite => exact .inl h
  | revokeInvitation => exact .inl h

theorem seats_of_accepted (hstep : Accepted state act answer state') {team : TeamId} {q : Principal}
    (h : state'.Seated team q) :
    state.Seated team q ∨ act.operation = .apply (.setTeamMember team q true) := by
  obtain ⟨record, hrecord, hid, hin⟩ := h
  cases hstep with
  | setMember =>
    rw [seat_eq] at hrecord
    exact .inl ⟨record, hrecord, hid, hin⟩
  | removeMember => exact .inl (seated_unseat.mp ⟨record, hrecord, hid, hin⟩).1
  | deleteTeam => exact .inl (seated_disband.mp ⟨record, hrecord, hid, hin⟩).1
  | createTeam =>
    rcases mem_append.mp hrecord with hrecord | hrecord
    · exact .inl ⟨record, hrecord, hid, hin⟩
    · rw [mem_singleton.mp hrecord] at hin
      cases hin
  | @setTeamMember actor principal own minted now team' present =>
    rcases mem_updateFirst hrecord with hrecord | ⟨old, hold, hpicked, rfl⟩
    · exact .inl ⟨record, hrecord, hid, hin⟩
    · rcases mem_append.mp hin with hin | hin
      · exact .inl ⟨old, hold, hid, mem_of_mem_filter hin⟩
      · have hteam : team' = team := by
          rw [← hid]
          exact (of_decide_eq_true hpicked).symm
        cases present
        · simp at hin
        · have hself : q = principal := by simpa using hin
          exact .inr (by rw [hteam, hself])
  | createProject => exact .inl ⟨record, hrecord, hid, hin⟩
  | grant => exact .inl ⟨record, hrecord, hid, hin⟩
  | revokeGrant => exact .inl ⟨record, hrecord, hid, hin⟩
  | invite => exact .inl ⟨record, hrecord, hid, hin⟩
  | revokeInvitation => exact .inl ⟨record, hrecord, hid, hin⟩
  | redeem => exact .inl ⟨record, hrecord, hid, hin⟩

end OrganizationState

/-- What is there was there when the steps began, or one of them gave it. -/
structure GivenSince (grants : Grant → Prop) (seats : TeamId → Principal → Prop)
    (steps : List (Step OrganizationState Act Answer)) (state : OrganizationState) : Prop where
  grant : ∀ grant ∈ state.grants, grants grant ∨
    ∃ st ∈ steps, st.after.grants = st.before.grants ++ [grant]
  seat : ∀ team q, state.Seated team q → seats team q ∨
    ∃ st ∈ steps, st.input.operation = .apply (.setTeamMember team q true)

/-- **Run lemma**: nothing comes back by itself. -/
theorem givenSince_last {grants : Grant → Prop} {seats : TeamId → Principal → Prop}
    {state : OrganizationState} (hgrants : ∀ grant ∈ state.grants, grants grant)
    (hseats : ∀ team q, state.Seated team q → seats team q) (acts : List Act) :
    GivenSince grants seats (policy.run state acts) (policy.last state acts) := by
  have h : GivenSince grants seats ([] ++ policy.run state acts) (policy.last state acts) :=
    Machine.record_run (GivenSince grants seats) (fun _ _ => True)
      (fun past st hpast _ hstep => by
        obtain ⟨answer, -, haccepted⟩ := accepted_of_step hstep
        refine ⟨fun grant hgrant => ?_, fun team q hseated => ?_⟩
        · rcases grants_of_accepted haccepted hgrant with hold | hnew
          · exact (hpast.grant grant hold).imp_right fun ⟨issue, hissue, heq⟩ =>
              ⟨issue, mem_append_left _ hissue, heq⟩
          · exact .inr ⟨st, by simp, hnew⟩
        · rcases seats_of_accepted haccepted hseated with hold | hnew
          · exact (hpast.seat team q hold).imp_right fun ⟨given, hgiven, heq⟩ =>
              ⟨given, mem_append_left _ hgiven, heq⟩
          · exact .inr ⟨st, by simp, hnew⟩)
      ⟨fun grant hgrant => .inl (hgrants grant hgrant),
        fun team q hseated => .inl (hseats team q hseated)⟩ (fun _ _ => trivial)
  simpa using h

/-! ## Owners and revocation -/

theorem sound_of_start {id : OrganizationId} {owner : Principal} {label : String}
    {state : OrganizationState} (h : start id owner label = .ok state) : state.Sound := by
  simp only [start, except_bind_ok_iff, exists_unit_iff] at h
  obtain ⟨hvalid, stored, hname, hstate⟩ := h
  cases hstate
  constructor <;> simp [principals, name_of_name hname, hvalid]

/-- **There is always an owner, and what is taken away is gone**: access is the greatest of
what is left, and whatever comes back was given again. -/
theorem taken_away_for_good {id : OrganizationId} {owner : Principal} {label : String}
    {state : OrganizationState} (hstart : start id owner label = .ok state) (acts : List Act)
    (hfresh : ∀ st ∈ policy.run state acts, st.before.Fresh st.input.minted) :
    (∃ principal, (policy.last state acts).standing principal = some .owner) ∧
      ∀ past st rest, policy.run state acts = past ++ st :: rest →
        ∀ command, st.input.operation = .apply command → command.takesAway →
          st.after.AccessIs (fun grant => grant ∈ st.before.grants ∧ command.leavesGrant grant)
            (fun team q => st.before.Seated team q ∧ command.leavesSeat team q) ∧
          (policy.last state acts).AccessIs (· ∈ (policy.last state acts).grants)
            (policy.last state acts).Seated ∧
          GivenSince (fun grant => grant ∈ st.before.grants ∧ command.leavesGrant grant)
            (fun team q => st.before.Seated team q ∧ command.leavesSeat team q) rest
            (policy.last state acts) := by
  have hstep : ∀ (s : OrganizationState) (act : Act) (out : List Answer) (s' : OrganizationState),
      s.Sound → s.Fresh act.minted → policy.step s act = some (out, s') → s'.Sound := by
    intro s act out s' hinv hnew hstep
    obtain ⟨_, -, haccepted⟩ := accepted_of_step hstep
    exact hinv.accepted hnew haccepted
  have hsound := Machine.inv_of_mem_run Sound (fun s (act : Act) => s.Fresh act.minted) hstep
    (sound_of_start hstart) hfresh
  have hlast := Machine.inv_last_of_admits Sound (fun s (act : Act) => s.Fresh act.minted) hstep
    (sound_of_start hstart) hfresh
  refine ⟨?_, fun past st rest hrun command hoperation htakes => ?_⟩
  · obtain ⟨⟨principal, role⟩, howner, rfl⟩ := hlast.owner
    exact ⟨principal, (standing_eq_some_iff hlast.members).mpr howner⟩
  · have hst : st ∈ policy.run state acts := hrun ▸ List.mem_append_right _ List.mem_cons_self
    obtain ⟨_, -, haccepted⟩ := accepted_of_step (Machine.step_of_mem_run hst)
    obtain ⟨hgrants, hseats⟩ := left_of_accepted (hsound st hst).1 hoperation htakes haccepted
    obtain ⟨later, hrest, hend⟩ := Machine.exists_rest_of_run hrun
    refine ⟨?_, accessIs _, ?_⟩
    · have hgrants' : (fun grant => grant ∈ st.before.grants ∧ command.leavesGrant grant) =
          (· ∈ st.after.grants) := funext fun grant => (propext (hgrants grant)).symm
      have hseats' : (fun team q => st.before.Seated team q ∧ command.leavesSeat team q) =
          st.after.Seated := funext fun team => funext fun q => (propext (hseats team q)).symm
      rw [hgrants', hseats']
      exact accessIs st.after
    · rw [← hrest, ← hend]
      exact givenSince_last (fun grant h => (hgrants grant).mp h)
        (fun team q h => (hseats team q).mp h) later

/-- The founder's own grant is revoked and given again. -/
def grantReturns : List Act :=
  [⟨founder, .apply (.createProject "Demo"), mint 1, 10⟩,
    ⟨founder, .apply (.revokeGrant ⟨1⟩ ⟨1⟩), mint 2, 20⟩,
    ⟨founder, .apply (.grant ⟨1⟩ (.user founder) .viewer (.permanent 30)), mint 3, 30⟩]

theorem taken_away_for_good_grantReturns :
    ∃ principal, (policy.last founded grantReturns).standing principal = some .owner :=
  (@taken_away_for_good ⟨1⟩ founder "Workshop" founded (by decide +kernel) grantReturns
    (by decide +kernel)).1

end Aiwatcher.Iam
