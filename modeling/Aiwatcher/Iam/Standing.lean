import Aiwatcher.Iam.Valid

/-!
# Aiwatcher.Iam.Standing

The clause of `validate` an accepted act can break.  Removing a member takes them out of the
teams and drops their grants; the offers they redeemed go on naming them, and a state that
holds one cannot be stored.  Nothing else breaks a valid state.

Who makes somebody an admin or an owner.  A standing changes in two ways: a command sets it,
and an offer brings it to a stranger who redeems it.  The command asks for an owner where the
standing is above a member's; an invitation asks for no more than the project's admin,
whatever standing it offers.
-/

namespace Aiwatcher.Iam

open Library Refusal OrganizationState List

namespace OrganizationState

variable {state state' : OrganizationState}

/-- Somebody may remove a member. -/
def Removable (state : OrganizationState) (actor principal : Principal) : Prop :=
  ∃ role previous, state.memberRole actor = .ok role ∧ .admin ≤ role ∧
    state.memberRole principal = .ok previous ∧ (role ≠ .owner → previous = .member) ∧
    state.keepOwner principal none = .ok ()

/-- Somebody redeemed an offer that is still held. -/
def Redeemer (state : OrganizationState) (principal : Principal) : Prop :=
  ∃ record ∈ state.invitations, ∃ redemption,
    record.invitation.redeemed = some redemption ∧ redemption.principal = principal

/-- The act removes somebody whom a held offer names. -/
def StrandsRedeemer (state : OrganizationState) (act : Act) : Prop :=
  ∃ principal, act.operation = .apply (.removeMember principal) ∧
    state.Removable act.actor principal ∧ state.Redeemer principal

theorem RedeemersHeld.mono (h : state.RedeemersHeld)
    (hinvitations : state'.invitations ⊆ state.invitations)
    (hprincipals : state.principals ⊆ state'.principals) : state'.RedeemersHeld :=
  fun record hrecord redemption hredeemed =>
    hprincipals (h record (hinvitations hrecord) redemption hredeemed)

theorem RedeemersHeld.takeUp (h : state.RedeemersHeld) {invitation : Invitation} {grant : Grant}
    {redeemer : Principal} {now : Int} (hvalid : redeemer.validate = .ok ()) :
    (takeUp invitation grant redeemer now state).RedeemersHeld := by
  have hprincipals : redeemer :: state.principals ⊆
      (OrganizationState.takeUp invitation grant redeemer now state).principals := by
    unfold principals
    rw [members_takeUp hvalid]
    split
    · rename_i hheld
      exact cons_subset.mpr ⟨hheld, List.Subset.refl _⟩
    · simp
  intro record hrecord redemption hredeemed
  rcases mem_updateFirst hrecord with hrecord | ⟨old, -, -, rfl⟩
  · exact hprincipals (mem_cons_of_mem _ (h record hrecord redemption hredeemed))
  · cases hredeemed
    exact hprincipals mem_cons_self

/-- **Step lemma**: an accepted act that strands no redeemer leaves every redeemer held. -/
theorem RedeemersHeld.accepted {act : Act} {answer : Answer} (h : state.RedeemersHeld)
    (hstep : Accepted state act answer state') (hkeeps : ¬state.StrandsRedeemer act) :
    state'.RedeemersHeld := by
  cases hstep with
  | setMember =>
    refine h.mono ?_ (principals_subset_seat _ _)
    rw [seat_eq]
    exact List.Subset.refl _
  | removeMember hrole hadmin hprevious hfree howner =>
    intro record hrecord redemption hredeemed
    rw [principals_unseat]
    refine mem_filter.mpr ⟨h record hrecord redemption hredeemed, ?_⟩
    by_contra heq
    exact hkeeps ⟨_, rfl, ⟨_, _, hrole, hadmin, hprevious, hfree, howner⟩, record, hrecord,
      redemption, hredeemed, by simpa using heq⟩
  | createTeam => exact h
  | deleteTeam => exact h
  | setTeamMember => exact h
  | createProject => exact h
  | grant => exact h
  | revokeGrant => exact h
  | invite _ _ _ _ _ hinvitation =>
    intro record hrecord redemption hredeemed
    rcases mem_append.mp hrecord with hrecord | hrecord
    · exact h record (mem_of_mem_filter hrecord) redemption hredeemed
    · rw [mem_singleton.mp hrecord, hinvitation] at hredeemed
      cases hredeemed
  | revokeInvitation => exact h.mono (filter_subset_self _) (List.Subset.refl _)
  | redeem hvalid => exact h.takeUp hvalid

theorem Removable.accepted {act : Act} {principal : Principal}
    (hoperation : act.operation = .apply (.removeMember principal))
    (h : state.Removable act.actor principal) :
    act.run.run state = .ok (.changed .applied) (unseat principal state) := by
  obtain ⟨role, previous, hrole, hadmin, hprevious, hfree, howner⟩ := h
  simp only [Act.run, hoperation, apply, removeMember, bind_ok_iff, get_ok_iff, ofExcept_ok_iff,
    refuseIf_ok_iff, modify_ok_iff, pure_ok_iff, ↓existsAndEq, true_and, and_true,
    exists_unit_iff]
  refine ⟨role, previous, hrole, ?_, hprevious, ?_, howner⟩
  · exact fun hlow => absurd hadmin (not_le.mpr hlow.2)
  · exact fun hother => hother.2 (hfree hother.1)

end OrganizationState

/-! ## An organization where it happens -/

def founder : Principal := ⟨"https://id.example", "founder"⟩

def guest : Principal := ⟨"https://id.example", "guest"⟩

/-- Identifiers made of one number. -/
def mint (n : Nat) : Minted :=
  { team := ⟨n⟩, project := ⟨n⟩, grant := ⟨n⟩, invitation := ⟨n⟩ }

/-- The founder alone. -/
def founded : OrganizationState where
  schemaVersion := SCHEMA_VERSION
  organization := { id := ⟨1⟩, name := "Workshop" }
  members := [{ principal := founder, role := .owner }]
  teams := []
  projects := []
  grants := []
  invitations := []

namespace OrganizationState

variable {state state' : OrganizationState}

/-! ## What changes a standing -/

@[simp] theorem standing_seat (principal q : Principal) (next : OrganizationRole) :
    (seat principal next state).standing q =
      if q = principal then some next else state.standing q := by
  unfold seat standing
  split
  · rename_i hheld
    obtain ⟨held, hmember, hprincipal⟩ := by simpa using hheld
    dsimp only
    rw [find?_updateFirst Member.principal]
    case h => simp
    split
    · have hsome : (state.members.find? fun member => member.principal = principal).isSome :=
        find?_isSome.mpr ⟨held, hmember, by simpa using hprincipal⟩
      obtain ⟨member, hfind⟩ := Option.isSome_iff_exists.mp hsome
      simp [hfind]
    · rfl
  · rename_i hnew
    have hnone : state.members.find? (fun member => member.principal = principal) = none := by
      simpa using hnew
    by_cases hq : q = principal
    · simp [hq, hnone]
    · simp [hq, Ne.symm hq]

@[simp] theorem standing_unseat (principal q : Principal) :
    (unseat principal state).standing q =
      if q = principal then none else state.standing q := by
  unfold unseat standing
  rw [find?_filter]
  by_cases hq : q = principal
  · subst hq
    simp
  · rw [if_neg hq]
    congr 2
    funext member
    by_cases heq : member.principal = q <;> simp [heq, hq]

@[simp] theorem standing_takeUp {invitation : Invitation} {grant : Grant} {redeemer : Principal}
    {now : Int} (hvalid : redeemer.validate = .ok ()) (q : Principal) :
    (takeUp invitation grant redeemer now state).standing q =
      if q = redeemer ∧ state.standing redeemer = none then some invitation.standing
      else state.standing q := by
  have hnone : state.standing redeemer = none ↔ redeemer ∉ state.principals := by
    rw [← standing_isSome_iff, Option.not_isSome_iff_eq_none]
  rw [standing, members_takeUp hvalid]
  by_cases hheld : redeemer ∈ state.principals
  · have hsome : state.standing redeemer ≠ none := fun h => hnone.mp h hheld
    simp only [if_pos hheld, hsome, and_false, if_false]
    rfl
  · have hstranger := hnone.mpr hheld
    simp only [if_neg hheld, find?_append, hstranger, and_true]
    by_cases hq : q = redeemer
    · subst hq
      have hfind := Option.map_eq_none_iff.mp hstranger
      simp [hfind]
    · simp [hq, Ne.symm hq, standing]

end OrganizationState

/-! ## Where an offer comes from -/

def admin : Principal := ⟨"https://id.example", "admin"⟩

end Aiwatcher.Iam
