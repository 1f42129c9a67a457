import Aiwatcher.Iam.Standing
import Aiwatcher.Library.Table

/-!
# Aiwatcher.Iam.Trail

The store of organizations, each with the trail of what changed it (`memory.rs`,
`postgres.rs`, `retention.rs`).  A mutation is stored with its entry; a sweep takes the
entries older than a cutoff, the newest apart, and writes down how far it got.

The two adapters differ in where the next sequence is read and in what a sweep makes of the
mark that is there.

The law of the audit trail.  Sequences go up and are used once, and what was removed is
counted, whatever the clock says (`Trail`).  That the trail begins after the mark (`Begins`)
holds where every sweep takes a front of the trail: entries are swept by their time, and the
mark is of their sequence.
-/

namespace Aiwatcher.Iam

open Library Refusal OrganizationState List

/-! ## Entries -/

inductive AuditAction where
  | organizationCreated (organization : Organization)
  | commandApplied (command : Command) (change : Change)
  | invitationCreated (invitation : Invitation)
  | invitationRevoked (invitation : InvitationId)
  | invitationRedeemed (invitation : InvitationId) (grant : GrantId)
  deriving DecidableEq, Repr

structure AuditEntry where
  sequence : Int
  organization : OrganizationId
  actor : Principal
  occurredAt : Int
  action : AuditAction
  deriving DecidableEq, Repr

/-- Where the trail begins, and why it does not begin at one. -/
structure AuditWatermark where
  organization : OrganizationId
  prunedThroughSequence : Int
  prunedBefore : Int
  policyId : String
  ttlDays : Nat
  prunedAt : Int
  removedTotal : Nat
  deriving DecidableEq, Repr

structure AuditedOrganization where
  state : OrganizationState
  audit : List AuditEntry
  watermark : Option AuditWatermark
  deriving DecidableEq, Repr

/-! ## Retention -/

def DAY_SECONDS : Int := 86400

structure AuditRetention where
  ttlDays : Nat
  policyId : String
  deriving DecidableEq, Repr

/-- `i64::MIN`, where a clock far enough back stops. -/
def earliest : Int := -2 ^ 63

/-- Entries from before this moment may go. -/
def AuditRetention.cutoff (retention : AuditRetention) (now : Int) : Int :=
  max earliest (now - retention.ttlDays * DAY_SECONDS)

/-! ## Adapters -/

inductive Adapter where
  | memory
  | postgres
  deriving DecidableEq, Repr

namespace AuditedOrganization

/-- The highest sequence a sweep has removed, or nothing. -/
def prunedThrough (stored : AuditedOrganization) : Int :=
  (stored.watermark.map (·.prunedThroughSequence)).getD 0

def removedTotal (stored : AuditedOrganization) : Nat :=
  (stored.watermark.map (·.removedTotal)).getD 0

/-- The last entry: the vector's, or the one of the highest sequence. -/
def top (adapter : Adapter) (stored : AuditedOrganization) : Option Int :=
  match adapter with
  | .memory => (stored.audit.getLast?).map (·.sequence)
  | .postgres => (stored.audit.map (·.sequence)).max?

def nextSequence (adapter : Adapter) (stored : AuditedOrganization) : Int :=
  match adapter with
  | .memory => ((stored.top .memory).or (stored.watermark.map (·.prunedThroughSequence))).getD 0 + 1
  | .postgres => (stored.top .postgres).getD 0 + 1

def pushAudit (adapter : Adapter) (organization : OrganizationId) (actor : Principal)
    (occurredAt : Int) (action : AuditAction) (stored : AuditedOrganization) :
    AuditedOrganization :=
  { stored with
    audit := stored.audit ++ [{
      sequence := stored.nextSequence adapter
      organization := organization
      actor := actor
      occurredAt := occurredAt
      action := action }] }

/-- An entry a sweep takes: older than the cutoff, and not the newest. -/
def removable (cutoff top : Int) (entry : AuditEntry) : Bool :=
  entry.occurredAt < cutoff && entry.sequence < top

/-- How far the mark is moved by a sweep that removed up to `through`. -/
def markThrough (adapter : Adapter) (stored : AuditedOrganization) (through : Int) : Int :=
  match adapter with
  | .memory => through
  | .postgres => max stored.prunedThrough through

/-- One organization's part of a sweep. -/
def prune (adapter : Adapter) (organization : OrganizationId) (retention : AuditRetention)
    (now : Int) (stored : AuditedOrganization) : AuditedOrganization :=
  let cutoff := retention.cutoff now
  match stored.top adapter with
  | none => stored
  | some top =>
    let removed := stored.audit.filter (removable cutoff top)
    match (removed.map (·.sequence)).max? with
    | none => stored
    | some through => {
        state := stored.state
        audit := stored.audit.filter fun entry => !removable cutoff top entry
        watermark := some {
          organization := organization
          prunedThroughSequence := stored.markThrough adapter through
          prunedBefore := cutoff
          policyId := retention.policyId
          ttlDays := retention.ttlDays
          prunedAt := now
          removedTotal := stored.removedTotal + removed.length } }

end AuditedOrganization

/-! ## The store -/

/-- What is stored of a state: its document has a size, and a limit. -/
structure Encoding where
  bytes : OrganizationState → Nat

def MAX_DOCUMENT_BYTES : Nat := 4 * 1024 * 1024

def Encoding.encode (encoding : Encoding) (state : OrganizationState) : Except Error Unit := do
  state.validate
  refuseIf (encoding.bytes state > MAX_DOCUMENT_BYTES)
    (.invalid "organization IAM metadata exceeds 4 MiB")

/-- What the trail says of an accepted act. -/
def auditAction (next : OrganizationState) (act : Act) (answer : Answer) :
    Except Error AuditAction :=
  match act.operation, answer with
  | .apply command, .changed change => .ok (.commandApplied command change)
  | .revokeInvitation invitation, _ => .ok (.invitationRevoked invitation)
  | _, .invited invitation => .ok (.invitationCreated invitation)
  | _, .redeemed learned =>
    (okOr (.backend "a redemption produced no invitation") (next.invitationOf learned.grant)).map
      fun invitation => .invitationRedeemed invitation learned.grant
  | _, _ => .error (.backend "no act answers so")

abbrev IamStore := BTreeMap OrganizationId AuditedOrganization

inductive StoreAct where
  | createOrganization (id : OrganizationId) (owner : Principal) (label : String) (now : Int)
  | act (organization : OrganizationId) (act : Act)
  | pruneAudit (retention : AuditRetention) (now : Int)
  deriving DecidableEq, Repr

/-- A new organization and its first entry. -/
def createOrganization (encoding : Encoding) (id : OrganizationId) (owner : Principal)
    (label : String) (now : Int) : Except Error AuditedOrganization := do
  let state ← start id owner label
  encoding.encode state
  pure {
    state := state
    audit := [{
      sequence := 1
      organization := id
      actor := owner
      occurredAt := now
      action := .organizationCreated state.organization }]
    watermark := none }

/-- One act on one organization: the policy's, checked, with its entry. -/
def mutate (adapter : Adapter) (encoding : Encoding) (organization : OrganizationId) (act : Act)
    (stored : AuditedOrganization) : Except Error AuditedOrganization :=
  match act.run.run stored.state with
  | .error error _ => .error error
  | .ok answer next => do
      encoding.encode next
      let action ← auditAction next act answer
      pure { stored.pushAudit adapter organization act.actor act.now action with state := next }

/-- The organization a redemption lands in: the first that holds the offer, in the memory of
one process, or one of them. -/
def landsIn (adapter : Adapter) (store : IamStore) (organization : OrganizationId) (act : Act) :
    Bool :=
  match act.operation with
  | .redeem tokenSha256 =>
    match adapter with
    | .memory =>
      (store.toList.find? fun entry => (entry.2.state.offered tokenSha256).isSome).map (·.1) =
        some organization
    | .postgres => true
  | _ => true

/-- The store, step by step, telling the entries it writes. -/
def iamStore (adapter : Adapter) (encoding : Encoding) :
    Machine IamStore StoreAct AuditEntry where
  step store
    | .createOrganization id owner label now =>
      match createOrganization encoding id owner label now with
      | .error _ => none
      | .ok stored => some (stored.audit, store.insert id stored)
    | .act organization act =>
      if landsIn adapter store organization act then
        match store[organization]? with
        | none => none
        | some stored =>
          match mutate adapter encoding organization act stored with
          | .error _ => none
          | .ok next => some (next.audit.getLast?.toList, store.insert organization next)
      else none
    | .pruneAudit retention now =>
      some ([], store.map fun organization stored =>
        stored.prune adapter organization retention now)

namespace AuditedOrganization

/-- What is stored of the entries recorded so far. -/
structure Trail (history : List AuditEntry) (stored : AuditedOrganization) : Prop where
  ascending : (history.map (·.sequence)).Pairwise (· < ·)
  positive : ∀ entry ∈ history, 0 < entry.sequence
  kept : stored.audit.Sublist history
  newest : stored.audit.getLast? = history.getLast?
  held : history ≠ []
  total : stored.removedTotal + stored.audit.length = history.length

/-- The trail begins after the mark. -/
def Begins (stored : AuditedOrganization) : Prop :=
  ∀ entry ∈ stored.audit, stored.prunedThrough < entry.sequence

/-- A sweep at that moment takes a front of the trail, the newest entry apart. -/
def TakesFront (adapter : Adapter) (retention : AuditRetention) (now : Int)
    (stored : AuditedOrganization) : Prop :=
  ∀ top, stored.top adapter = some top → ∀ gone ∈ stored.audit, ∀ kept ∈ stored.audit,
    removable (retention.cutoff now) top gone → ¬removable (retention.cutoff now) top kept →
      gone.sequence < kept.sequence

variable {adapter : Adapter} {history : List AuditEntry} {stored : AuditedOrganization}

/-! ## The newest entry -/

section

variable (trail : Trail history stored)

include trail

theorem Trail.exists_newest (adapter : Adapter) :
    ∃ init newest, stored.audit = init ++ [newest] ∧ newest ∈ history ∧
      (∀ entry ∈ history, entry.sequence ≤ newest.sequence) ∧
      (∀ entry ∈ init, entry.sequence < newest.sequence) ∧
      stored.top adapter = some newest.sequence := by
  obtain ⟨before, newest, rfl⟩ := (eq_nil_or_concat' history).resolve_left trail.held
  have hlast : stored.audit.getLast? = some newest := by simp [trail.newest]
  obtain ⟨init, hinit⟩ := getLast?_eq_some_iff.mp hlast
  have hup : ∀ entry ∈ before, entry.sequence < newest.sequence := by
    have h := trail.ascending
    rw [map_append, pairwise_append] at h
    simpa using h.2.2
  have hup' : ∀ entry ∈ before ++ [newest], entry.sequence ≤ newest.sequence := by
    intro entry hentry
    rcases mem_append.mp hentry with h | h
    · exact Int.le_of_lt (hup entry h)
    · rw [mem_singleton.mp h]
  have hinit' : ∀ entry ∈ init, entry.sequence < newest.sequence := by
    have h := List.Pairwise.sublist (trail.kept.map (·.sequence)) trail.ascending
    rw [hinit, map_append, pairwise_append] at h
    simpa using h.2.2
  refine ⟨init, newest, hinit, by simp, hup', hinit', ?_⟩
  cases adapter with
  | memory => simp [top, hlast]
  | postgres =>
    rw [top, max?_eq_some_iff]
    refine ⟨by simp [hinit], fun sequence hsequence => ?_⟩
    obtain ⟨entry, hentry, rfl⟩ := mem_map.mp hsequence
    exact hup' entry (trail.kept.subset hentry)

/-! ## Recording -/

theorem Trail.nextSequence (adapter : Adapter) :
    (∀ entry ∈ history, entry.sequence < stored.nextSequence adapter) ∧
      ∃ newest ∈ stored.audit, stored.nextSequence adapter = newest.sequence + 1 := by
  obtain ⟨init, newest, hinit, -, hup, -, htop⟩ := trail.exists_newest adapter
  have hnext : stored.nextSequence adapter = newest.sequence + 1 := by
    cases adapter <;> simp [AuditedOrganization.nextSequence, htop]
  refine ⟨fun entry hentry => ?_, newest, by simp [hinit], hnext⟩
  rw [hnext]
  exact Int.lt_add_one_of_le (hup entry hentry)

theorem Trail.push {entry : AuditEntry} (hsequence : entry.sequence = stored.nextSequence adapter)
    (state : OrganizationState) :
    Trail (history ++ [entry])
      { stored with state := state, audit := stored.audit ++ [entry] } := by
  obtain ⟨hup, newest, hnewest, hnext⟩ := trail.nextSequence adapter
  have hpositive := trail.positive newest (trail.kept.subset hnewest)
  exact {
    ascending := by
      rw [map_append, pairwise_append]
      refine ⟨trail.ascending, by simp, ?_⟩
      simpa [hsequence] using hup
    positive := by
      intro held hheld
      rcases mem_append.mp hheld with h | h
      · exact trail.positive held h
      · rw [mem_singleton.mp h, hsequence, hnext]
        omega
    kept := trail.kept.append (List.Sublist.refl _)
    newest := by simp
    held := by simp
    total := by
      have htotal := trail.total
      simp only [AuditedOrganization.removedTotal, length_append] at htotal ⊢
      omega }

theorem Begins.push (hbegins : stored.Begins) {entry : AuditEntry}
    (hsequence : entry.sequence = stored.nextSequence adapter) (state : OrganizationState) :
    Begins { stored with state := state, audit := stored.audit ++ [entry] } := by
  intro held hheld
  obtain ⟨-, newest, hnewest, hnext⟩ := trail.nextSequence adapter
  have hmark : stored.prunedThrough < newest.sequence := hbegins newest hnewest
  change stored.prunedThrough < held.sequence
  rcases mem_append.mp hheld with h | h
  · exact hbegins held h
  · rw [mem_singleton.mp h, hsequence, hnext]
    omega

end

/-! ## Sweeping -/

/-- What a sweep does to a trail: nothing, or it takes the removable entries and moves the
mark to the last of them. -/
theorem prune_cases (organization : OrganizationId) (retention : AuditRetention) (now : Int)
    {sequence : Int} (htop : stored.top adapter = some sequence) :
    (stored.prune adapter organization retention now = stored ∧
        ∀ entry ∈ stored.audit, ¬removable (retention.cutoff now) sequence entry) ∨
      ∃ last ∈ stored.audit, removable (retention.cutoff now) sequence last ∧
        (∀ entry ∈ stored.audit, removable (retention.cutoff now) sequence entry →
          entry.sequence ≤ last.sequence) ∧
        (stored.prune adapter organization retention now).audit =
          stored.audit.filter (fun entry => !removable (retention.cutoff now) sequence entry) ∧
        (stored.prune adapter organization retention now).prunedThrough =
          stored.markThrough adapter last.sequence ∧
        (stored.prune adapter organization retention now).removedTotal = stored.removedTotal +
          (stored.audit.filter (removable (retention.cutoff now) sequence)).length := by
  unfold prune
  simp only [htop]
  split
  · rename_i hnone
    refine .inl ⟨rfl, fun entry hentry hremovable => ?_⟩
    rw [max?_eq_none_iff, map_eq_nil_iff, filter_eq_nil_iff] at hnone
    exact hnone entry hentry hremovable
  · rename_i through hthrough
    rw [max?_eq_some_iff] at hthrough
    obtain ⟨hmem, hmax⟩ := hthrough
    obtain ⟨last, hlast, rfl⟩ := mem_map.mp hmem
    obtain ⟨hlast, hremovable⟩ := mem_filter.mp hlast
    refine .inr ⟨last, hlast, hremovable, fun entry hentry hgone => ?_, rfl, rfl, rfl⟩
    exact hmax entry.sequence
      (mem_map.mpr ⟨entry, mem_filter.mpr ⟨hentry, hgone⟩, rfl⟩)

section

variable (trail : Trail history stored)

include trail

theorem Trail.prune (adapter : Adapter) (organization : OrganizationId) (retention : AuditRetention)
    (now : Int) : Trail history (stored.prune adapter organization retention now) := by
  obtain ⟨init, newest, hinit, -, -, -, htop⟩ := trail.exists_newest adapter
  rcases prune_cases organization retention now htop with
    ⟨hsame, -⟩ | ⟨last, -, -, -, haudit, -, htotal⟩
  · rw [hsame]
    exact trail
  · have hstays : removable (retention.cutoff now) newest.sequence newest = false := by
      simp [removable]
    exact { trail with
      kept := haudit ▸ List.filter_sublist.trans trail.kept
      newest := by
        rw [haudit, hinit, filter_append, ← trail.newest, hinit]
        simp [hstays]
      total := by
        have hcount := stored.audit.length_eq_length_filter_add
          (removable (retention.cutoff now) newest.sequence)
        have hbefore := trail.total
        rw [htotal, haudit]
        omega }

theorem prunedThrough_prune (hbegins : stored.Begins) (adapter : Adapter)
    (organization : OrganizationId) (retention : AuditRetention) (now : Int) :
    stored.prunedThrough ≤ (stored.prune adapter organization retention now).prunedThrough := by
  obtain ⟨init, newest, hinit, -, -, -, htop⟩ := trail.exists_newest adapter
  rcases prune_cases organization retention now htop with
    ⟨hsame, -⟩ | ⟨last, hlast, -, -, -, hmark, -⟩
  · rw [hsame]
  · have h := hbegins last hlast
    rw [hmark]
    cases adapter with
    | memory => exact Int.le_of_lt h
    | postgres => exact Int.le_max_left _ _

/-- A sweep that takes a front leaves the trail after the mark. -/
theorem Begins.prune (hbegins : stored.Begins) {retention : AuditRetention} {now : Int}
    (hfront : stored.TakesFront adapter retention now) (organization : OrganizationId) :
    (stored.prune adapter organization retention now).Begins := by
  obtain ⟨init, newest, hinit, -, -, -, htop⟩ := trail.exists_newest adapter
  rcases prune_cases organization retention now htop with
    ⟨hsame, hnone⟩ | ⟨last, hlast, hgone, hmax, haudit, hmark, -⟩
  · rw [hsame]
    exact hbegins
  · intro kept hkept
    rw [haudit, mem_filter] at hkept
    have hafter : last.sequence < kept.sequence :=
      hfront newest.sequence htop last hlast kept hkept.1 hgone (by simpa using hkept.2)
    have hbefore := hbegins kept hkept.1
    rw [hmark]
    cases adapter with
    | memory => exact hafter
    | postgres => exact Int.max_lt.mpr ⟨hbefore, hafter⟩

end

/-- A sweep that leaves the trail after the mark took a front. -/
theorem Begins.takesFront {organization : OrganizationId} {retention : AuditRetention} {now : Int}
    (h : (stored.prune adapter organization retention now).Begins) :
    stored.TakesFront adapter retention now := by
  intro sequence htop gone hgone kept hkept hremovable hstays
  rcases prune_cases organization retention now htop with
    ⟨-, hnone⟩ | ⟨last, -, -, hmax, haudit, hmark, -⟩
  · exact absurd hremovable (hnone gone hgone)
  · have hkept' : kept ∈ (stored.prune adapter organization retention now).audit := by
      rw [haudit, mem_filter]
      exact ⟨hkept, by simpa using hstays⟩
    have hlast := hmax gone hgone hremovable
    have hmarked := h kept hkept'
    rw [hmark] at hmarked
    cases adapter with
    | memory => exact Int.lt_of_le_of_lt hlast hmarked
    | postgres => exact Int.lt_of_le_of_lt hlast (Int.max_lt.mp hmarked).2

end AuditedOrganization

end Aiwatcher.Iam
