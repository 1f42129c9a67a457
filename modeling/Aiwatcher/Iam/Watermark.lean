import Aiwatcher.Iam.Trail

/-!
# Aiwatcher.Iam.Watermark

The law of the audit trail over the runs of the store.  Sequences and the count of what was
removed hold in every run; that the trail begins after the mark, and that the mark goes one
way, hold exactly in the runs whose sweeps take a front of each trail.
-/

namespace Aiwatcher.Iam

open Library Refusal OrganizationState AuditedOrganization List Table Machine Std

abbrev StoreStep := Step IamStore StoreAct AuditEntry

/-- The entries one organization has been given so far. -/
def recorded (organization : OrganizationId) (past : List StoreStep) : List AuditEntry :=
  (past.flatMap (·.out)).filter (·.organization = organization)

/-- What the trail of every organization is to be after a step. -/
structure AuditLaw (past : List StoreStep) (st : StoreStep) (organization : OrganizationId)
    (stored : AuditedOrganization) : Prop where
  ascending : ((recorded organization (past ++ [st])).map (·.sequence)).Pairwise (· < ·)
  told : ∀ entry ∈ stored.audit, entry ∈ recorded organization (past ++ [st])
  begins : ∀ entry ∈ stored.audit, stored.prunedThrough < entry.sequence
  forward : ∀ before, st.before[organization]? = some before →
    before.prunedThrough ≤ stored.prunedThrough
  removed : stored.removedTotal =
    ((recorded organization (past ++ [st])).filter (· ∉ stored.audit)).length

/-- An organization is founded under an id that is not held. -/
def StoreAct.Fresh (store : IamStore) : StoreAct → Prop
  | .createOrganization id _ _ _ => store[id]? = none
  | _ => True

instance (store : IamStore) (act : StoreAct) : Decidable (act.Fresh store) :=
  match act with
  | .createOrganization id _ _ _ => inferInstanceAs (Decidable (store[id]? = none))
  | .act _ _ => isTrue trivial
  | .pruneAudit _ _ => isTrue trivial

/-- A sweep takes a front of every trail it meets. -/
def SweepsFronts (adapter : Adapter) (store : IamStore) (act : StoreAct) : Prop :=
  ∀ retention now, act = .pruneAudit retention now →
    ∀ (organization : OrganizationId) stored, store[organization]? = some stored →
      stored.TakesFront adapter retention now

section

variable {adapter : Adapter} {encoding : Encoding}

/-! ## One step -/

theorem createOrganization_ok {id : OrganizationId} {owner : Principal} {label : String}
    {now : Int} {stored : AuditedOrganization}
    (h : createOrganization encoding id owner label now = .ok stored) :
    ∃ entry : AuditEntry, stored.audit = [entry] ∧ stored.watermark = none ∧
      entry.sequence = 1 ∧ entry.organization = id := by
  simp only [createOrganization, except_bind_ok_iff] at h
  obtain ⟨state, -, -, -, h⟩ := h
  cases h
  exact ⟨_, rfl, rfl, rfl, rfl⟩

theorem mutate_ok {organization : OrganizationId} {act : Act}
    {stored next : AuditedOrganization}
    (h : mutate adapter encoding organization act stored = .ok next) :
    ∃ (state : OrganizationState) (entry : AuditEntry),
      next = { stored with state := state, audit := stored.audit ++ [entry] } ∧
        entry.sequence = stored.nextSequence adapter ∧ entry.organization = organization := by
  unfold mutate at h
  split at h
  · cases h
  · simp only [except_bind_ok_iff] at h
    obtain ⟨-, -, action, -, h⟩ := h
    cases h
    exact ⟨_, _, rfl, rfl, rfl⟩

/-- What a step of the store can do: found an organization, record one entry, or sweep. -/
inductive Stored (adapter : Adapter) (store : IamStore) :
    StoreAct → List AuditEntry → IamStore → Prop
  | created {id owner label now} {stored : AuditedOrganization} {entry : AuditEntry} :
      stored.audit = [entry] → stored.watermark = none → entry.sequence = 1 →
      entry.organization = id →
      Stored adapter store (.createOrganization id owner label now) [entry]
        (store.insert id stored)
  | mutated {organization act} {stored : AuditedOrganization} {state : OrganizationState}
      {entry : AuditEntry} :
      store[organization]? = some stored → entry.sequence = stored.nextSequence adapter →
      entry.organization = organization →
      Stored adapter store (.act organization act) [entry]
        (store.insert organization
          { stored with state := state, audit := stored.audit ++ [entry] })
  | swept {retention now} :
      Stored adapter store (.pruneAudit retention now) []
        (store.map fun organization stored => stored.prune adapter organization retention now)

variable {act : StoreAct} {out : List AuditEntry} {past : List StoreStep} {store store' : IamStore}

theorem stored_of_step (h : (iamStore adapter encoding).step store act = some (out, store')) :
    Stored adapter store act out store' := by
  cases act with
  | createOrganization id owner label now =>
    simp only [iamStore] at h
    split at h
    · cases h
    · rename_i stored hstored
      obtain ⟨entry, haudit, hmark, hsequence, hid⟩ := createOrganization_ok hstored
      cases h
      rw [haudit]
      exact .created haudit hmark hsequence hid
  | act organization act =>
    simp only [iamStore] at h
    split at h
    · split at h
      · cases h
      · rename_i stored hstored
        split at h
        · cases h
        · rename_i next hnext
          obtain ⟨state, entry, rfl, hsequence, hid⟩ := mutate_ok hnext
          cases h
          have hlast : (stored.audit ++ [entry]).getLast?.toList = [entry] := by simp
          rw [hlast]
          exact .mutated hstored hsequence hid
    · cases h
  | pruneAudit retention now =>
    cases h
    exact .swept

/-! ## The books over a run -/

/-- What is stored of every organization is a trail of what was recorded of it. -/
structure Kept (past : List StoreStep) (store : IamStore) : Prop where
  trail : ∀ (organization : OrganizationId) stored, store[organization]? = some stored →
    Trail (recorded organization past) stored
  unheld : ∀ organization : OrganizationId, store[organization]? = none →
    recorded organization past = []

/-- Every stored trail begins after its mark. -/
def Marked (store : IamStore) : Prop :=
  ∀ (organization : OrganizationId) stored, store[organization]? = some stored → stored.Begins

theorem recorded_concat (organization : OrganizationId) (past : List StoreStep) (st : StoreStep) :
    recorded organization (past ++ [st]) =
      recorded organization past ++ st.out.filter (·.organization = organization) := by
  simp [recorded]

theorem trail_singleton {stored : AuditedOrganization} {entry : AuditEntry}
    (haudit : stored.audit = [entry]) (hmark : stored.watermark = none)
    (hsequence : entry.sequence = 1) : Trail [entry] stored where
  ascending := by simp
  positive := by simp [hsequence]
  kept := by rw [haudit]
  newest := by rw [haudit]
  held := by simp
  total := by simp [removedTotal, haudit, hmark]

theorem Kept.step {st : StoreStep} (h : Kept past st.before) (hfresh : st.input.Fresh st.before)
    (hstep : Stored adapter st.before st.input st.out st.after) : Kept (past ++ [st]) st.after := by
  obtain ⟨before, input, out, after⟩ := st
  dsimp only at h hfresh hstep
  cases hstep with
  | @created id owner label now stored entry haudit hmark hsequence hid =>
    constructor
    · intro organization held hheld
      rw [recorded_concat]
      obtain ⟨rfl, rfl⟩ | ⟨hne, hheld⟩ := of_insert hheld
      · rw [h.unheld _ hfresh]
        simpa [hid] using trail_singleton haudit hmark hsequence
      · simpa [hid, hne] using h.trail organization held hheld
    · intro organization hnone
      rw [recorded_concat]
      rw [Table.getElem?_insert] at hnone
      split at hnone
      · cases hnone
      · rename_i hne
        simpa [hid, hne] using h.unheld organization hnone
  | @mutated id act stored state entry hstored hsequence hid =>
    constructor
    · intro organization held hheld
      rw [recorded_concat]
      obtain ⟨rfl, rfl⟩ | ⟨hne, hheld⟩ := of_insert hheld
      · simpa [hid] using (h.trail _ stored hstored).push hsequence state
      · simpa [hid, hne] using h.trail organization held hheld
    · intro organization hnone
      rw [recorded_concat]
      rw [Table.getElem?_insert] at hnone
      split at hnone
      · cases hnone
      · rename_i hne
        simpa [hid, hne] using h.unheld organization hnone
  | @swept retention now =>
    constructor
    · intro organization held hheld
      rw [ExtTreeMap.getElem?_map, Option.map_eq_some_iff] at hheld
      obtain ⟨stored, hstored, rfl⟩ := hheld
      rw [recorded_concat]
      simpa using (h.trail organization stored hstored).prune adapter organization retention now
    · intro organization hnone
      rw [ExtTreeMap.getElem?_map, Option.map_eq_none_iff] at hnone
      rw [recorded_concat]
      simpa using h.unheld organization hnone

theorem Marked.step (h : Marked store) (hkept : Kept past store)
    (hfronts : SweepsFronts adapter store act) (hstep : Stored adapter store act out store') :
    Marked store' := by
  intro organization held hheld
  cases hstep with
  | @created id owner label now stored entry haudit hmark hsequence hid =>
    obtain ⟨-, rfl⟩ | ⟨-, hheld⟩ := of_insert hheld
    · simp [Begins, prunedThrough, haudit, hmark, hsequence]
    · exact h organization held hheld
  | @mutated id act stored state entry hstored hsequence hid =>
    obtain ⟨-, rfl⟩ | ⟨-, hheld⟩ := of_insert hheld
    · exact (h _ stored hstored).push (hkept.trail _ stored hstored) hsequence state
    · exact h organization held hheld
  | @swept retention now =>
    rw [ExtTreeMap.getElem?_map, Option.map_eq_some_iff] at hheld
    obtain ⟨stored, hstored, rfl⟩ := hheld
    exact (h organization stored hstored).prune (hkept.trail organization stored hstored)
      (hfronts retention now rfl organization stored hstored) organization

/-- The mark goes one way where the trail begins after it. -/
theorem Marked.forward (h : Marked store) (hkept : Kept past store) (hfresh : act.Fresh store)
    (hstep : Stored adapter store act out store') {organization : OrganizationId}
    {before after : AuditedOrganization} (hbefore : store[organization]? = some before)
    (hafter : store'[organization]? = some after) : before.prunedThrough ≤ after.prunedThrough := by
  cases hstep with
  | @created id owner label now stored entry haudit hmark hsequence hid =>
    rw [Table.getElem?_insert] at hafter
    split at hafter
    · rename_i heq
      subst heq
      have hnone : store[id]? = none := hfresh
      rw [hbefore] at hnone
      cases hnone
    · rw [hbefore] at hafter
      cases hafter
      exact Int.le_refl _
  | @mutated id act stored state entry hstored hsequence hid =>
    rw [Table.getElem?_insert] at hafter
    split at hafter
    · rename_i heq
      subst heq
      rw [hbefore] at hstored
      cases hstored
      cases hafter
      exact Int.le_refl _
    · rw [hbefore] at hafter
      cases hafter
      exact Int.le_refl _
  | @swept retention now =>
    rw [ExtTreeMap.getElem?_map, hbefore] at hafter
    cases hafter
    exact prunedThrough_prune (hkept.trail organization before hbefore)
      (h organization before hbefore) adapter organization retention now

theorem kept_empty : Kept [] (∅ : IamStore) where
  trail := by simp
  unheld := by simp [recorded]

theorem marked_empty : Marked ∅ := by
  simp [Marked]

theorem kept_of_run {acts : List StoreAct} {past rest : List StoreStep} {st : StoreStep}
    (hrun : (iamStore adapter encoding).run ∅ acts = past ++ st :: rest)
    (hfresh : ∀ st ∈ (iamStore adapter encoding).run ∅ acts, st.input.Fresh st.before) :
    Kept past st.before ∧ Kept (past ++ [st]) st.after := by
  obtain ⟨acts₁, acts₂, rfl, hpast, hrest⟩ := exists_split_run hrun
  have hbefore : st.before = (iamStore adapter encoding).last ∅ acts₁ :=
    before_of_run_cons hrest
  have hmem : st ∈ (iamStore adapter encoding).run ∅ (acts₁ ++ acts₂) := by
    rw [hrun]
    exact mem_append_right _ mem_cons_self
  have hkept : Kept ([] ++ (iamStore adapter encoding).run ∅ acts₁)
      ((iamStore adapter encoding).last ∅ acts₁) :=
    record_run Kept (fun store act => act.Fresh store)
      (fun past st h hadmits hstep => h.step hadmits (stored_of_step hstep)) kept_empty
      (fun st hst => hfresh st (by rw [hrun, ← hpast]; exact mem_append_left _ hst))
  rw [nil_append, hpast, ← hbefore] at hkept
  exact ⟨hkept, hkept.step (hfresh st hmem) (stored_of_step (step_of_mem_run hmem))⟩

theorem length_filter_not_mem_of_sublist {α : Type} [DecidableEq α] {kept history : List α}
    (h : kept.Sublist history) (hnodup : history.Nodup) :
    (history.filter (· ∉ kept)).length + kept.length = history.length := by
  have hin : history.filter (· ∈ kept) = kept := by
    induction h with
    | slnil => rfl
    | @cons kept history entry h ih =>
      obtain ⟨hnot, hnodup⟩ := nodup_cons.mp hnodup
      rw [filter_cons_of_neg (by simpa using fun hmem => hnot (h.subset hmem)), ih hnodup]
    | @cons_cons kept history entry h ih =>
      obtain ⟨hnot, hnodup⟩ := nodup_cons.mp hnodup
      rw [filter_cons_of_pos (by simp)]
      congr 1
      rw [← ih hnodup]
      refine filter_congr fun held hheld => ?_
      have hne : held ≠ entry := by
        rintro rfl
        exact hnot hheld
      simp [hne, ih hnodup]
  have hcount := history.length_eq_length_filter_add (· ∈ kept)
  rw [hin] at hcount
  simpa [Nat.add_comm] using hcount.symm


end

/-! ## The law -/

/-- **The law of the audit trail**, of either adapter: what is recorded of an organization goes
up and is used once, the trail begins after the mark, the mark goes one way and counts what is
gone, in exactly the runs whose sweeps take fronts. -/
theorem audit_law_iff (adapter : Adapter) (encoding : Encoding) (acts : List StoreAct)
    (hfresh : ∀ st ∈ (iamStore adapter encoding).run ∅ acts, st.input.Fresh st.before) :
    (∀ past st rest, (iamStore adapter encoding).run ∅ acts = past ++ st :: rest →
        ∀ organization stored, st.after[organization]? = some stored →
          AuditLaw past st organization stored) ↔
      ∀ st ∈ (iamStore adapter encoding).run ∅ acts, SweepsFronts adapter st.before st.input := by
  constructor
  · intro h st hst retention now hinput organization stored hstored
    obtain ⟨past, rest, hrun⟩ := List.append_of_mem hst
    have hstep := Machine.step_of_mem_run hst
    rw [hinput] at hstep
    have hafter : st.after[organization]? =
        some (stored.prune adapter organization retention now) := by
      simp only [iamStore, Option.some.injEq, Prod.mk.injEq] at hstep
      rw [← hstep.2, Std.ExtTreeMap.getElem?_map, hstored]
      rfl
    exact Begins.takesFront (h past st rest hrun organization _ hafter).begins
  · intro h past st rest hrun organization stored hstored
    have hmem : st ∈ (iamStore adapter encoding).run ∅ acts := by
      rw [hrun]
      exact List.mem_append_right _ List.mem_cons_self
    obtain ⟨hkept, hkept'⟩ := kept_of_run hrun hfresh
    have hmarked : Marked st.before ∧ Marked st.after := by
      obtain ⟨h₁, h₂⟩ := Machine.inv_of_mem_run
        (fun store => Marked store ∧ ∃ past, Kept past store)
        (fun store act => act.Fresh store ∧ SweepsFronts adapter store act)
        (fun store act out store' hinv hadmits hstep => by
          obtain ⟨hmarked, past, hkept⟩ := hinv
          have hstored := stored_of_step hstep
          exact ⟨hmarked.step hkept hadmits.2 hstored, past ++ [⟨store, act, out, store'⟩],
            Kept.step hkept hadmits.1 hstored⟩)
        ⟨marked_empty, [], kept_empty⟩ (fun st hst => ⟨hfresh st hst, h st hst⟩) st hmem
      exact ⟨h₁.1, h₂.1⟩
    have hstep := stored_of_step (Machine.step_of_mem_run hmem)
    have trail := hkept'.trail organization stored hstored
    have hnodup : (recorded organization (past ++ [st])).Nodup :=
      List.Nodup.of_map _ (trail.ascending.imp fun hlt => Int.ne_of_lt hlt)
    exact {
      ascending := trail.ascending
      told := fun entry hentry => trail.kept.subset hentry
      begins := hmarked.2 organization stored hstored
      forward := fun before hbefore =>
        hmarked.1.forward hkept (hfresh st hmem) hstep hbefore hstored
      removed := by
        have hgone := length_filter_not_mem_of_sublist trail.kept hnodup
        have htotal := trail.total
        omega }

/-! ## A clock that steps back -/

/-- Two days of retention. -/
def twoDays : AuditRetention := ⟨2, "audit"⟩

/-- An organization founded on the fourth day, and acts on the third and on the seventh. -/
def steppedBack : List StoreAct :=
  [.createOrganization ⟨1⟩ founder "Workshop" (4 * DAY_SECONDS),
    .act ⟨1⟩ ⟨founder, .apply (.setMember guest .member), mint 1, 2 * DAY_SECONDS⟩,
    .act ⟨1⟩ ⟨founder, .apply (.setMember guest .guest), mint 2, 7 * DAY_SECONDS⟩]

/-- Nothing is too large. -/
def small : Encoding := ⟨fun _ => 0⟩

/-- The second entry goes first, and the first stays behind the mark. -/
def sweptOnce : List StoreAct := steppedBack ++ [.pruneAudit twoDays (5 * DAY_SECONDS)]

/-- Then the first goes, and the mark with it. -/
def sweptTwice : List StoreAct := sweptOnce ++ [.pruneAudit twoDays (7 * DAY_SECONDS)]

/-- The sequences stored of the organization, and its mark. -/
def trailOf (adapter : Adapter) (acts : List StoreAct) : Option (List Int × Int) :=
  (((iamStore adapter small).last ∅ acts)[(⟨1⟩ : OrganizationId)]?).map fun stored =>
    (stored.audit.map (·.sequence), stored.prunedThrough)

theorem audit_law_iff_sweptTwice :
    (∀ past st rest, (iamStore .memory small).run ∅ sweptTwice = past ++ st :: rest →
        ∀ organization stored, st.after[organization]? = some stored →
          AuditLaw past st organization stored) ↔
      ∀ st ∈ (iamStore .memory small).run ∅ sweptTwice,
        SweepsFronts .memory st.before st.input :=
  audit_law_iff .memory small sweptTwice (by decide +kernel)

/-- The first entry is stored behind the mark, by either adapter; sweeping it takes the mark of
the one in memory back. -/
theorem entry_behind_the_mark :
    (iamStore .memory small).accepts ∅ sweptTwice ∧
      (iamStore .postgres small).accepts ∅ sweptTwice ∧
      trailOf .memory sweptOnce = some ([1, 3], 2) ∧
      trailOf .postgres sweptOnce = some ([1, 3], 2) ∧
      trailOf .memory sweptTwice = some ([3], 1) := by
  decide +kernel

end Aiwatcher.Iam
