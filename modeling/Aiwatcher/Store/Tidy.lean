import Aiwatcher.Store.Pruning
import Aiwatcher.Store.Sides

/-!
# Aiwatcher.Store.Tidy

A memory store in which an execution without a stream has nothing else either (`Tidy`),
and what callers see to so that it stays so (`Promised`): rows are of the execution they
are appended to and under message ids of its own, a lease is taken of an execution that
is there, and a sweep leaves no timer and no lease behind.
-/

namespace Aiwatcher.Store

open Engine Library Table List

namespace Inner

/-- An execution without a stream has nothing, every outbox row is of an execution with
one, and no two executions share a message id there. -/
structure Tidy (s : Inner) : Prop where
  filed : s.Filed
  blank : ∀ e, s.holds e = false → Blank e s
  outbox : ∀ row ∈ s.outbox, row.publishedAt = none ∧
    ∃ e, row.partitionKey = partitionOf e ∧ s.holds e = true
  ids : ∀ row ∈ s.outbox, ∀ row' ∈ s.outbox, row'.messageId = row.messageId →
    row'.partitionKey = row.partitionKey

/-- What the callers of a store see to. -/
def Promised (s : Inner) : ScopeBinding × Operation → Prop
  | (_, .append execution request _) => request.Own execution ∧
      (∀ row ∈ request.outbox, row.publishedAt = none) ∧
      ∀ row ∈ request.outbox, ∀ held ∈ s.outbox, held.messageId = row.messageId →
        held.partitionKey = row.partitionKey
  | (_, .takeDeciderLease execution ..) => s.holds execution = true
  | (binding, .prune before limit visits) => ∀ e ∈ s.doomed binding before limit visits,
      NoTimer s.timers e ∧ s.deciderLeases[e]? = none
  | _ => True

variable {s : Inner} {binding : ScopeBinding} {execution : String}

theorem tidy_new : new.Tidy where
  filed := ⟨fun key row hrow => by simp [new] at hrow, fun key timer htimer => by
    simp [new] at htimer⟩
  blank e _ := by constructor <;> simp [new, stream]
  outbox row hrow := by cases hrow
  ids row hrow := by cases hrow

theorem Tidy.holds_of_attempt (h : s.Tidy) {key : AttemptKey} {row : AttemptRow}
    (hrow : s.attempts[key]? = some row) : s.holds key.executionId = true := by
  cases hholds : s.holds key.executionId with
  | true => rfl
  | false =>
    rw [(h.blank _ hholds).attempts key rfl] at hrow
    cases hrow

/-- A store that differs at one execution, which has a stream or nothing at all. -/
theorem Tidy.changed (h : s.Tidy) {s' : Inner} (hfiled : s'.Filed)
    (hframe : ∀ e, e ≠ execution → SameAt e s s')
    (hhere : s'.holds execution = true ∨ Blank execution s') (houtbox : s'.outbox = s.outbox)
    (hkept : s.holds execution = true → s'.holds execution = true) : s'.Tidy where
  filed := hfiled
  blank e hholds := by
    by_cases he : e = execution
    · subst he
      exact hhere.resolve_left (by simp [hholds])
    · rw [(hframe e he).holds] at hholds
      exact (h.blank e hholds).of_same (hframe e he)
  outbox row hrow := by
    rw [houtbox] at hrow
    obtain ⟨hnew, e, hkey, hholds⟩ := h.outbox row hrow
    refine ⟨hnew, e, hkey, ?_⟩
    by_cases he : e = execution
    · subst he
      exact hkept hholds
    · rw [(hframe e he).holds, hholds]
  ids := by
    rw [houtbox]
    exact h.ids

/-! ## What each operation leaves -/

theorem Tidy.withLeases (h : s.Tidy) {leases : BTreeMap String DeciderLease}
    (hframe : ∀ e, e ≠ execution → leases[e]? = s.deciderLeases[e]?)
    (hhere : s.holds execution = true ∨ leases[execution]? = none) :
    { s with deciderLeases := leases }.Tidy := by
  have hblank : s.holds execution = true ∨ Blank execution { s with deciderLeases := leases } := by
    cases hholds : s.holds execution with
    | true => exact .inl rfl
    | false =>
      have hlease := hhere.resolve_left (by simp [hholds])
      exact .inr { h.blank execution hholds with lease := hlease }
  exact h.changed ⟨h.filed.attempts, h.filed.timers⟩ (fun e he => lease_frame s (hframe e he))
    hblank rfl (fun hholds => hholds)

theorem Tidy.withAttempt (h : s.Tidy) {key : AttemptKey} {row : AttemptRow} (hrow : row.key = key)
    (hholds : s.holds key.executionId = true) :
    { s with attempts := s.attempts.insert key row }.Tidy :=
  h.changed ⟨keyed_insert h.filed.attempts hrow, h.filed.timers⟩
    (fun _ he => attempt_frame s (Ne.symm he) row) (.inl hholds) rfl (fun hholds => hholds)

theorem Tidy.reach (h : s.Tidy) (execution : String) : (s.reach execution).Tidy := by
  have hholds : ∀ e, (s.reach execution).holds e = s.holds e := fun e =>
    (same_reach e execution s).holds
  refine @Tidy.changed s execution h (s.reach execution) ⟨h.filed.attempts, h.filed.timers⟩
    (fun e _ => same_reach e execution s) ?_ rfl (fun hs => by rw [hholds, hs])
  cases hs : s.holds execution with
  | true => exact .inl (by rw [hholds, hs])
  | false => exact .inr ((h.blank execution hs).of_same (same_reach ..))

theorem timers_filed {timers : Timers} (h : ∀ (key : TimerKey) (timer : Timer),
      timers[key]? = some timer → timerKey timer = key) (writes : List TimerWrite) :
    ∀ (key : TimerKey) (timer : Timer), (timers.append execution writes)[key]? = some timer →
      timerKey timer = key := by
  refine Write.forall_applyAll (fun key timer hput => ?_) (fun key change hedit => ?_) h
  · obtain ⟨write, -, heq⟩ := mem_map.mp hput
    cases write <;> cases heq
    rfl
  · obtain ⟨write, -, heq⟩ := mem_map.mp hedit
    cases write <;> cases heq

theorem filed_commit (h : s.Filed) (execution : String)
    (establishing : Option ExecutionOwnership) (request : AppendRequest) (now : OffsetDateTime) :
    (s.commit execution establishing request now).Filed :=
  ⟨keyed_append h.attempts request.attempts, timers_filed h.timers request.timers⟩

theorem holds_commit (execution : String) (establishing : Option ExecutionOwnership)
    (request : AppendRequest) (now : OffsetDateTime) :
    (s.commit execution establishing request now).holds execution = true := by
  rw [holds_iff, stream_commit, if_pos rfl]
  simp [AppendRequest.messages, numbered]

theorem Tidy.commit (h : s.Tidy) {request : AppendRequest} {now : OffsetDateTime}
    (hpromised : s.Promised (binding, .append execution request now))
    (establishing : Option ExecutionOwnership) :
    (s.commit execution establishing request now).Tidy := by
  obtain ⟨hown, hnew, hids⟩ := hpromised
  have hhere := s.holds_commit execution establishing request now
  have hframe : ∀ e, e ≠ execution →
      SameAt e s (s.commit execution establishing request now) :=
    fun e he => commit_frame establishing now (Ne.symm he) hown s
  have hrows : ∀ row ∈ (s.commit execution establishing request now).outbox,
      row ∈ s.outbox ∨ row ∈ request.outbox := fun row hrow => mem_append.mp hrow
  exact {
    filed := filed_commit h.filed execution establishing request now
    blank := fun e hholds => by
      by_cases he : e = execution
      · subst he
        rw [hhere] at hholds
        cases hholds
      · rw [(hframe e he).holds] at hholds
        exact (h.blank e hholds).of_same (hframe e he)
    outbox := fun row hrow => by
      rcases hrows row hrow with hold | hadded
      · obtain ⟨hpublished, e, hkey, hholds⟩ := h.outbox row hold
        refine ⟨hpublished, e, hkey, ?_⟩
        by_cases he : e = execution
        · rw [he, hhere]
        · rw [(hframe e he).holds, hholds]
      · exact ⟨hnew row hadded, execution, hown.outbox row hadded, hhere⟩
    ids := fun row hrow row' hrow' hid => by
      rcases hrows row hrow with hold | hadded <;> rcases hrows row' hrow' with hold' | hadded'
      · exact h.ids row hold row' hold' hid
      · exact (hids row' hadded' row hold hid.symm).symm
      · exact hids row hadded row' hold' hid
      · rw [hown.outbox row hadded, hown.outbox row' hadded'] }

variable {before : OffsetDateTime} {limit : Nat} {visits : List String}

theorem blank_prune (h : s.Tidy) (hdoomed : execution ∈ s.doomed binding before limit visits)
    (hpromised : s.Promised (binding, .prune before limit visits)) :
    Blank execution (s.prune binding before limit visits).2 := by
  have hdrop : ∀ {β : Type} (table : BTreeMap String β), (Table.dropAll table
      (s.doomed binding before limit visits))[execution]? = none := fun table => by
    rw [getElem?_dropAll, if_pos hdoomed]
  exact {
    stream := by
      show ((Table.dropAll s.streams _)[execution]?).getD [] = []
      rw [hdrop]
      rfl
    seen := hdrop s.seen
    projection := hdrop s.projections
    lease := (hpromised execution hdoomed).2
    ownership := hdrop s.ownership
    attempts := fun key hkey => by
      refine (Table.getElem?_filter s.attempts (fun key =>
        !(s.doomed binding before limit visits).contains key.executionId) key).trans (if_neg ?_)
      simp [hkey, hdoomed]
    timers := fun key hkey => by
      rw [Option.eq_none_iff_forall_ne_some]
      intro timer htimer
      have hexecution : timer.execution = execution := by
        rw [← hkey, ← h.filed.timers key timer htimer]
        rfl
      exact (hpromised execution hdoomed).1 key timer htimer hexecution }

theorem prune_frame (hspared : execution ∉ s.doomed binding before limit visits) :
    SameAt execution s (s.prune binding before limit visits).2 := by
  have hkeep : ∀ {β : Type} (table : BTreeMap String β), (Table.dropAll table
      (s.doomed binding before limit visits))[execution]? = table[execution]? := fun table => by
    rw [getElem?_dropAll, if_neg hspared]
  exact {
    stream := by
      show ((Table.dropAll s.streams _)[execution]?).getD [] = _
      rw [hkeep]
      rfl
    seen := hkeep s.seen
    projection := hkeep s.projections
    lease := rfl
    ownership := hkeep s.ownership
    attempts := fun key hkey => by
      refine (Table.getElem?_filter s.attempts (fun key =>
        !(s.doomed binding before limit visits).contains key.executionId) key).trans (if_pos ?_)
      simp [hkey, hspared]
    timers := fun _ _ => rfl }

/-- What a sweep forgets has nothing waiting to be published. -/
theorem unpublished_of_doomed (hdoomed : execution ∈ s.doomed binding before limit visits) :
    NoOutbox s.outbox execution := by
  have hmay : s.mayPrune binding before execution = true :=
    (mem_filter.mp (mem_of_mem_take hdoomed)).2
  obtain ⟨run, -, hrun⟩ := (Option.any_eq_true ..).mp hmay
  exact noOutbox_of_unpublished (by simpa using (Bool.and_eq_true_iff.mp hrun).2)

theorem Tidy.prune (h : s.Tidy) (hpromised : s.Promised (binding, .prune before limit visits)) :
    (s.prune binding before limit visits).2.Tidy where
  filed := ⟨keyed_filter h.filed.attempts _, h.filed.timers⟩
  blank e hholds := by
    by_cases hdoomed : e ∈ s.doomed binding before limit visits
    · exact blank_prune h hdoomed hpromised
    · have hsame := prune_frame hdoomed
      exact (h.blank e (hsame.holds ▸ hholds)).of_same hsame
  outbox row hrow := by
    obtain ⟨hnew, e, hkey, hholds⟩ := h.outbox row hrow
    refine ⟨hnew, e, hkey, ?_⟩
    have hspared : e ∉ s.doomed binding before limit visits := fun hdoomed =>
      unpublished_of_doomed hdoomed row hrow hnew (by rw [hkey, executionOf_partitionOf])
    rw [(prune_frame hspared).holds, hholds]
  ids := h.ids

theorem Tidy.perform (h : s.Tidy) {op : Operation} (hpromised : s.Promised (binding, op))
    (size : WorkflowMessage → Nat) : (op.perform size s binding).2.Tidy := by
  have hwrote := wrote_perform size binding s op
  generalize (op.perform size s binding).2 = after at hwrote ⊢
  cases hwrote with
  | nothing => exact h
  | @append execution request now =>
    have happend := appending_append size s binding execution request now
    generalize (s.append binding size execution request now).1 = reply,
      (s.append binding size execution request now).2 = after at happend ⊢
    cases happend with
    | tooLarge => exact h
    | written => exact h.commit hpromised _
    | _ => exact h.reach execution
  | prune => exact h.prune hpromised
  | taken lease =>
    exact h.withLeases (fun e he => (Table.getElem?_insert ..).trans (if_neg (Ne.symm he)))
      (.inl hpromised)
  | released =>
    exact h.withLeases (fun e he => (getElem?_erase ..).trans (if_neg (Ne.symm he)))
      (.inr (by simp))
  | published keep =>
    exact {
      filed := ⟨h.filed.attempts, h.filed.timers⟩
      blank := fun e hholds => (h.blank e hholds).of_same
        ⟨rfl, rfl, rfl, rfl, rfl, fun _ _ => rfl, fun _ _ => rfl⟩
      outbox := fun row hrow => h.outbox row (mem_of_mem_filter hrow)
      ids := fun row hrow row' hrow' => h.ids row (mem_of_mem_filter hrow) row'
        (mem_of_mem_filter hrow') }
  | slots slots =>
    exact {
      filed := ⟨h.filed.attempts, h.filed.timers⟩
      blank := fun e hholds => (h.blank e hholds).of_same
        ⟨rfl, rfl, rfl, rfl, rfl, fun _ _ => rfl, fun _ _ => rfl⟩
      outbox := h.outbox
      ids := h.ids }
  | attempt hrow hkey _ =>
    exact h.withAttempt (hkey.trans (h.filed.attempts _ _ hrow)) (h.holds_of_attempt hrow)
  | checkpoints checkpoints =>
    exact {
      filed := ⟨h.filed.attempts, h.filed.timers⟩
      blank := fun e hholds => (h.blank e hholds).of_same
        ⟨rfl, rfl, rfl, rfl, rfl, fun _ _ => rfl, fun _ _ => rfl⟩
      outbox := h.outbox
      ids := h.ids }

end Inner

end Aiwatcher.Store
