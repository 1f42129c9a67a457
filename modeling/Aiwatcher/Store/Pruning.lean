import Aiwatcher.Store.Crash
import Aiwatcher.Store.Memory
import Aiwatcher.Store.Own

/-!
# Aiwatcher.Store.Pruning

What a retention sweep leaves of the executions it forgets.  `prune` drops the stream,
the projection, the owner and the attempt rows; the timers, the decider lease and, in
the file store, a commit still in the journal stay behind.

`Gone` is what a reader should find afterwards, for good; `Nothing` is what a store is
to hold for that, and every later operation about other executions, and every tick,
keeps it.
-/

namespace Aiwatcher.Store

open Engine Library List Std

/-! ## What should be left -/

/-- Every read of an execution that should be gone. -/
structure Gone {σ : Type} [WorkflowStore σ] (store : σ) (execution : String) : Prop where
  load : ∀ binding, WorkflowStore.load store binding execution = .ok ⟨0, []⟩
  loadPage : ∀ binding after limit,
    WorkflowStore.loadPage store binding execution after limit = .ok ⟨0, []⟩
  projection : ∀ binding, WorkflowStore.projection store binding execution = .ok none
  ownership : ∀ binding, WorkflowStore.ownership store binding execution = .ok none
  deciderLease : ∀ binding, WorkflowStore.deciderLease store binding execution = .ok none
  timersOf : ∀ binding, WorkflowStore.timersOf store binding execution = .ok []
  dueTimers : ∀ binding now limit, ∀ timer ∈ WorkflowStore.dueTimers store binding now limit,
    timer.execution ≠ execution
  attempt : ∀ binding key, key.executionId = execution →
    WorkflowStore.attempt store binding key = .ok none
  recordedOutcome : ∀ binding key, key.executionId = execution →
    WorkflowStore.recordedOutcome store binding key = .ok none
  claimAttempt : ∀ binding filter owner now, ∀ row ∈
    (WorkflowStore.claimAttempt store binding filter owner now).1, row.key.executionId ≠ execution
  claimableAttempts : ∀ binding runtime now limit, ∀ row ∈
    WorkflowStore.claimableAttempts store binding runtime now limit,
    row.key.executionId ≠ execution
  pendingOutbox : ∀ binding limit, ∀ row ∈ WorkflowStore.pendingOutbox store binding limit,
    executionOf row.partitionKey ≠ some execution

/-! ## The tables -/

/-- No attempt row of an execution, by its key or by what it says. -/
def NoAttempt (attempts : ClaimTable) (execution : String) : Prop :=
  ∀ (key : AttemptKey) (row : AttemptRow), attempts[key]? = some row →
    key.executionId ≠ execution ∧ row.key.executionId ≠ execution

/-- No timer of an execution. -/
def NoTimer (timers : Timers) (execution : String) : Prop :=
  ∀ (key : TimerKey) (timer : Timer), timers[key]? = some timer → timer.execution ≠ execution

/-- No unpublished row of an execution. -/
def NoOutbox (outbox : List OutboxMessage) (execution : String) : Prop :=
  ∀ row ∈ outbox, row.publishedAt = none → executionOf row.partitionKey ≠ some execution

/-- Every attempt row is kept under its own key. -/
def Keyed (attempts : ClaimTable) : Prop :=
  ∀ (key : AttemptKey) (row : AttemptRow), attempts[key]? = some row → row.key = key

section Tables

variable {execution other : String} {attempts : ClaimTable}

theorem forall_append {P : AttemptKey → AttemptRow → Prop} {writes : List AttemptWrite}
    (hdispatch : ∀ row, .dispatch row ∈ writes → P row.key row)
    (hpark : ∀ key row, P key row → P key row.park)
    (h : ∀ (key : AttemptKey) row, attempts[key]? = some row → P key row) :
    ∀ (key : AttemptKey) row, (attempts.append writes)[key]? = some row → P key row := by
  refine Write.forall_applyAll (fun key row hput => ?_) (fun key change hedit row hrow => ?_) h
  · obtain ⟨write, hmem, heq⟩ := mem_map.mp hput
    cases write with
    | dispatch row' =>
      cases heq
      exact hdispatch _ hmem
    | park key => cases heq
    | retire key => cases heq
  · obtain ⟨write, hmem, heq⟩ := mem_map.mp hedit
    cases write with
    | dispatch row' => cases heq
    | park key =>
      cases heq
      exact hpark _ row hrow
    | retire key => cases heq

theorem keyed_append (h : Keyed attempts) (writes : List AttemptWrite) :
    Keyed (attempts.append writes) :=
  forall_append (fun _ _ => rfl) (fun _ _ hkey => hkey) h

variable {key : AttemptKey} {limit : Nat} {outbox : List OutboxMessage} {row : AttemptRow}
  {timers : Timers}

theorem keyed_insert (h : Keyed attempts) (hrow : row.key = key) :
    Keyed (attempts.insert key row) :=
  Table.forall_insert hrow h

theorem keyed_filter (h : Keyed attempts) (keep : AttemptKey → AttemptRow → Bool) :
    Keyed (attempts.filter keep) := by
  intro k held hheld
  simp only [ExtTreeMap.getElem?_filter', Option.filter_eq_some_iff] at hheld
  exact h k held hheld.1

section

variable (h : NoAttempt attempts execution)

include h

theorem NoAttempt.append {writes : List AttemptWrite}
    (hown : ∀ write ∈ writes, write.write.key.executionId = other) (hother : other ≠ execution) :
    NoAttempt (attempts.append writes) execution := by
  refine forall_append (fun row hmem => ?_) (fun _ _ hrow => hrow) h
  have hkey : row.key.executionId = other := hown _ hmem
  simp [hkey, hother]

theorem NoAttempt.insert (hkey : key.executionId ≠ execution)
    (hrow : row.key.executionId ≠ execution) : NoAttempt (attempts.insert key row) execution :=
  Table.forall_insert ⟨hkey, hrow⟩ h

theorem NoAttempt.filter (keep : AttemptKey → AttemptRow → Bool) :
    NoAttempt (attempts.filter keep) execution := by
  intro k held hheld
  simp only [ExtTreeMap.getElem?_filter', Option.filter_eq_some_iff] at hheld
  exact h k held hheld.1

end

theorem noAttempt_filter (h : Keyed attempts) {executions : List String}
    (hmem : execution ∈ executions) :
    NoAttempt (attempts.filter fun key _ => !executions.contains key.executionId) execution := by
  intro k held hheld
  rw [Table.getElem?_filter attempts fun key => !executions.contains key.executionId] at hheld
  split at hheld
  · rename_i hkeep
    have hne : k.executionId ≠ execution := fun heq => by simp [heq, hmem] at hkeep
    exact ⟨hne, (h k held hheld).symm ▸ hne⟩
  · cases hheld

theorem NoTimer.append (h : NoTimer timers execution) {writes : List TimerWrite}
    (hown : ∀ timer, .schedule timer ∈ writes → timer.execution = other)
    (hother : other ≠ execution) : NoTimer (timers.append other writes) execution := by
  refine Write.forall_applyAll (fun key timer hput => ?_) (fun key change hedit => ?_) h
  · obtain ⟨write, hmem, heq⟩ := mem_map.mp hput
    cases write with
    | schedule timer' =>
      cases heq
      exact (hown _ hmem).symm ▸ hother
    | cancel id => cases heq
    | fire id => cases heq
  · obtain ⟨write, hmem, heq⟩ := mem_map.mp hedit
    cases write <;> cases heq

theorem NoOutbox.append {outbox rows : List OutboxMessage} (h : NoOutbox outbox execution)
    (hown : ∀ row ∈ rows, row.partitionKey = partitionOf other) (hother : other ≠ execution) :
    NoOutbox (outbox ++ rows) execution := by
  intro row hrow hnew
  rcases mem_append.mp hrow with hold | hadded
  · exact h row hold hnew
  · rw [hown row hadded, executionOf_partitionOf]
    simpa using hother

theorem NoOutbox.filter (h : NoOutbox outbox execution) (keep : OutboxMessage → Bool) :
    NoOutbox (outbox.filter keep) execution :=
  fun row hrow => h row (mem_of_mem_filter hrow)

theorem partitionKey_eq {partitionKey : String} (h : executionOf partitionKey = some execution) :
    partitionKey = partitionOf execution := by
  obtain ⟨rest, hrest, hname⟩ := Option.map_eq_some_iff.mp h
  have happend := append_eq_of_isPrefixOf?_eq_some hrest
  rw [← String.toList_inj, ← happend, ← hname]
  simp [partitionOf, String.toList_append]

theorem noOutbox_of_unpublished
    (h : (unpublished outbox).contains (partitionOf execution) = false) :
    NoOutbox outbox execution := by
  intro row hrow hnew hnames
  have hmem : partitionOf execution ∈ unpublished outbox := by
    rw [← partitionKey_eq hnames]
    exact mem_map_of_mem (mem_filter.mpr ⟨hrow, by simp [hnew]⟩)
  simp [hmem] at h

/-! ### Reading the tables -/

theorem noTimer_iff :
    soonestFirst ((BTreeMap.values timers).filter fun timer => timer.execution == execution) = [] ↔
      NoTimer timers execution := by
  have hempty : ∀ found : List Timer, soonestFirst found = [] ↔ found = [] := by
    simp [soonestFirst, ← length_eq_zero_iff]
  simp only [hempty, filter_eq_nil_iff, BTreeMap.mem_values, beq_iff_eq]
  constructor
  · intro h key timer hkey
    exact h timer ⟨key, hkey⟩
  · intro h timer hheld
    obtain ⟨key, hkey⟩ := hheld
    exact h key timer hkey

theorem NoTimer.due (h : NoTimer timers execution) {wanted : Timer → Bool} {timer : Timer}
    (hdue : timer ∈ (soonestFirst ((BTreeMap.values timers).filter wanted)).take limit) :
    timer.execution ≠ execution := by
  have hmem := mem_of_mem_take hdue
  rw [soonestFirst, mem_insertionSort, mem_filter, BTreeMap.mem_values] at hmem
  obtain ⟨⟨key, hkey⟩, -⟩ := hmem
  exact h key timer hkey

theorem NoAttempt.getElem? (h : NoAttempt attempts execution) (hkey : key.executionId = execution) :
    attempts[key]? = none := by
  rw [Option.eq_none_iff_forall_ne_some]
  exact fun row hrow => (h key row hrow).1 hkey

theorem NoAttempt.claimable (h : NoAttempt attempts execution) {mine : AttemptRow → Bool}
    {runtime : RuntimeKind} {now : OffsetDateTime}
    (hrow : row ∈ claimableOf ((BTreeMap.values attempts).filter mine) runtime now limit) :
    row.key.executionId ≠ execution := by
  have hmem := mem_of_mem_take hrow
  simp only [mem_filter, BTreeMap.mem_values] at hmem
  obtain ⟨⟨⟨key, hkey⟩, -⟩, -⟩ := hmem
  exact (h key row hkey).2

theorem NoOutbox.pending (h : NoOutbox outbox execution) {mine : OutboxMessage → Bool}
    {row : OutboxMessage}
    (hrow : row ∈ (outbox.filter fun row => row.publishedAt.isNone && mine row).take limit) :
    executionOf row.partitionKey ≠ some execution := by
  have hmem := mem_of_mem_take hrow
  simp only [mem_filter, Bool.and_eq_true, Option.isNone_iff_eq_none] at hmem
  exact h row hmem.1 hmem.2.1

end Tables

/-! ## Operations that spare an execution -/

/-- An operation that neither appends to an execution nor takes its lease, and appends
rows of the execution it appends to. -/
def Operation.Spares (execution : String) : Operation → Prop
  | .append other request _ => other ≠ execution ∧ request.Own other
  | .takeDeciderLease other .. => other ≠ execution
  | _ => True

/-- What may come after a sweep: an operation through some handle, or a tick. -/
inductive Later where
  | operation (binding : ScopeBinding) (op : Operation)
  | tick (binding : ScopeBinding) (now at' : OffsetDateTime) (limit : Nat)

def Later.Spares (execution : String) : Later → Prop
  | .operation _ op => op.Spares execution
  | .tick .. => True

def Later.run {σ : Type} [WorkflowStore σ] (env : Deployment) (store : σ) : Later → σ
  | .operation binding op => (op.perform env.payloadSize store binding).2
  | .tick binding now at' limit => (fireDueTimers env binding now at' limit store).2

theorem Later.run_keeps {σ : Type} [WorkflowStore σ] {env : Deployment} {execution : String}
    {P : σ → Prop}
    (hperform : ∀ store binding op, op.Spares execution → P store →
      P (Operation.perform env.payloadSize store binding op).2)
    (hdue : ∀ store binding now limit, P store →
      ∀ timer ∈ WorkflowStore.dueTimers store binding now limit, timer.execution ≠ execution)
    {store : σ} (h : P store) {later : Later} (hspares : later.Spares execution) :
    P (later.run env store) := by
  cases later with
  | operation binding op => exact hperform store binding op hspares h
  | tick binding now at' limit =>
    have hkept : Kept env (· ≠ execution) P := {
      append := fun store binding other request now hother hown h =>
        hperform store binding (.append other request now) ⟨hother, hown⟩ h
      advance := fun store binding processor checkpoint h =>
        hperform store binding (.advanceCheckpoint processor checkpoint) trivial h }
    exact fireAll_keeps hkept binding now at' (hdue store binding now limit h) h

/-! ## The memory store -/

namespace Inner

variable {inner : Inner} {execution : String} {binding : ScopeBinding}

/-- A memory store that holds nothing of an execution. -/
structure Nothing (inner : Inner) (execution : String) : Prop where
  stream : inner.stream execution = []
  projection : inner.projections[execution]? = none
  ownership : inner.ownership[execution]? = none
  lease : inner.deciderLeases[execution]? = none
  timers : NoTimer inner.timers execution
  attempts : NoAttempt inner.attempts execution
  outbox : NoOutbox inner.outbox execution

section

variable (h : inner.Nothing execution)

include h

theorem Nothing.about {α : Type} (answer : α) :
    inner.about binding execution answer = .ok answer := by
  have hadmits : binding.admits none false = true := by
    cases binding with
    | mk scope => cases scope <;> rfl
  simp [Inner.about, check, ownerOf, holds, h.stream, h.ownership, ScopeBinding.check, hadmits,
    Except.map]

theorem Nothing.gone : Gone inner execution where
  load binding := by
    show inner.about binding execution _ = _
    rw [h.about, h.stream]
    rfl
  loadPage binding after limit := by
    show inner.about binding execution _ = _
    rw [h.about, h.stream]
    simp [StreamSlice.page]
  projection binding := by
    show inner.about binding execution _ = _
    rw [h.about, h.projection]
  ownership binding := by
    show inner.about binding execution _ = _
    rw [h.about, ownerOf, h.ownership]
  deciderLease binding := by
    show inner.about binding execution _ = _
    rw [h.about, h.lease]
  timersOf binding := by
    show inner.about binding execution _ = _
    rw [h.about, noTimer_iff.mpr h.timers]
  dueTimers binding now limit timer hdue := h.timers.due hdue
  attempt binding key hkey := by
    show inner.about binding key.executionId _ = _
    rw [hkey, h.about, h.attempts.getElem? hkey]
  recordedOutcome binding key hkey := by
    show inner.about binding key.executionId _ = _
    rw [hkey, h.about, h.stream]
    rfl
  claimAttempt binding filter owner now row hrow := by
    simp only [WorkflowStore.claimAttempt, Inner.claimAttempt] at hrow
    split at hrow
    · cases hrow
    · split at hrow
      · cases hrow
      · rename_i held hheld
        cases hrow
        exact (h.attempts _ held hheld).2
  claimableAttempts binding runtime now limit row hrow := h.attempts.claimable hrow
  pendingOutbox binding limit row hrow := h.outbox.pending hrow

theorem Nothing.reach (other : String) : (inner.reach other).Nothing execution :=
  { h with stream := by rw [stream_reach, h.stream] }

theorem Nothing.commit {other : String} (hother : other ≠ execution) {request : AppendRequest}
    (hown : request.Own other) (establishing : Option ExecutionOwnership) (now : OffsetDateTime) :
    (inner.commit other establishing request now).Nothing execution where
  stream := by rw [stream_commit, if_neg hother, h.stream]
  projection := by rw [getElem?_projections_commit, if_neg hother, h.projection]
  ownership := by
    cases establishing with
    | none => exact h.ownership
    | some owner => exact (Table.getElem?_insert ..).trans (by rw [if_neg hother, h.ownership])
  lease := h.lease
  timers := h.timers.append hown.timers hother
  attempts := h.attempts.append hown.attempts hother
  outbox := h.outbox.append hown.outbox hother

theorem Nothing.prune (before : OffsetDateTime) (limit : Nat) (visits : List String) :
    (inner.prune binding before limit visits).2.Nothing execution where
  stream := by
    have hstream := h.stream
    simp only [Inner.stream, Inner.prune, forget, Table.getElem?_dropAll] at hstream ⊢
    split <;> simp [hstream]
  projection := by
    simp only [Inner.prune, forget, Table.getElem?_dropAll, h.projection, ite_self]
  ownership := by
    simp only [Inner.prune, forget, Table.getElem?_dropAll, h.ownership, ite_self]
  lease := h.lease
  timers := h.timers
  attempts := h.attempts.filter _
  outbox := h.outbox

end

/-- **An operation that spares an execution** leaves nothing of it where there was nothing. -/
theorem Nothing.perform (h : inner.Nothing execution) {size : WorkflowMessage → Nat}
    {op : Operation} (hspares : op.Spares execution) :
    (op.perform size inner binding).2.Nothing execution := by
  have hwrote := wrote_perform size binding inner op
  generalize (op.perform size inner binding).2 = after at hwrote ⊢
  cases hwrote with
  | nothing => exact h
  | @append other request now =>
    obtain ⟨hother, hown⟩ := hspares
    have happend := appending_append size inner binding other request now
    generalize (inner.append binding size other request now).1 = reply,
      (inner.append binding size other request now).2 = after at happend ⊢
    cases happend with
    | tooLarge => exact h
    | written => exact h.commit hother hown _ now
    | _ => exact h.reach other
  | prune => exact h.prune _ _ _
  | taken lease =>
    exact { h with lease := (Table.getElem?_insert ..).trans (by rw [if_neg hspares, h.lease]) }
  | released => exact { h with lease := by rw [Table.getElem?_erase, h.lease, ite_self] }
  | published keep => exact { h with outbox := h.outbox.filter keep }
  | slots slots => exact { h with }
  | attempt hrow hkey _ =>
    obtain ⟨hother, hrow⟩ := h.attempts _ _ hrow
    exact { h with attempts := h.attempts.insert hother (hkey ▸ hrow) }
  | checkpoints checkpoints => exact { h with }

/-! ### The state a sweep is made in -/

theorem keyed_perform (h : Keyed inner.attempts) (size : WorkflowMessage → Nat)
    (op : Operation) : Keyed (op.perform size inner binding).2.attempts := by
  have hwrote := wrote_perform size binding inner op
  generalize (op.perform size inner binding).2 = after at hwrote ⊢
  cases hwrote with
  | @append other request now =>
    have happend := appending_append size inner binding other request now
    generalize (inner.append binding size other request now).1 = reply,
      (inner.append binding size other request now).2 = after at happend ⊢
    cases happend with
    | written => exact keyed_append h request.attempts
    | _ => exact h
  | prune => exact keyed_filter h _
  | attempt hrow hkey _ => exact keyed_insert h (hkey.trans (h _ _ hrow))
  | _ => exact h

theorem keyed_run (env : Deployment) (history : List Later) :
    Keyed (history.foldl (Later.run env) Inner.new).attempts := by
  have hlater : ∀ (store : Inner) (l : Later), Keyed store.attempts →
      Keyed (l.run env store).attempts := by
    intro store l h
    cases l with
    | operation binding op => exact keyed_perform h env.payloadSize op
    | tick binding now at' limit =>
      have hkept : Kept env (fun _ => True) fun store : Inner => Keyed store.attempts := {
        append := fun store binding other request now _ _ h =>
          keyed_perform h env.payloadSize (.append other request now)
        advance := fun store binding processor cursor h =>
          keyed_perform h env.payloadSize (.advanceCheckpoint processor cursor) }
      exact fireAll_keeps hkept binding now at' (fun _ _ => trivial) h
  have hall : ∀ store : Inner, Keyed store.attempts →
      Keyed (history.foldl (Later.run env) store).attempts := by
    induction history with
    | nil => exact fun _ h => h
    | cons l history ih => exact fun store h => ih _ (hlater store l h)
  exact hall Inner.new fun key row hrow => by simp [Inner.new] at hrow

/-- **What a sweep leaves** of an execution it forgets, beyond what it drops. -/
theorem nothing_prune (h : Keyed inner.attempts) {before : OffsetDateTime} {limit : Nat}
    {visits : List String} (hdoomed : execution ∈ inner.doomed binding before limit visits)
    (htimers : NoTimer inner.timers execution) (hlease : inner.deciderLeases[execution]? = none) :
    (inner.prune binding before limit visits).2.Nothing execution := by
  have hmay : inner.mayPrune binding before execution = true :=
    (mem_filter.mp (mem_of_mem_take hdoomed)).2
  have hpublished : (unpublished inner.outbox).contains (partitionOf execution) = false := by
    obtain ⟨run, -, hrun⟩ := (Option.any_eq_true ..).mp hmay
    simpa using (Bool.and_eq_true_iff.mp hrun).2
  have hdrop : ∀ {β : Type} (table : BTreeMap String β), (Table.dropAll table
      (inner.doomed binding before limit visits))[execution]? = none := fun table => by
    rw [Table.getElem?_dropAll, if_pos hdoomed]
  exact {
    stream := by
      show ((Table.dropAll inner.streams _)[execution]?).getD [] = []
      rw [hdrop]
      rfl
    projection := hdrop inner.projections
    ownership := hdrop inner.ownership
    lease := hlease
    timers := htimers
    attempts := noAttempt_filter h hdoomed
    outbox := noOutbox_of_unpublished hpublished }

/-- **The memory store**: an execution a sweep forgets stays gone exactly where the sweep
finds no timer and no decider lease of it. -/
theorem gone_iff (env : Deployment) (h : Keyed inner.attempts) {before : OffsetDateTime}
    {limit : Nat} {visits : List String}
    (hdoomed : execution ∈ inner.doomed binding before limit visits) :
    (∀ later : List Later, (∀ l ∈ later, l.Spares execution) →
      Gone (later.foldl (Later.run env) (inner.prune binding before limit visits).2) execution) ↔
    NoTimer inner.timers execution ∧ inner.deciderLeases[execution]? = none := by
  constructor
  · intro hgone
    have hnow := hgone [] (by simp)
    have hanswer : ∀ {α : Type} {found left : α},
        (inner.prune binding before limit visits).2.about .global execution found = .ok left →
        found = left := by
      intro α found left habout
      unfold Inner.about at habout
      cases hcheck : (inner.prune binding before limit visits).2.check .global execution with
      | error refused => simp [hcheck, Except.map] at habout
      | ok u => simpa [hcheck, Except.map] using habout
    exact ⟨noTimer_iff.mp (hanswer (hnow.timersOf .global)), hanswer (hnow.deciderLease .global)⟩
  · intro ⟨htimers, hlease⟩ later hspares
    have hnothing := nothing_prune h hdoomed htimers hlease
    generalize (inner.prune binding before limit visits).2 = store at hnothing
    induction later generalizing store with
    | nil => exact hnothing.gone
    | cons l later ih =>
      refine ih (fun l hl => hspares l (mem_cons_of_mem _ hl)) _ ?_
      exact Later.run_keeps (P := fun store : Inner => store.Nothing execution)
        (fun store binding op hop hnone => hnone.perform hop)
        (fun store binding now limit hnone => hnone.gone.dueTimers binding now limit) hnothing
        (hspares l mem_cons_self)

end Inner

end Aiwatcher.Store
