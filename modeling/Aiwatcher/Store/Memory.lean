import Aiwatcher.Store.Port

/-!
# Aiwatcher.Store.Memory

The in-memory workflow store (`store/memory.rs`): one record of tables behind one lock,
and every operation of the port over it.

A hash map is kept in key order; where the order it is walked in decides something, in
`prune`, the order is an argument.
-/

namespace Aiwatcher.Store

open Engine Library Table

/-! ## The tables -/

structure Inner where
  streams : BTreeMap String (List RecordedMessage)
  seen : BTreeMap String (BTreeMap String Nat)
  projections : BTreeMap String RunProjection
  outbox : List OutboxMessage
  checkpoints : BTreeMap String Checkpoint
  attempts : ClaimTable
  slots : BTreeMap SlotKey SlotRecord
  deciderLeases : BTreeMap String DeciderLease
  timers : Timers
  ownership : BTreeMap String ExecutionOwnership

namespace Inner

/-- A store nothing has been written to. -/
def new : Inner := ⟨∅, ∅, ∅, [], ∅, ∅, ∅, ∅, ∅, ∅⟩

/-- The stream of one execution, empty where there is none. -/
def stream (inner : Inner) (execution : String) : List RecordedMessage :=
  (inner.streams[execution]?).getD []

def ownerOf (inner : Inner) (execution : String) : Option ExecutionOwnership :=
  inner.ownership[execution]?

/-- Whether there is any history for that id; an empty stream counts as none. -/
def holds (inner : Inner) (execution : String) : Bool := !(inner.stream execution).isEmpty

def admits (inner : Inner) (binding : ScopeBinding) (execution : String) : Bool :=
  binding.admits (inner.ownerOf execution) (inner.holds execution)

def check (inner : Inner) (binding : ScopeBinding) (execution : String) : Except StoreError Unit :=
  binding.check execution (inner.ownerOf execution) (inner.holds execution)

/-- Whether a row addressed by `workflow:<execution>` is this side's. -/
def admitsPartition (inner : Inner) (binding : ScopeBinding) (partitionKey : String) : Bool :=
  (executionOf partitionKey).any fun execution => inner.admits binding execution

/-- The version this input landed at, if it has. -/
def seenAt (inner : Inner) (execution inputId : String) : Option Nat :=
  (inner.seen[execution]?).bind fun seen => seen[inputId]?

variable (inner : Inner) (binding : ScopeBinding)

/-- An answer about one execution, unless the execution is another scope's. -/
def about {α : Type} (execution : String) (answer : α) : Except StoreError α :=
  (inner.check binding execution).map fun _ => answer

/-! ## Reading one execution -/

def ownershipRecord (execution : String) : Except StoreError (Option ExecutionOwnership) :=
  inner.about binding execution (inner.ownerOf execution)

def load (execution : String) : Except StoreError StreamSlice :=
  inner.about binding execution (.whole (inner.stream execution))

def loadPage (execution : String) (after limit : Nat) : Except StoreError StreamSlice :=
  inner.about binding execution (.page (inner.stream execution) after limit)

def timersOf (execution : String) : Except StoreError (List Timer) :=
  inner.about binding execution (soonestFirst
    ((BTreeMap.values inner.timers).filter fun timer => timer.execution == execution))

def recordedOutcome (key : AttemptKey) : Except StoreError (Option WorkflowEvent) :=
  inner.about binding key.executionId
    ((recordedEvents (inner.stream key.executionId)).find? fun event =>
      settles event key.stepId key.attempt)

def deciderLease (execution : String) : Except StoreError (Option DeciderLease) :=
  inner.about binding execution inner.deciderLeases[execution]?

def projection (execution : String) : Except StoreError (Option RunProjection) :=
  inner.about binding execution inner.projections[execution]?

def attempt (key : AttemptKey) : Except StoreError (Option AttemptRow) :=
  inner.about binding key.executionId inner.attempts[key]?

/-! ## Reading across executions -/

def dueTimers (now : OffsetDateTime) (limit : Nat) : List Timer :=
  (soonestFirst ((BTreeMap.values inner.timers).filter fun timer =>
    timer.isDue now && inner.admits binding timer.execution)).take limit

def pendingOutbox (limit : Nat) : List OutboxMessage :=
  (inner.outbox.filter fun row =>
    row.publishedAt.isNone && inner.admitsPartition binding row.partitionKey).take limit

/-- The attempt rows on this store's side of the boundary, in key order. -/
def mine : List AttemptRow :=
  (BTreeMap.values inner.attempts).filter fun row => inner.admits binding row.key.executionId

def unclaimedAttempts (now : OffsetDateTime) : List (RuntimeKind × Nat) :=
  tallyUnclaimed (inner.mine binding) now

def claimableAttempts (runtime : RuntimeKind) (now : OffsetDateTime) (limit : Nat) :
    List AttemptRow :=
  claimableOf (inner.mine binding) runtime now limit

def recentSlots (kind : DefinitionKind) (name : String) (limit : Nat) :
    Except StoreError (List SlotRecord) :=
  (binding.refuseInstanceWide "read schedule slots").map fun _ =>
    (newestFirst ((BTreeMap.values inner.slots).filter fun record =>
      record.key.definitionKind == kind && record.key.definitionName == name)).take limit

def projectScopes (limit : Nat) : Except StoreError (List ProjectScope) :=
  (binding.refuseInstanceWide "list the projects that have run here").map fun _ =>
    scopesOf (BTreeMap.values inner.ownership) limit

def checkpoint (processor : String) : Except StoreError (Option Checkpoint) :=
  (binding.refuseInstanceWide "read a processor checkpoint").map fun _ =>
    inner.checkpoints[processor]?

/-! ## Appending -/

/-- `entry(key).or_default()`: the stream's entry exists from here on. -/
def reach (execution : String) : Inner :=
  { inner with streams := inner.streams.insert execution (inner.stream execution) }

/-- Everything one accepted append writes. -/
def commit (execution : String) (establishing : Option ExecutionOwnership)
    (request : AppendRequest) (now : OffsetDateTime) : Inner :=
  let version := (inner.stream execution).length
  { inner with
    ownership := establishing.elim inner.ownership fun owner =>
      inner.ownership.insert execution owner
    streams := inner.streams.insert execution
      (inner.stream execution ++ numbered now version request.messages)
    seen := inner.seen.insert execution
      (((inner.seen[execution]?).getD ∅).insert request.inputId (version + 1))
    projections := inner.projections.insert execution request.projection
    attempts := inner.attempts.append request.attempts
    timers := inner.timers.append execution request.timers
    outbox := inner.outbox ++ request.outbox
    checkpoints := request.checkpoint.elim inner.checkpoints fun cursor =>
      inner.checkpoints.insert cursor.1 cursor.2 }

/-- `append`: the payloads, the scope, the inbox and the version, then everything. -/
def append (size : WorkflowMessage → Nat) (execution : String) (request : AppendRequest)
    (now : OffsetDateTime) : Except StoreError AppendOutcome × Inner :=
  match request.checkPayloads size with
  | .error refused => (.error refused, inner)
  | .ok () =>
    let version := (inner.stream execution).length
    match binding.appending execution request.ownership (inner.ownerOf execution)
        (version == 0) with
    | .error refused => (.error refused, inner.reach execution)
    | .ok establishing =>
      match inner.seenAt execution request.inputId with
      | some seen => (.ok (.duplicate seen), inner.reach execution)
      | none =>
        match request.expectedVersion.check version with
        | .error conflict => (.error conflict, inner.reach execution)
        | .ok () =>
          (.ok (.appended (version + request.messages.length)),
            inner.commit execution establishing request now)

/-! ## Leases -/

def takeDeciderLease (execution holder : String) (now : OffsetDateTime) :
    Except StoreError LeaseOutcome × Inner :=
  match inner.check binding execution with
  | .error refused => (.error refused, inner)
  | .ok () =>
    let grant lease := (.ok (.taken lease),
      { inner with deciderLeases := inner.deciderLeases.insert execution lease })
    match inner.deciderLeases[execution]? with
    | some lease =>
      if lease.heldBy holder now || lease.expired now then grant (lease.take holder now)
      else (.ok (.held lease.holder lease.expiresAt), inner)
    | none => grant (.takenBy execution holder now)

def releaseDeciderLease (execution holder : String) (now : OffsetDateTime) :
    Except StoreError Bool × Inner :=
  match inner.check binding execution with
  | .error refused => (.error refused, inner)
  | .ok () =>
    if (inner.deciderLeases[execution]?).any fun lease => lease.heldBy holder now then
      (.ok true, { inner with deciderLeases := inner.deciderLeases.erase execution })
    else (.ok false, inner)

/-! ## The outbox -/

/-- `mark_published`: the rows are dropped, by the ids of those this side may reach. -/
def markPublished (ids : List String) : Inner :=
  let doomed := (inner.outbox.filter fun row =>
    ids.contains row.messageId && inner.admitsPartition binding row.partitionKey).map (·.messageId)
  { inner with outbox := inner.outbox.filter fun row => !doomed.contains row.messageId }

/-! ## Slots -/

def admitSlot (request : SlotAdmissionRequest) : Except StoreError SlotAdmission × Inner :=
  match binding.refuseInstanceWide "admit a schedule slot" with
  | .error refused => (.error refused, inner)
  | .ok () =>
    let held := inner.slots[request.key]?
    match heldAnswer held request.now with
    | some answer => (.ok answer, inner)
    | none =>
      match if request.overlap == .skip then
          runningOf (BTreeMap.values inner.projections) request.key.definitionName
        else none with
      | some running => (.ok (.blocked running), inner)
      | none =>
        let record := SlotRecord.admitted request.key request.owner request.now
          (held.bind fun record => record.detail)
        (.ok .admitted, { inner with slots := inner.slots.insert request.key record })

def settleSlot (key : SlotKey) (owner : String) (settlement : SlotSettlement)
    (now : OffsetDateTime) : Except StoreError Unit × Inner :=
  match binding.refuseInstanceWide "settle a schedule slot" with
  | .error refused => (.error refused, inner)
  | .ok () =>
    match inner.slots[key]? with
    | none => (.ok (), inner)
    | some record =>
      if record.leaseOwner ≠ some owner then (.ok (), inner)
      else (.ok (),
        { inner with slots := inner.slots.insert key (record.settle settlement now) })

/-! ## Claims -/

def claimAttempt (filter : ClaimFilter) (owner : String) (now : OffsetDateTime) :
    Option AttemptRow × Inner :=
  match (BTreeMap.values inner.attempts).find? fun row =>
      row.isClaimable now && filter.matches row && inner.admits binding row.key.executionId with
  | none => (none, inner)
  | some found =>
    match inner.attempts[found.key]? with
    | none => (none, inner)
    | some row =>
      (some (row.claim owner now),
        { inner with attempts := inner.attempts.insert found.key (row.claim owner now) })

def heartbeat (key : AttemptKey) (owner : String) (now : OffsetDateTime) :
    Except StoreError Bool × Inner :=
  match inner.check binding key.executionId with
  | .error refused => (.error refused, inner)
  | .ok () =>
    match inner.attempts[key]? with
    | none => (.ok false, inner)
    | some row =>
      if !row.isHeldBy owner now then (.ok false, inner)
      else (.ok true,
        { inner with attempts := inner.attempts.insert key { row with claimedAt := some now } })

/-! ## Cursors and retention -/

def advanceCheckpoint (processor : String) (checkpoint : Checkpoint) :
    Except StoreError Unit × Inner :=
  match binding.refuseInstanceWide "advance a processor checkpoint" with
  | .error refused => (.error refused, inner)
  | .ok () =>
    (.ok (), { inner with checkpoints := inner.checkpoints.insert processor checkpoint })

/-- Whether a sweep may forget this execution. -/
def mayPrune (before : OffsetDateTime) (execution : String) : Bool :=
  (inner.projections[execution]?).any fun run =>
    inner.admits binding execution &&
      prunable run (lastActivity (inner.stream execution)) before &&
      !(unpublished inner.outbox).contains (partitionOf execution)

/-- The executions a sweep forgets, `visits` being the order it meets them in. -/
def doomed (before : OffsetDateTime) (limit : Nat) (visits : List String) : List String :=
  (visits.filter fun execution => inner.mayPrune binding before execution).take limit

/-- A store without some executions. -/
def forget (executions : List String) : Inner :=
  { inner with
    streams := Table.dropAll inner.streams executions
    seen := Table.dropAll inner.seen executions
    projections := Table.dropAll inner.projections executions
    ownership := Table.dropAll inner.ownership executions
    attempts := inner.attempts.filter fun key _ => !executions.contains key.executionId }

def prune (before : OffsetDateTime) (limit : Nat) (visits : List String) : Pruned × Inner :=
  let doomed := inner.doomed binding before limit visits
  let after := inner.forget doomed
  (⟨doomed.length, inner.attempts.size - after.attempts.size⟩, after)

theorem holds_iff {execution : String} :
    inner.holds execution = true ↔ inner.stream execution ≠ [] := by
  simp [holds]

/-! ## What reaching for an entry changes -/

@[simp] theorem stream_reach (e execution : String) :
    (inner.reach e).stream execution = inner.stream execution := by
  unfold reach stream
  rw [getElem?_insert]
  by_cases h : e = execution
  · simp [h]
  · simp [h]

theorem reach_of_holds {execution : String} (h : inner.holds execution = true) :
    inner.reach execution = inner := by
  have hsome : inner.streams[execution]? = some (inner.stream execution) := by
    cases hs : inner.streams[execution]? with
    | none => simp [holds, stream, hs] at h
    | some messages => simp [stream, hs]
  have hstreams : inner.streams.insert execution (inner.stream execution) = inner.streams := by
    apply Std.ExtTreeMap.ext_getElem?
    intro k
    rw [getElem?_insert]
    split
    · rename_i hk
      rw [← hk, hsome]
    · rfl
  unfold reach
  rw [hstreams]

/-! ## What a commit leaves -/

section Commit

variable (execution : String) (establishing : Option ExecutionOwnership)
  (request : AppendRequest) (now : OffsetDateTime)

theorem stream_commit (e : String) :
    (inner.commit execution establishing request now).stream e =
      if execution = e then inner.stream execution ++
        numbered now (inner.stream execution).length request.messages
      else inner.stream e := by
  show ((inner.streams.insert execution _)[e]?).getD [] = _
  rw [getElem?_insert]
  split <;> rfl

theorem getElem?_projections_commit (e : String) :
    (inner.commit execution establishing request now).projections[e]? =
      if execution = e then some request.projection else inner.projections[e]? :=
  getElem?_insert ..

theorem seenAt_commit (e id : String) :
    (inner.commit execution establishing request now).seenAt e id =
      if execution = e ∧ request.inputId = id then some ((inner.stream execution).length + 1)
      else inner.seenAt e id := by
  show ((inner.seen.insert execution _)[e]?).bind _ = _
  rw [getElem?_insert]
  by_cases he : execution = e
  · subst he
    simp only [if_true, Option.bind_some, getElem?_insert, true_and]
    split
    · rfl
    · unfold seenAt
      cases inner.seen[execution]? <;> simp
  · simp [he, seenAt]

end Commit

end Inner

instance : WorkflowStore Inner where
  ownership := Inner.ownershipRecord
  load := Inner.load
  loadPage := Inner.loadPage
  dueTimers := Inner.dueTimers
  timersOf := Inner.timersOf
  recordedOutcome := Inner.recordedOutcome
  takeDeciderLease := Inner.takeDeciderLease
  releaseDeciderLease := Inner.releaseDeciderLease
  deciderLease := Inner.deciderLease
  append := Inner.append
  projection := Inner.projection
  pendingOutbox := Inner.pendingOutbox
  markPublished := Inner.markPublished
  admitSlot := Inner.admitSlot
  settleSlot := Inner.settleSlot
  recentSlots := Inner.recentSlots
  projectScopes := Inner.projectScopes
  checkpoint := Inner.checkpoint
  claimAttempt := Inner.claimAttempt
  heartbeat := Inner.heartbeat
  attempt := Inner.attempt
  unclaimedAttempts := Inner.unclaimedAttempts
  claimableAttempts := Inner.claimableAttempts
  advanceCheckpoint := Inner.advanceCheckpoint
  prune := Inner.prune

/-! ## Every way an append goes -/

/-- What an append answers and leaves, with everything it checked. -/
inductive Appending (size : WorkflowMessage → Nat) (inner : Inner) (binding : ScopeBinding)
    (execution : String) (request : AppendRequest) (now : OffsetDateTime) :
    Except StoreError AppendOutcome → Inner → Prop where
  | tooLarge {error : StoreError} (h : request.checkPayloads size = .error error) :
      Appending size inner binding execution request now (.error error) inner
  | outOfScope {error : StoreError}
      (h : binding.appending execution request.ownership (inner.ownerOf execution)
        ((inner.stream execution).length == 0) = .error error) :
      Appending size inner binding execution request now (.error error) (inner.reach execution)
  | duplicate {seen : Nat} (h : inner.seenAt execution request.inputId = some seen) :
      Appending size inner binding execution request now (.ok (.duplicate seen))
        (inner.reach execution)
  | conflict {expected : Nat}
      (h : request.expectedVersion = .noStream ∧ expected = 0 ∨
        request.expectedVersion = .exact expected)
      (hmoved : expected ≠ (inner.stream execution).length) :
      Appending size inner binding execution request now
        (.error (.versionConflict expected (inner.stream execution).length))
        (inner.reach execution)
  | written {establishing : Option ExecutionOwnership}
      (hsize : request.checkPayloads size = .ok ())
      (hscope : binding.appending execution request.ownership (inner.ownerOf execution)
        ((inner.stream execution).length == 0) = .ok establishing)
      (hnew : inner.seenAt execution request.inputId = none)
      (hversion : request.expectedVersion.check (inner.stream execution).length = .ok ()) :
      Appending size inner binding execution request now
        (.ok (.appended ((inner.stream execution).length + request.messages.length)))
        (inner.commit execution establishing request now)

/-- **Inversion of an append.** -/
theorem appending_append (size : WorkflowMessage → Nat) (inner : Inner) (binding : ScopeBinding)
    (execution : String) (request : AppendRequest) (now : OffsetDateTime) :
    Appending size inner binding execution request now
      (inner.append binding size execution request now).1
      (inner.append binding size execution request now).2 := by
  unfold Inner.append
  split
  · exact .tooLarge ‹_›
  · rename_i hsize
    dsimp only
    split
    · exact .outOfScope ‹_›
    · rename_i establishing hscope
      split
      · exact .duplicate ‹_›
      · rename_i hnew
        split
        · rename_i error hversion
          cases hexpected : request.expectedVersion with
          | any => simp [hexpected, ExpectedVersion.check] at hversion
          | noStream =>
            simp only [hexpected, ExpectedVersion.check, ite_not] at hversion
            split at hversion
            · cases hversion
            · cases hversion
              exact .conflict (.inl ⟨hexpected, rfl⟩) (Ne.symm ‹_›)
          | exact expected =>
            simp only [hexpected, ExpectedVersion.check, ite_not] at hversion
            split at hversion
            · cases hversion
            · cases hversion
              exact .conflict (.inr hexpected) ‹_›
        · exact .written hsize hscope hnew ‹_›

theorem checkPayloads_ne_conflict {size : WorkflowMessage → Nat} {request : AppendRequest}
    {expected actual : Nat} :
    request.checkPayloads size ≠ .error (.versionConflict expected actual) := by
  unfold AppendRequest.checkPayloads
  split <;> simp

theorem appending_ne_conflict {binding : ScopeBinding} {execution : String}
    {establishing recorded : Option ExecutionOwnership} {streamIsEmpty : Bool}
    {expected actual : Nat} :
    binding.appending execution establishing recorded streamIsEmpty ≠
      .error (.versionConflict expected actual) := by
  have hrefusal : ∀ owner, binding.refusal execution owner ≠ .versionConflict expected actual := by
    simp [ScopeBinding.refusal]
  unfold ScopeBinding.appending ScopeBinding.check
  by_cases hadmits : binding.admits recorded !streamIsEmpty
  · simp only [hadmits, if_true]
    split
    · simp
    · simp
    · split
      · simp [hrefusal]
      · split
        · split <;> simp
        · split <;> simp [hrefusal]
  · simp [hadmits, hrefusal]

namespace Inner

/-! ## What one operation writes -/

/-- An operation but for an append and a sweep leaves the store alone or writes one table. -/
inductive Wrote (size : WorkflowMessage → Nat) (binding : ScopeBinding) (inner : Inner) :
    Operation → Inner → Prop
  | nothing {op} : Wrote size binding inner op inner
  | append {execution request now} : Wrote size binding inner (.append execution request now)
      (inner.append binding size execution request now).2
  | prune {before limit visits} : Wrote size binding inner (.prune before limit visits)
      (inner.prune binding before limit visits).2
  | taken {execution holder now} (lease) :
      Wrote size binding inner (.takeDeciderLease execution holder now)
        { inner with deciderLeases := inner.deciderLeases.insert execution lease }
  | released {execution holder now} :
      Wrote size binding inner (.releaseDeciderLease execution holder now)
        { inner with deciderLeases := inner.deciderLeases.erase execution }
  | published {ids} (keep) : Wrote size binding inner (.markPublished ids)
      { inner with outbox := inner.outbox.filter keep }
  | slots {op} (slots) : Wrote size binding inner op { inner with slots := slots }
  | attempt {op key row row'} : inner.attempts[key]? = some row → row'.key = row.key →
      (∀ e ∈ op.names, key.executionId = e) →
      Wrote size binding inner op { inner with attempts := inner.attempts.insert key row' }
  | checkpoints {op} (checkpoints) : Wrote size binding inner op
      { inner with checkpoints := checkpoints }

theorem wrote_perform (size : WorkflowMessage → Nat) (binding : ScopeBinding) (inner : Inner)
    (op : Operation) : Wrote size binding inner op (op.perform size inner binding).2 := by
  cases op with
  | append execution request now => exact .append
  | prune before limit visits => exact .prune
  | markPublished ids => exact .published _
  | takeDeciderLease execution holder now =>
    show Wrote _ _ _ _ (inner.takeDeciderLease binding execution holder now).2
    unfold Inner.takeDeciderLease
    split
    · exact .nothing
    · dsimp only
      split
      · split
        · exact .taken _
        · exact .nothing
      · exact .taken _
  | releaseDeciderLease execution holder now =>
    show Wrote _ _ _ _ (inner.releaseDeciderLease binding execution holder now).2
    unfold Inner.releaseDeciderLease
    split
    · exact .nothing
    · split
      · exact .released
      · exact .nothing
  | admitSlot request =>
    show Wrote _ _ _ _ (inner.admitSlot binding request).2
    unfold Inner.admitSlot
    dsimp only
    split
    · exact .nothing
    · split
      · exact .nothing
      · split
        · exact .nothing
        · exact .slots _
  | settleSlot key owner settlement now =>
    show Wrote _ _ _ _ (inner.settleSlot binding key owner settlement now).2
    unfold Inner.settleSlot
    split
    · exact .nothing
    · split
      · exact .nothing
      · split
        · exact .nothing
        · exact .slots _
  | claimAttempt filter owner now =>
    show Wrote _ _ _ _ (inner.claimAttempt binding filter owner now).2
    unfold Inner.claimAttempt
    split
    · exact .nothing
    · split
      · exact .nothing
      · rename_i hrow
        exact .attempt hrow rfl nofun
  | heartbeat key owner now =>
    show Wrote _ _ _ _ (inner.heartbeat binding key owner now).2
    unfold Inner.heartbeat
    split
    · exact .nothing
    · split
      · exact .nothing
      · rename_i hrow
        split
        · exact .nothing
        · exact .attempt hrow rfl fun _ => Option.some.inj
  | advanceCheckpoint processor cursor =>
    show Wrote _ _ _ _ (inner.advanceCheckpoint binding processor cursor).2
    unfold Inner.advanceCheckpoint
    split
    · exact .nothing
    · exact .checkpoints _
  | _ => exact .nothing

end Inner

end Aiwatcher.Store
