import Aiwatcher.Store.Port

/-!
# Aiwatcher.Store.File

The file workflow store (`store/file.rs`): the files under its directory, the journal
that makes one append of them, and every operation of the port.

A file that is replaced whole, by a rename, is what was written into it.  A stream file
is appended to in place, so what it is made of stays open (`StreamFile`): whole lines
where no write is cut short, bytes where one may be.  A path is the id it is made from.
-/

namespace Aiwatcher.Store

open Engine Library

/-! ## Stream files -/

/-- A stream file: how it is read back, and the writes made to it. -/
class StreamFile (β : Type) where
  /-- A file that was just created. -/
  created : β
  /-- Every complete record, and how much of the file they occupy. -/
  readValid : β → List RecordedMessage × Nat
  length : β → Nat
  setLen : Nat → β → β
  /-- One line for each record, written at the end. -/
  writeLines : List RecordedMessage → β → β

/-- A stream file that is whole lines holds what was appended to it. -/
class LawfulStreamFile (β : Type) [StreamFile β] where
  Whole : β → List RecordedMessage → Prop
  whole_created : Whole StreamFile.created []
  whole_writeLines {file : β} {messages : List RecordedMessage} (more : List RecordedMessage) :
    Whole file messages → Whole (StreamFile.writeLines more file) (messages ++ more)
  readValid_of_whole {file : β} {messages : List RecordedMessage} :
    Whole file messages → StreamFile.readValid file = (messages, StreamFile.length file)
  length_pos {file : β} {messages : List RecordedMessage} :
    Whole file messages → (0 < StreamFile.length file ↔ messages ≠ [])

/-- Lines that are never cut are the records themselves. -/
instance : StreamFile (List RecordedMessage) where
  created := []
  readValid file := (file, file.length)
  length := List.length
  setLen := List.take
  writeLines more file := file ++ more

instance : LawfulStreamFile (List RecordedMessage) where
  Whole file messages := file = messages
  whole_created := rfl
  whole_writeLines _ h := by rw [h]; rfl
  readValid_of_whole h := by rw [h]; rfl
  length_pos h := by rw [h]; exact List.length_pos_iff

/-! ## The directory -/

/-- One accepted decision, written whole before any part of it is applied. -/
structure PendingCommit where
  execution : String
  records : List RecordedMessage
  projection : RunProjection
  outbox : List OutboxMessage
  attempts : List AttemptWrite
  timers : List TimerWrite
  ownership : Option ExecutionOwnership
  checkpoint : Option (String × Checkpoint)

/-- The file one definition's slots are kept in. -/
structure SlotFile where
  definitionKind : DefinitionKind
  definitionName : String
  deriving DecidableEq, Repr

namespace SlotFile

instance : Ord SlotFile where
  compare := compareLex (compareOn fun file => kindRank file.definitionKind)
    (compareOn definitionName)

instance : Std.TransOrd SlotFile :=
  inferInstanceAs (Std.TransCmp (compareLex (compareOn fun file => kindRank file.definitionKind)
    (compareOn definitionName)))

instance : Std.LawfulEqOrd SlotFile :=
  Library.Table.lawfulEq_compareLex fun a b hkind hname => by
    have hkind := kindRank_inj hkind
    cases a
    cases b
    simp_all

end SlotFile

/-- The file a slot is kept in. -/
def SlotKey.file (key : SlotKey) : SlotFile := ⟨key.definitionKind, key.definitionName⟩

/-- What is under the store's directory.  A stream is its file and when that was last
modified; a commit is named by the instant it was accepted at. -/
structure Disk (β : Type) where
  streams : BTreeMap String (β × OffsetDateTime)
  projections : BTreeMap String RunProjection
  outbox : List OutboxMessage
  checkpoints : BTreeMap String Checkpoint
  attempts : ClaimTable
  deciderLeases : BTreeMap String DeciderLease
  timers : Timers
  commits : BTreeMap Nat PendingCommit
  slots : BTreeMap SlotFile (List SlotRecord)
  ownership : BTreeMap String ExecutionOwnership

namespace Disk

variable {β : Type} [StreamFile β]

/-- A directory that was just created. -/
def new : Disk β := ⟨∅, ∅, [], ∅, ∅, ∅, ∅, ∅, ∅, ∅⟩

/-- `read_stream_valid`: a file that is not there holds nothing. -/
def readStreamValid (disk : Disk β) (execution : String) : List RecordedMessage × Nat :=
  (disk.streams[execution]?).elim ([], 0) fun file => StreamFile.readValid file.1

def readStream (disk : Disk β) (execution : String) : List RecordedMessage :=
  (disk.readStreamValid execution).1

def ownerOf (disk : Disk β) (execution : String) : Option ExecutionOwnership :=
  disk.ownership[execution]?

/-- Whether the stream file is there and holds anything. -/
def holds (disk : Disk β) (execution : String) : Bool :=
  (disk.streams[execution]?).any fun file => Decidable.decide (0 < StreamFile.length file.1)

def check (disk : Disk β) (binding : ScopeBinding) (execution : String) :
    Except StoreError Unit :=
  binding.check execution (disk.ownerOf execution) (disk.holds execution)

def admits (disk : Disk β) (binding : ScopeBinding) (execution : String) : Bool :=
  (disk.check binding execution).isOk

def admitsPartition (disk : Disk β) (binding : ScopeBinding) (partitionKey : String) : Bool :=
  (executionOf partitionKey).any fun execution => disk.admits binding execution

/-- When the stream file was last written, the epoch where there is none. -/
def lastActivity (disk : Disk β) (execution : String) : OffsetDateTime :=
  (disk.streams[execution]?).elim OffsetDateTime.unixEpoch Prod.snd

/-! ## Applying a commit -/

/-- The owner, before the stream. -/
def applyOwnership (disk : Disk β) (commit : PendingCommit) : Disk β :=
  { disk with ownership := commit.ownership.elim disk.ownership fun owner =>
      disk.ownership.insert commit.execution owner }

/-- Whether the first record of a commit is in the stream already. -/
def already (disk : Disk β) (commit : PendingCommit) : Bool :=
  commit.records.head?.any fun first =>
    (disk.readStream commit.execution).any fun message =>
      message.metadata.messageId == first.metadata.messageId

/-- The stream file opened for appending, created where it was missing, a torn tail cut
away. -/
def openStream (disk : Disk β) (execution : String) : β :=
  let file := (disk.streams[execution]?).elim StreamFile.created Prod.fst
  let valid := (disk.readStreamValid execution).2
  if valid < StreamFile.length file then StreamFile.setLen valid file else file

/-- The lines of a commit, unless its input is in the stream already. -/
def applyStream (disk : Disk β) (commit : PendingCommit) (now : OffsetDateTime) : Disk β :=
  if disk.already commit then disk
  else
    let file := StreamFile.writeLines commit.records (disk.openStream commit.execution)
    { disk with streams := disk.streams.insert commit.execution (file, now) }

def applyProjection (disk : Disk β) (commit : PendingCommit) : Disk β :=
  { disk with projections := disk.projections.insert commit.execution commit.projection }

/-- The rows of a commit that are not held already, by their ids. -/
def newRows (held : List OutboxMessage) (rows : List OutboxMessage) : List OutboxMessage :=
  rows.filter fun row => !(held.map (·.messageId)).contains row.messageId

def applyOutbox (disk : Disk β) (commit : PendingCommit) : Disk β :=
  { disk with outbox := disk.outbox ++ newRows disk.outbox commit.outbox }

def applyTimers (disk : Disk β) (commit : PendingCommit) : Disk β :=
  { disk with timers := disk.timers.append commit.execution commit.timers }

def applyAttempts (disk : Disk β) (commit : PendingCommit) : Disk β :=
  { disk with attempts := disk.attempts.append commit.attempts }

def applyCheckpoint (disk : Disk β) (commit : PendingCommit) : Disk β :=
  { disk with checkpoints := commit.checkpoint.elim disk.checkpoints fun cursor =>
      disk.checkpoints.insert cursor.1 cursor.2 }

/-- `apply`: everything one accepted decision writes, file by file. -/
def apply (disk : Disk β) (commit : PendingCommit) (now : OffsetDateTime) : Disk β :=
  (((((((disk.applyOwnership commit).applyStream commit now).applyProjection commit).applyOutbox
    commit).applyTimers commit).applyAttempts commit).applyCheckpoint commit)

/-- The journal's records in the order they were written. -/
def pending (disk : Disk β) : List (Nat × PendingCommit) := disk.commits.toList

/-- `recover`: every commit still in the journal is applied and taken out of it. -/
def recover (disk : Disk β) (now : OffsetDateTime) : Disk β :=
  disk.pending.foldl (fun disk commit =>
    let applied := disk.apply commit.2 now
    { applied with commits := applied.commits.erase commit.1 }) disk

variable (disk : Disk β) (binding : ScopeBinding)

/-- An answer about one execution, unless the execution is another scope's. -/
def about {α : Type} (execution : String) (answer : α) : Except StoreError α :=
  (disk.check binding execution).map fun _ => answer

/-! ## Reading one execution -/

def ownershipRecord (execution : String) : Except StoreError (Option ExecutionOwnership) :=
  disk.about binding execution (disk.ownerOf execution)

def load (execution : String) : Except StoreError StreamSlice :=
  disk.about binding execution (.whole (disk.readStream execution))

def loadPage (execution : String) (after limit : Nat) : Except StoreError StreamSlice :=
  disk.about binding execution (.page (disk.readStream execution) after limit)

def timersOf (execution : String) : Except StoreError (List Timer) :=
  disk.about binding execution (soonestFirst
    ((BTreeMap.values disk.timers).filter fun timer => timer.execution == execution))

def recordedOutcome (key : AttemptKey) : Except StoreError (Option WorkflowEvent) :=
  disk.about binding key.executionId
    ((recordedEvents (disk.readStream key.executionId)).find? fun event =>
      settles event key.stepId key.attempt)

def deciderLease (execution : String) : Except StoreError (Option DeciderLease) :=
  disk.about binding execution disk.deciderLeases[execution]?

def projection (execution : String) : Except StoreError (Option RunProjection) :=
  disk.about binding execution disk.projections[execution]?

def attempt (key : AttemptKey) : Except StoreError (Option AttemptRow) :=
  disk.about binding key.executionId disk.attempts[key]?

/-! ## Reading across executions -/

def dueTimers (now : OffsetDateTime) (limit : Nat) : List Timer :=
  (soonestFirst ((BTreeMap.values disk.timers).filter fun timer =>
    timer.isDue now && disk.admits binding timer.execution)).take limit

def pendingOutbox (limit : Nat) : List OutboxMessage :=
  (disk.outbox.filter fun row =>
    row.publishedAt.isNone && disk.admitsPartition binding row.partitionKey).take limit

/-- The attempt rows on this store's side of the boundary. -/
def mine : List AttemptRow :=
  (BTreeMap.values disk.attempts).filter fun row => disk.admits binding row.key.executionId

def unclaimedAttempts (now : OffsetDateTime) : List (RuntimeKind × Nat) :=
  tallyUnclaimed (disk.mine binding) now

def claimableAttempts (runtime : RuntimeKind) (now : OffsetDateTime) (limit : Nat) :
    List AttemptRow :=
  claimableOf (disk.mine binding) runtime now limit

def readSlots (file : SlotFile) : List SlotRecord := (disk.slots[file]?).getD []

def recentSlots (kind : DefinitionKind) (name : String) (limit : Nat) :
    Except StoreError (List SlotRecord) :=
  (binding.refuseInstanceWide "read schedule slots").map fun _ =>
    (newestFirst (disk.readSlots ⟨kind, name⟩)).take limit

def projectScopes (limit : Nat) : Except StoreError (List ProjectScope) :=
  (binding.refuseInstanceWide "list the projects that have run here").map fun _ =>
    scopesOf (BTreeMap.values disk.ownership) limit

def checkpoint (processor : String) : Except StoreError (Option Checkpoint) :=
  (binding.refuseInstanceWide "read a processor checkpoint").map fun _ =>
    disk.checkpoints[processor]?

/-! ## Appending -/

/-- The commit of an append behind `version`. -/
def commitOf (execution : String) (request : AppendRequest) (version : Nat) (now : OffsetDateTime)
    (establishing : Option ExecutionOwnership) : PendingCommit where
  execution := execution
  records := numbered now version request.messages
  projection := request.projection
  outbox := request.outbox
  attempts := request.attempts
  timers := request.timers
  ownership := establishing
  checkpoint := request.checkpoint

/-- The commit point: the decision is accepted once it is in the journal. -/
def journal (commit : PendingCommit) (now : OffsetDateTime) : Disk β :=
  { disk with commits := disk.commits.insert now.natAbs commit }

/-- What an append is answered before it writes anything, and the commit it makes
otherwise. -/
def accept (execution : String) (request : AppendRequest) (now : OffsetDateTime) :
    Except StoreError AppendOutcome ⊕ PendingCommit :=
  let existing := disk.readStream execution
  let version := existing.length
  match binding.appending execution request.ownership (disk.ownerOf execution) (version == 0) with
  | .error refused => .inl (.error refused)
  | .ok establishing =>
    match existing.find? fun message => message.metadata.messageId == request.inputId with
    | some seen => .inl (.ok (.duplicate seen.streamVersion))
    | none =>
      match request.expectedVersion.check version with
      | .error conflict => .inl (.error conflict)
      | .ok () => .inr (commitOf execution request version now establishing)

/-- `append`: recover, then the scope, the inbox and the version, then the journal, the
files and the journal again. -/
def append (size : WorkflowMessage → Nat) (execution : String) (request : AppendRequest)
    (now : OffsetDateTime) : Except StoreError AppendOutcome × Disk β :=
  match request.checkPayloads size with
  | .error refused => (.error refused, disk)
  | .ok () =>
    let disk := disk.recover now
    match disk.accept binding execution request now with
    | .inl answer => (answer, disk)
    | .inr commit =>
      let applied := (disk.journal commit now).apply commit now
      (.ok (.appended ((disk.readStream execution).length + request.messages.length)),
        { applied with commits := applied.commits.erase now.natAbs })

/-! ## Leases -/

def takeDeciderLease (execution holder : String) (now : OffsetDateTime) :
    Except StoreError LeaseOutcome × Disk β :=
  match disk.check binding execution with
  | .error refused => (.error refused, disk)
  | .ok () =>
    let grant lease := (.ok (.taken lease),
      { disk with deciderLeases := disk.deciderLeases.insert execution lease })
    match disk.deciderLeases[execution]? with
    | some lease =>
      if lease.heldBy holder now || lease.expired now then grant (lease.take holder now)
      else (.ok (.held lease.holder lease.expiresAt), disk)
    | none => grant (.takenBy execution holder now)

def releaseDeciderLease (execution holder : String) (now : OffsetDateTime) :
    Except StoreError Bool × Disk β :=
  match disk.check binding execution with
  | .error refused => (.error refused, disk)
  | .ok () =>
    if !(disk.deciderLeases[execution]?).any fun lease => lease.heldBy holder now then
      (.ok false, disk)
    else (.ok true, { disk with deciderLeases := disk.deciderLeases.erase execution })

/-! ## The outbox -/

/-- `mark_published`: each row under one of these ids that this side may reach goes. -/
def markPublished (ids : List String) : Disk β :=
  { disk with outbox := disk.outbox.filter fun row =>
      !(ids.contains row.messageId && disk.admitsPartition binding row.partitionKey) }

/-! ## Slots -/

/-- The rows of one definition with one of them put in its place. -/
def putSlot (rows : List SlotRecord) (record : SlotRecord) : List SlotRecord :=
  ((rows.filter fun row => row.key != record.key) ++ [record]).insertionSort
    fun a b => a.key.slot ≤ b.key.slot

def admitSlot (request : SlotAdmissionRequest) : Except StoreError SlotAdmission × Disk β :=
  match binding.refuseInstanceWide "admit a schedule slot" with
  | .error refused => (.error refused, disk)
  | .ok () =>
    let rows := disk.readSlots request.key.file
    let held := rows.find? fun row => row.key == request.key
    match heldAnswer held request.now with
    | some answer => (.ok answer, disk)
    | none =>
      match if request.overlap == .skip then
          runningOf (BTreeMap.values disk.projections) request.key.definitionName
        else none with
      | some running => (.ok (.blocked running), disk)
      | none =>
        let record := SlotRecord.admitted request.key request.owner request.now
          (held.bind fun record => record.detail)
        (.ok .admitted,
          { disk with slots := disk.slots.insert request.key.file (putSlot rows record) })

/-- The first row under a key, changed. -/
def changeSlot (key : SlotKey) (change : SlotRecord → SlotRecord) : List SlotRecord → List SlotRecord
  | [] => []
  | row :: rows => if row.key == key then change row :: rows else row :: changeSlot key change rows

def settleSlot (key : SlotKey) (owner : String) (settlement : SlotSettlement)
    (now : OffsetDateTime) : Except StoreError Unit × Disk β :=
  match binding.refuseInstanceWide "settle a schedule slot" with
  | .error refused => (.error refused, disk)
  | .ok () =>
    let rows := disk.readSlots key.file
    match rows.find? fun row => row.key == key with
    | none => (.ok (), disk)
    | some record =>
      if record.leaseOwner ≠ some owner then (.ok (), disk)
      else
        let rows := changeSlot key (fun record => record.settle settlement now) rows
        (.ok (), { disk with slots := disk.slots.insert key.file rows })

/-! ## Claims -/

def claimAttempt (filter : ClaimFilter) (owner : String) (now : OffsetDateTime) :
    Option AttemptRow × Disk β :=
  match (BTreeMap.values disk.attempts).find? fun row =>
      row.isClaimable now && filter.matches row && disk.admits binding row.key.executionId with
  | none => (none, disk)
  | some found =>
    match disk.attempts[found.key]? with
    | none => (none, disk)
    | some row =>
      (some (row.claim owner now),
        { disk with attempts := disk.attempts.insert found.key (row.claim owner now) })

def heartbeat (key : AttemptKey) (owner : String) (now : OffsetDateTime) :
    Except StoreError Bool × Disk β :=
  match disk.check binding key.executionId with
  | .error refused => (.error refused, disk)
  | .ok () =>
    match disk.attempts[key]? with
    | none => (.ok false, disk)
    | some row =>
      if !row.isHeldBy owner now then (.ok false, disk)
      else (.ok true,
        { disk with attempts := disk.attempts.insert key { row with claimedAt := some now } })

/-! ## Cursors and retention -/

def advanceCheckpoint (processor : String) (checkpoint : Checkpoint) :
    Except StoreError Unit × Disk β :=
  match binding.refuseInstanceWide "advance a processor checkpoint" with
  | .error refused => (.error refused, disk)
  | .ok () =>
    (.ok (), { disk with checkpoints := disk.checkpoints.insert processor checkpoint })

/-- Whether a sweep may forget the run of this projection. -/
def mayPrune (before : OffsetDateTime) (run : RunProjection) : Bool :=
  !(unpublished disk.outbox).contains (partitionOf run.executionId) &&
    disk.admits binding run.executionId &&
    prunable run (disk.lastActivity run.executionId) before

/-- The runs a sweep forgets, `visits` being the order it meets their projections in. -/
def doomed (before : OffsetDateTime) (limit : Nat) (visits : List String) : List RunProjection :=
  ((visits.filterMap fun execution => disk.projections[execution]?).filter
    (disk.mayPrune binding before)).take limit

/-- A directory without some executions. -/
def forget (executions : List String) : Disk β :=
  { disk with
    streams := Table.dropAll disk.streams executions
    projections := Table.dropAll disk.projections executions
    ownership := Table.dropAll disk.ownership executions
    attempts := disk.attempts.filter fun key _ => !executions.contains key.executionId }

def prune (before : OffsetDateTime) (limit : Nat) (visits : List String) : Pruned × Disk β :=
  let doomed := (disk.doomed binding before limit visits).map (·.executionId)
  let after := disk.forget doomed
  (⟨doomed.length, disk.attempts.size - after.attempts.size⟩, after)

end Disk

instance {β : Type} [StreamFile β] : WorkflowStore (Disk β) where
  ownership := Disk.ownershipRecord
  load := Disk.load
  loadPage := Disk.loadPage
  dueTimers := Disk.dueTimers
  timersOf := Disk.timersOf
  recordedOutcome := Disk.recordedOutcome
  takeDeciderLease := Disk.takeDeciderLease
  releaseDeciderLease := Disk.releaseDeciderLease
  deciderLease := Disk.deciderLease
  append := Disk.append
  projection := Disk.projection
  pendingOutbox := Disk.pendingOutbox
  markPublished := Disk.markPublished
  admitSlot := Disk.admitSlot
  settleSlot := Disk.settleSlot
  recentSlots := Disk.recentSlots
  projectScopes := Disk.projectScopes
  checkpoint := Disk.checkpoint
  claimAttempt := Disk.claimAttempt
  heartbeat := Disk.heartbeat
  attempt := Disk.attempt
  unclaimedAttempts := Disk.unclaimedAttempts
  claimableAttempts := Disk.claimableAttempts
  advanceCheckpoint := Disk.advanceCheckpoint
  prune := Disk.prune

namespace Disk

variable {β : Type} [StreamFile β]

/-! ## What one operation writes -/

/-- An operation but for an append and a sweep leaves the store alone or writes one table. -/
inductive Wrote (size : WorkflowMessage → Nat) (binding : ScopeBinding) (disk : Disk β) :
    Operation → Disk β → Prop
  | nothing {op} : Wrote size binding disk op disk
  | append {execution request now} : Wrote size binding disk (.append execution request now)
      (disk.append binding size execution request now).2
  | prune {before limit visits} : Wrote size binding disk (.prune before limit visits)
      (disk.prune binding before limit visits).2
  | taken {execution holder now} (lease) :
      Wrote size binding disk (.takeDeciderLease execution holder now)
        { disk with deciderLeases := disk.deciderLeases.insert execution lease }
  | released {execution holder now} :
      Wrote size binding disk (.releaseDeciderLease execution holder now)
        { disk with deciderLeases := disk.deciderLeases.erase execution }
  | published {ids} (keep) : Wrote size binding disk (.markPublished ids)
      { disk with outbox := disk.outbox.filter keep }
  | slots {op} (slots) : Wrote size binding disk op { disk with slots := slots }
  | attempt {op key row row'} : disk.attempts[key]? = some row → row'.key = row.key →
      (∀ e ∈ op.names, key.executionId = e) →
      Wrote size binding disk op { disk with attempts := disk.attempts.insert key row' }
  | checkpoints {op} (checkpoints) : Wrote size binding disk op
      { disk with checkpoints := checkpoints }

theorem wrote_perform (size : WorkflowMessage → Nat) (binding : ScopeBinding) (disk : Disk β)
    (op : Operation) : Wrote size binding disk op (op.perform size disk binding).2 := by
  cases op with
  | append execution request now => exact .append
  | prune before limit visits => exact .prune
  | markPublished ids => exact .published _
  | takeDeciderLease execution holder now =>
    show Wrote _ _ _ _ (disk.takeDeciderLease binding execution holder now).2
    unfold Disk.takeDeciderLease
    split
    · exact .nothing
    · dsimp only
      split
      · split
        · exact .taken _
        · exact .nothing
      · exact .taken _
  | releaseDeciderLease execution holder now =>
    show Wrote _ _ _ _ (disk.releaseDeciderLease binding execution holder now).2
    unfold Disk.releaseDeciderLease
    split
    · exact .nothing
    · split
      · exact .nothing
      · exact .released
  | admitSlot request =>
    show Wrote _ _ _ _ (disk.admitSlot binding request).2
    unfold Disk.admitSlot
    dsimp only
    split
    · exact .nothing
    · split
      · exact .nothing
      · split
        · exact .nothing
        · exact .slots _
  | settleSlot key owner settlement now =>
    show Wrote _ _ _ _ (disk.settleSlot binding key owner settlement now).2
    unfold Disk.settleSlot
    dsimp only
    split
    · exact .nothing
    · split
      · exact .nothing
      · split
        · exact .nothing
        · exact .slots _
  | claimAttempt filter owner now =>
    show Wrote _ _ _ _ (disk.claimAttempt binding filter owner now).2
    unfold Disk.claimAttempt
    split
    · exact .nothing
    · split
      · exact .nothing
      · rename_i hrow
        exact .attempt hrow rfl nofun
  | heartbeat key owner now =>
    show Wrote _ _ _ _ (disk.heartbeat binding key owner now).2
    unfold Disk.heartbeat
    split
    · exact .nothing
    · split
      · exact .nothing
      · rename_i hrow
        split
        · exact .nothing
        · exact .attempt hrow rfl fun _ => Option.some.inj
  | advanceCheckpoint processor cursor =>
    show Wrote _ _ _ _ (disk.advanceCheckpoint binding processor cursor).2
    unfold Disk.advanceCheckpoint
    split
    · exact .nothing
    · exact .checkpoints _
  | _ => exact .nothing

end Disk

end Aiwatcher.Store
