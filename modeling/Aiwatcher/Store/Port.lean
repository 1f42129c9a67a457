import Aiwatcher.Store.Scope

/-!
# Aiwatcher.Store.Port

The port every workflow store answers (`store/mod.rs`): what an append carries, the
readings the adapters share, and the operations themselves.

The clock of an append and the size of a serialised message are arguments.  The order a
store meets its executions in decides something in `prune` only, and is an argument
there.

The operations of the port as data, so that what happens to a store is a list: each
operation names its arguments, `Reply` is the type it answers in, and `perform` is what
a store makes of it.
-/

namespace Aiwatcher.Store

open Engine Library

/-! ## Requests -/

/-- What the caller believed the stream was at. -/
inductive ExpectedVersion where
  | any
  | noStream
  | exact (version : Nat)
  deriving DecidableEq, Repr

def ExpectedVersion.check : ExpectedVersion → Nat → Except StoreError Unit
  | .any, _ => .ok ()
  | .noStream, version => if version ≠ 0 then .error (.versionConflict 0 version) else .ok ()
  | .exact expected, version =>
    if expected ≠ version then .error (.versionConflict expected version) else .ok ()

/-- Everything one decision writes, in one call. -/
structure AppendRequest where
  expectedVersion : ExpectedVersion
  input : PendingMessage
  outputs : List PendingMessage
  projection : RunProjection
  outbox : List OutboxMessage
  checkpoint : Option (String × Checkpoint)
  timers : List TimerWrite
  attempts : List AttemptWrite
  ownership : Option ExecutionOwnership

namespace AppendRequest

/-- The id the inbox recognises this append by. -/
def inputId (request : AppendRequest) : String := request.input.metadata.messageId

/-- The input, then every output. -/
def messages (request : AppendRequest) : List PendingMessage := request.input :: request.outputs

def maxPayloadBytes : Nat := 262144

/-- The bounds every message has to be inside. -/
def checkPayloads (size : WorkflowMessage → Nat) (request : AppendRequest) :
    Except StoreError Unit :=
  match request.messages.find? fun message =>
      Decidable.decide (maxPayloadBytes < size message.message) with
  | some message => .error (.payloadTooLarge (size message.message) maxPayloadBytes)
  | none => .ok ()

end AppendRequest

/-- What an append did. -/
inductive AppendOutcome where
  | appended (version : Nat)
  | duplicate (version : Nat)
  deriving DecidableEq, Repr

/-! ## Shared readings -/

/-- The execution a partition key names: what follows `workflow:`. -/
def executionOf (partitionKey : String) : Option String :=
  (List.isPrefixOf? "workflow:".toList partitionKey.toList).map String.ofList

@[simp] theorem executionOf_partitionOf (execution : String) :
    executionOf (partitionOf execution) = some execution := by
  simp [executionOf, partitionOf, String.toList_append, List.isPrefixOf?]

/-- Soonest first, ties in the order they are held in. -/
def soonestFirst (timers : List Timer) : List Timer :=
  timers.insertionSort fun a b => a.dueAt ≤ b.dueAt

/-- Newest slot first. -/
def newestFirst (slots : List SlotRecord) : List SlotRecord :=
  slots.insertionSort fun a b => b.key.slot ≤ a.key.slot

/-- The least of some ids. -/
def least (ids : List String) : Option String :=
  ids.foldl (fun held id => if held.all fun least => id < least then some id else held) none

/-- The scopes of some owners, each once, in order. -/
def scopesOf (owners : List ExecutionOwnership) (limit : Nat) : List ProjectScope :=
  let scopes : BTreeMap ProjectScope Unit :=
    owners.foldl (fun scopes owner => scopes.insert owner.scope ()) ∅
  (scopes.toList.map Prod.fst).take limit

/-- The id of an unfinished run of this definition, if one blocks a slot. -/
def runningOf (runs : List RunProjection) (definition : String) : Option String :=
  least ((runs.filter fun run =>
    run.definitionName == definition && !run.state.stateType.isTerminal).map (·.executionId))

/-- What stops a slot from being taken before the overlap is looked at. -/
def heldAnswer (held : Option SlotRecord) (now : OffsetDateTime) : Option SlotAdmission :=
  held.bind fun record =>
    match record.outcome with
    | some outcome => some (.settled outcome)
    | none =>
      if record.isAvailable now then none
      else some (.held (record.leaseOwner.getD ""))

/-- The last instant anything was recorded in a stream, the epoch for none. -/
def lastActivity (stream : List RecordedMessage) : OffsetDateTime :=
  (stream.getLast?.map (·.recordedAt)).getD OffsetDateTime.unixEpoch

/-- The partitions some rows have not been published for. -/
def unpublished (outbox : List OutboxMessage) : List String :=
  (outbox.filter fun row => row.publishedAt.isNone).map (·.partitionKey)

/-! ## The operations -/

/-- A workflow store, every operation through a handle bound to one scope. -/
class WorkflowStore (σ : Type) where
  ownership : σ → ScopeBinding → String → Except StoreError (Option ExecutionOwnership)
  load : σ → ScopeBinding → String → Except StoreError StreamSlice
  loadPage : σ → ScopeBinding → String → Nat → Nat → Except StoreError StreamSlice
  dueTimers : σ → ScopeBinding → OffsetDateTime → Nat → List Timer
  timersOf : σ → ScopeBinding → String → Except StoreError (List Timer)
  recordedOutcome : σ → ScopeBinding → AttemptKey → Except StoreError (Option WorkflowEvent)
  takeDeciderLease : σ → ScopeBinding → String → String → OffsetDateTime →
    Except StoreError LeaseOutcome × σ
  releaseDeciderLease : σ → ScopeBinding → String → String → OffsetDateTime →
    Except StoreError Bool × σ
  deciderLease : σ → ScopeBinding → String → Except StoreError (Option DeciderLease)
  append : σ → ScopeBinding → (WorkflowMessage → Nat) → String → AppendRequest → OffsetDateTime →
    Except StoreError AppendOutcome × σ
  projection : σ → ScopeBinding → String → Except StoreError (Option RunProjection)
  pendingOutbox : σ → ScopeBinding → Nat → List OutboxMessage
  markPublished : σ → ScopeBinding → List String → σ
  admitSlot : σ → ScopeBinding → SlotAdmissionRequest → Except StoreError SlotAdmission × σ
  settleSlot : σ → ScopeBinding → SlotKey → String → SlotSettlement → OffsetDateTime →
    Except StoreError Unit × σ
  recentSlots : σ → ScopeBinding → DefinitionKind → String → Nat →
    Except StoreError (List SlotRecord)
  projectScopes : σ → ScopeBinding → Nat → Except StoreError (List ProjectScope)
  checkpoint : σ → ScopeBinding → String → Except StoreError (Option Checkpoint)
  claimAttempt : σ → ScopeBinding → ClaimFilter → String → OffsetDateTime → Option AttemptRow × σ
  heartbeat : σ → ScopeBinding → AttemptKey → String → OffsetDateTime → Except StoreError Bool × σ
  attempt : σ → ScopeBinding → AttemptKey → Except StoreError (Option AttemptRow)
  unclaimedAttempts : σ → ScopeBinding → OffsetDateTime → List (RuntimeKind × Nat)
  claimableAttempts : σ → ScopeBinding → RuntimeKind → OffsetDateTime → Nat → List AttemptRow
  advanceCheckpoint : σ → ScopeBinding → String → Checkpoint → Except StoreError Unit × σ
  prune : σ → ScopeBinding → OffsetDateTime → Nat → List String → Pruned × σ

/-- One call of the port. -/
inductive Operation where
  | ownership (execution : String)
  | load (execution : String)
  | loadPage (execution : String) (after limit : Nat)
  | dueTimers (now : OffsetDateTime) (limit : Nat)
  | timersOf (execution : String)
  | recordedOutcome (key : AttemptKey)
  | takeDeciderLease (execution holder : String) (now : OffsetDateTime)
  | releaseDeciderLease (execution holder : String) (now : OffsetDateTime)
  | deciderLease (execution : String)
  | append (execution : String) (request : AppendRequest) (now : OffsetDateTime)
  | projection (execution : String)
  | pendingOutbox (limit : Nat)
  | markPublished (ids : List String)
  | admitSlot (request : SlotAdmissionRequest)
  | settleSlot (key : SlotKey) (owner : String) (settlement : SlotSettlement)
      (now : OffsetDateTime)
  | recentSlots (kind : DefinitionKind) (name : String) (limit : Nat)
  | projectScopes (limit : Nat)
  | checkpoint (processor : String)
  | claimAttempt (filter : ClaimFilter) (owner : String) (now : OffsetDateTime)
  | heartbeat (key : AttemptKey) (owner : String) (now : OffsetDateTime)
  | attempt (key : AttemptKey)
  | unclaimedAttempts (now : OffsetDateTime)
  | claimableAttempts (runtime : RuntimeKind) (now : OffsetDateTime) (limit : Nat)
  | advanceCheckpoint (processor : String) (cursor : Checkpoint)
  | prune (before : OffsetDateTime) (limit : Nat) (visits : List String)

namespace Operation

/-- What an operation answers. -/
def Reply : Operation → Type
  | ownership _ => Except StoreError (Option ExecutionOwnership)
  | load _ | loadPage .. => Except StoreError StreamSlice
  | dueTimers .. => List Timer
  | timersOf _ => Except StoreError (List Timer)
  | recordedOutcome _ => Except StoreError (Option WorkflowEvent)
  | takeDeciderLease .. => Except StoreError LeaseOutcome
  | releaseDeciderLease .. | heartbeat .. => Except StoreError Bool
  | deciderLease _ => Except StoreError (Option DeciderLease)
  | append .. => Except StoreError AppendOutcome
  | projection _ => Except StoreError (Option RunProjection)
  | pendingOutbox _ => List OutboxMessage
  | markPublished _ => Unit
  | admitSlot _ => Except StoreError SlotAdmission
  | settleSlot .. | advanceCheckpoint .. => Except StoreError Unit
  | recentSlots .. => Except StoreError (List SlotRecord)
  | projectScopes _ => Except StoreError (List ProjectScope)
  | checkpoint _ => Except StoreError (Option Checkpoint)
  | claimAttempt .. => Option AttemptRow
  | attempt _ => Except StoreError (Option AttemptRow)
  | unclaimedAttempts _ => List (RuntimeKind × Nat)
  | claimableAttempts .. => List AttemptRow
  | prune .. => Pruned

/-- One operation through a handle: its answer, and the store it leaves. -/
def perform {σ : Type} [WorkflowStore σ] (size : WorkflowMessage → Nat) (store : σ)
    (binding : ScopeBinding) : (op : Operation) → op.Reply × σ
  | ownership execution => (WorkflowStore.ownership store binding execution, store)
  | load execution => (WorkflowStore.load store binding execution, store)
  | loadPage execution after limit =>
    (WorkflowStore.loadPage store binding execution after limit, store)
  | dueTimers now limit => (WorkflowStore.dueTimers store binding now limit, store)
  | timersOf execution => (WorkflowStore.timersOf store binding execution, store)
  | recordedOutcome key => (WorkflowStore.recordedOutcome store binding key, store)
  | takeDeciderLease execution holder now =>
    WorkflowStore.takeDeciderLease store binding execution holder now
  | releaseDeciderLease execution holder now =>
    WorkflowStore.releaseDeciderLease store binding execution holder now
  | deciderLease execution => (WorkflowStore.deciderLease store binding execution, store)
  | append execution request now =>
    WorkflowStore.append store binding size execution request now
  | projection execution => (WorkflowStore.projection store binding execution, store)
  | pendingOutbox limit => (WorkflowStore.pendingOutbox store binding limit, store)
  | markPublished ids => ((), WorkflowStore.markPublished store binding ids)
  | admitSlot request => WorkflowStore.admitSlot store binding request
  | settleSlot key owner settlement now =>
    WorkflowStore.settleSlot store binding key owner settlement now
  | recentSlots kind name limit => (WorkflowStore.recentSlots store binding kind name limit, store)
  | projectScopes limit => (WorkflowStore.projectScopes store binding limit, store)
  | checkpoint processor => (WorkflowStore.checkpoint store binding processor, store)
  | claimAttempt filter owner now => WorkflowStore.claimAttempt store binding filter owner now
  | heartbeat key owner now => WorkflowStore.heartbeat store binding key owner now
  | attempt key => (WorkflowStore.attempt store binding key, store)
  | unclaimedAttempts now => (WorkflowStore.unclaimedAttempts store binding now, store)
  | claimableAttempts runtime now limit =>
    (WorkflowStore.claimableAttempts store binding runtime now limit, store)
  | advanceCheckpoint processor cursor =>
    WorkflowStore.advanceCheckpoint store binding processor cursor
  | prune before limit visits => WorkflowStore.prune store binding before limit visits

/-- The execution an operation is about, where it names one. -/
def names : Operation → Option String
  | ownership execution | load execution | loadPage execution .. | timersOf execution
  | takeDeciderLease execution .. | releaseDeciderLease execution .. | deciderLease execution
  | append execution .. | projection execution => some execution
  | recordedOutcome key | heartbeat key .. | attempt key => some key.executionId
  | _ => none

end Operation

/-- A store after some operations, each through a handle of its own. -/
def performAll {σ : Type} [WorkflowStore σ] (size : WorkflowMessage → Nat) (store : σ)
    (operations : List (ScopeBinding × Operation)) : σ :=
  operations.foldl (fun store done => (done.2.perform size store done.1).2) store

end Aiwatcher.Store
