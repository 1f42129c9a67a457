import Aiwatcher.Store.Port

/-!
# Aiwatcher.Store.Handle

The one place the decider and the store meet (`handler.rs`): load the stream, look for
the message, decide, append at the version that was read, and start over on a conflict.

`service` puts any number of such calls side by side over one store.  A step is one
store operation of one call, so between a call's load and its append anything may
happen.
-/

namespace Aiwatcher.Store

open Engine Library

/-! ## The projection -/

/-- The inline projection for a folded state. -/
def projectionOf (execution : String) (state : ExecutionState) (version : Nat) : RunProjection :=
  match state.isActive with
  | some run => {
      executionId := execution
      planId := run.plan.planId
      definitionName := run.plan.definitionName
      owner := run.owner
      mode := run.mode
      payloads := run.payloads
      state := run.state
      requestedBy := run.requestedBy
      steps := BTreeMap.values run.steps
      lastMessageVersion := version
      createdAt := run.createdAt }
  | none => {
      executionId := execution
      planId := ""
      definitionName := ""
      owner := .localDecider
      mode := .compiled
      payloads := .external
      state := .of .scheduled
      requestedBy := ""
      steps := []
      lastMessageVersion := version
      createdAt := OffsetDateTime.unixEpoch }

/-! ## Handling one input -/

/-- An envelope on its way to the event log (`facts.rs`). -/
structure EventEnvelope where
  eventId : Option String
  eventType : String
  occurredAt : OffsetDateTime
  json : Value

/-- Envelopes wrapped as outbox rows of one execution; one without an id is left out. -/
def outboxRows (envelopes : List EventEnvelope) (execution : String) : List OutboxMessage :=
  envelopes.filterMap fun envelope => envelope.eventId.map fun id => {
    messageId := id
    eventType := envelope.eventType
    partitionKey := partitionOf execution
    payload := envelope.json
    availableAt := envelope.occurredAt
    attempts := 0
    publishedAt := none
    lastError := none }

/-- What the handler is deployed with: the digests of the decider, the size of a
serialised message, and the envelopes a decision is published as. -/
structure Deployment where
  digests : Digests
  payloadSize : WorkflowMessage → Nat
  envelopes : Execution → List PendingMessage → MessageMetadata → List EventEnvelope

/-- The facts of one decision, as outbox rows. -/
def Deployment.facts (env : Deployment) (execution : String) (after : ExecutionState)
    (outputs : List PendingMessage) (metadata : MessageMetadata) : List OutboxMessage :=
  match after.isActive with
  | none => []
  | some run => outboxRows (env.envelopes run outputs metadata) execution

/-- How many times a conflict is re-read before the caller is told. -/
def maxConflictRetries : Nat := 3

/-- Why an input was not handled. -/
inductive HandleError where
  | decision (error : DecisionError)
  | store (error : StoreError)
  | contended (retries : Nat)
  deriving DecidableEq, Repr

/-- What handling one input did. -/
structure Handled where
  outcome : AppendOutcome
  projection : RunProjection
  outbox : List OutboxMessage
  duplicate : Bool

/-- Whether a message is an effect: the decider's to send, and nobody else's. -/
def isEffect : WorkflowMessage → Bool
  | .command (.executeStep ..) | .command (.requestInput ..) | .command (.timeoutInput ..) => true
  | _ => false

/-- One input on its way to the decider: through which store handle, whether this engine
delivers it to itself, and the cursor and the owner it carries. -/
structure Handling where
  binding : ScopeBinding
  internal : Bool
  input : WorkflowMessage
  metadata : MessageMetadata
  now : OffsetDateTime
  checkpoint : Option (String × Checkpoint)
  ownership : Option ExecutionOwnership

namespace Handling

/-- The id a redelivery is recognised by. -/
def inputId (handling : Handling) : String := handling.metadata.messageId

def pending (handling : Handling) : PendingMessage := ⟨.input, handling.input, handling.metadata⟩

def delivery (handling : Handling) : Delivery := ⟨handling.input, handling.inputId, handling.now⟩

/-- The append of a decision made on a slice. -/
def request (env : Deployment) (execution : String) (handling : Handling) (slice : StreamSlice)
    (outputs : Decision) : AppendRequest :=
  let after := (outputs.filterMap (·.message.event?)).foldl evolve (replay slice.events)
  { expectedVersion := if slice.messages.isEmpty then .noStream else .exact slice.version
    input := handling.pending
    outputs := outputs
    projection := projectionOf execution after (slice.version + 1 + outputs.length)
    outbox := env.facts execution after outputs handling.metadata
    checkpoint := handling.checkpoint
    timers := deadlineRows execution after outputs
    attempts := attemptRows execution after outputs
    ownership := handling.ownership }

/-- The answer to an input the stream already holds. -/
def recognised (execution : String) (slice : StreamSlice) (version : Nat) : Handled where
  outcome := .duplicate version
  projection := projectionOf execution (replay slice.events) slice.version
  outbox := []
  duplicate := true

end Handling

/-- Where one call is: which round it is in, and the slice it decides on. -/
inductive Call where
  | loading (round : Nat)
  | claiming (slice : StreamSlice) (version : Nat)
  | appending (round : Nat) (slice : StreamSlice)
  | advancing (handled : Handled)
  | done (result : Except HandleError Handled)

namespace Call

/-- A call that comes in: an effect is turned away, unless this engine sends it. -/
def enter (handling : Handling) : Call :=
  if isEffect handling.input && !handling.internal then
    .done (.error (.decision (.unhandled handling.input.name)))
  else .loading 0

/-- What is left once an input has been answered: a redelivery from the log still moves
its cursor. -/
def settle (handling : Handling) (handled : Handled) : Call :=
  if handled.duplicate && handling.checkpoint.isSome then .advancing handled
  else .done (.ok handled)

variable (env : Deployment) (execution : String) (handling : Handling)

/-- A call that has read the stream. -/
def loaded (round : Nat) : Except StoreError StreamSlice → Call
  | .error error => .done (.error (.store error))
  | .ok slice =>
    match slice.messages.find? fun recorded =>
        recorded.metadata.messageId == handling.inputId with
    | some seen =>
      if handling.ownership.isSome then .claiming slice seen.streamVersion
      else settle handling (Handling.recognised execution slice seen.streamVersion)
    | none => .appending round slice

/-- A start the stream already holds, and who owns the run. -/
def claimed (slice : StreamSlice) (version : Nat) :
    Except StoreError (Option ExecutionOwnership) → Call
  | .error error => .done (.error (.store error))
  | .ok held =>
    if held ≠ handling.ownership then
      .done (.error (.store (.ownershipConflict execution
        ((held.map ExecutionOwnership.label).getD ExecutionScope.global.label))))
    else settle handling (Handling.recognised execution slice version)

/-- A call whose append was answered. -/
def answered (round : Nat) (request : AppendRequest) : Except StoreError AppendOutcome → Call
  | .ok outcome =>
    let duplicate := match outcome with
      | .duplicate _ => true
      | .appended _ => false
    settle handling
      ⟨outcome, request.projection, if duplicate then [] else request.outbox, duplicate⟩
  | .error (.versionConflict _ _) =>
    if round < maxConflictRetries then .loading (round + 1)
    else .done (.error (.contended maxConflictRetries))
  | .error error => .done (.error (.store error))

/-- One store operation of one call: where the call is then, the store it leaves, and the
answer of its append, if it made one. -/
def step {σ : Type} [WorkflowStore σ] (at' : OffsetDateTime) (store : σ) :
    Call → Option (Call × σ × Option (Except StoreError AppendOutcome))
  | .loading round =>
    some (loaded execution handling round (WorkflowStore.load store handling.binding execution),
      store, none)
  | .claiming slice version =>
    some (claimed execution handling slice version
      (WorkflowStore.ownership store handling.binding execution), store, none)
  | .appending round slice =>
    match decide env.digests (replay slice.events) handling.input handling.inputId
        handling.now with
    | .error error => some (.done (.error (.decision error)), store, none)
    | .ok outputs =>
      let request := handling.request env execution slice outputs
      let (reply, after) :=
        WorkflowStore.append store handling.binding env.payloadSize execution request at'
      some (answered handling round request reply, after, some reply)
  | .advancing handled =>
    match handling.checkpoint with
    | none => none
    | some (processor, checkpoint) =>
      let (reply, after) :=
        WorkflowStore.advanceCheckpoint store handling.binding processor checkpoint
      let result := match reply with
        | .ok () => .ok handled
        | .error error => .error (.store error)
      some (.done result, after, none)
  | .done _ => none

end Call

/-! ## One call by itself -/

namespace Call

/-- How many steps a call may still take. -/
def rank : Call → Nat
  | .loading round => 2 * (maxConflictRetries - round) + 4
  | .claiming .. => 2
  | .appending round _ => 2 * (maxConflictRetries - round) + 3
  | .advancing _ => 1
  | .done _ => 0

/-- A call run to its end, nothing in between; `fuel` is how many steps it may take. -/
def finish {σ : Type} [WorkflowStore σ] (env : Deployment) (execution : String)
    (handling : Handling) (at' : OffsetDateTime) : Nat → Call → σ → Except HandleError Handled × σ
  | _, .done result, store => (result, store)
  | 0, _, store => (.error (.contended maxConflictRetries), store)
  | fuel + 1, call, store =>
    match step env execution handling at' store call with
    | none => (.error (.contended maxConflictRetries), store)
    | some (there, store, _) => finish env execution handling at' fuel there store

end Call

/-- `deliver`, and `handle` for an input that is no effect: load, decide and append, by
the clock of the append. -/
def handle {σ : Type} [WorkflowStore σ] (env : Deployment) (execution : String)
    (handling : Handling) (at' : OffsetDateTime) (store : σ) : Except HandleError Handled × σ :=
  let call := Call.enter handling
  call.finish env execution handling at' call.rank store

/-! ## Calls side by side -/

/-- One store, and the calls in flight over it. -/
structure Service (σ : Type) where
  store : σ
  calls : List (Handling × Call)

inductive Act where
  /-- A caller hands in an input. -/
  | arrive (handling : Handling)
  /-- A call makes its next store operation, by that clock. -/
  | proceed (call : Nat) (at' : OffsetDateTime)

/-- Calls arrive and proceed in any order; what is emitted is what each append answered. -/
def service {σ : Type} [WorkflowStore σ] (env : Deployment) (execution : String) :
    Machine (Service σ) Act (Handling × Except StoreError AppendOutcome) where
  step before
    | .arrive handling =>
      some ([], { before with calls := before.calls ++ [(handling, .enter handling)] })
    | .proceed call at' =>
      before.calls[call]?.bind fun (handling, here) =>
        (Call.step env execution handling at' before.store here).map fun (there, store, reply) =>
          (reply.toList.map fun reply => (handling, reply),
            ⟨store, before.calls.set call (handling, there)⟩)

end Aiwatcher.Store
