import Aiwatcher.Store.Handle

/-!
# Aiwatcher.Store.Hosted

The append side of a hosted execution (`hosted.rs`): a worker appends its own messages
and schedules timers with them, and a tick fires the timers that have come due.
-/

namespace Aiwatcher.Store

open Engine Library

/-! ## Ids and messages -/

/-- The most messages one append may carry. -/
def maxBatch : Nat := 256

/-- The type name of the row that records one append. -/
def hostedAppendType : String := "HostedAppend"

/-- The type name of the row that records one timer coming due. -/
def hostedTimerType : String := "HostedTimerFired"

/-- Metadata of a message caused by `cause`. -/
def causedBy (execution cause messageId : String) (occurredAt : OffsetDateTime) :
    MessageMetadata :=
  ⟨schemaVersion, messageId, occurredAt, execution, cause, none, none⟩

/-- What a worker is asking to append. -/
structure HostedAppend where
  expectedVersion : Nat
  idempotencyKey : String
  holder : String
  messages : List HostedMessage
  timers : List TimerWrite

namespace HostedAppend

variable (d : Digests) (append : HostedAppend) (execution : String)

/-- The inbox key this batch is recognised by. -/
def inputId : String := d.deriveUuid s!"hosted-append/{execution}/{append.idempotencyKey}"

/-- The id of one message of this batch. -/
def messageId (index : Nat) : String :=
  d.deriveUuid s!"hosted-message/{execution}/{append.idempotencyKey}/{index}"

/-- Every message this batch carries, those of its timers included. -/
def carried : List HostedMessage :=
  append.messages ++ append.timers.filterMap fun write =>
    match write with
    | .schedule timer => some timer.message
    | .cancel _ | .fire _ => none

end HostedAppend

/-- The id the message a fired timer delivers is recorded under. -/
def timerMessageId (d : Digests) (timer : Timer) : String :=
  d.deriveUuid s!"hosted-timer-message/{timer.execution}/{timer.timerId}"

/-! ## Refusals -/

def policyText : PayloadPolicy → String
  | .external => "external"
  | .sealed => "sealed"

/-- Why a hosted append was refused. -/
inductive HostedError where
  | notHosted (execution : String)
  | empty
  | tooManyMessages (count : Nat)
  | leaseHeld (holder : String) (expiresAt : OffsetDateTime)
  | payloadPolicyMismatch (timerOrMessage found expected : String)
  | handle (error : HandleError)
  deriving DecidableEq, Repr

/-- A message whose payload is not governed the way the run is. -/
def mismatch (messages : List HostedMessage) (expected : PayloadPolicy) : Option HostedError :=
  messages.findSome? fun message =>
    message.payload.bind fun payload =>
      if payload.policy = expected then none
      else some (.payloadPolicyMismatch message.messageType (policyText payload.policy)
        (policyText expected))

variable {σ : Type} [WorkflowStore σ] (env : Deployment) (binding : ScopeBinding)

/-! ## Appending -/

/-- The append of a worker's batch to a run that is in `state`. -/
def hostedRequest (execution : String) (append : HostedAppend) (slice : StreamSlice)
    (state : ExecutionState) (now : OffsetDateTime) : AppendRequest :=
  let inputId := append.inputId env.digests execution
  let outputs := append.messages.zipIdx.map fun (message, index) =>
    { direction := .output
      message := .hosted message
      metadata := causedBy execution inputId (append.messageId env.digests execution index) now }
  { expectedVersion := .exact append.expectedVersion
    input := {
      direction := .input
      message := .hosted {
        messageType := hostedAppendType
        metadata := .object [("messages", .number (.posInt (UInt64.ofNat outputs.length)))]
        payload := none }
      metadata := causedBy execution inputId inputId now }
    outputs := outputs
    projection := projectionOf execution state (slice.version + 1 + outputs.length)
    outbox := []
    checkpoint := none
    timers := append.timers
    attempts := []
    ownership := none }

/-- What stands in the way of a batch, the version apart. -/
def hostedRefusal (execution : String) (append : HostedAppend) (state : ExecutionState)
    (lease : Option DeciderLease) (now : OffsetDateTime) : Option HostedError :=
  match state.isActive with
  | none => some (.handle (.decision (.notStarted hostedAppendType)))
  | some run =>
    if run.mode ≠ .hosted then some (.notHosted execution)
    else if run.state.stateType.isTerminal then
      some (.handle (.decision (.alreadyFinished run.state.stateType)))
    else match lease.filter fun lease => !lease.expired now && lease.holder != append.holder with
      | some lease => some (.leaseHeld lease.holder lease.expiresAt)
      | none => mismatch append.carried run.payloads

/-- `append_hosted`: a worker's own messages, at the version it decided on. -/
def appendHosted (execution : String) (append : HostedAppend) (now at' : OffsetDateTime)
    (store : σ) : Except HostedError AppendOutcome × σ :=
  if append.messages.isEmpty then (.error .empty, store)
  else if maxBatch < append.messages.length then
    (.error (.tooManyMessages append.messages.length), store)
  else match WorkflowStore.load store binding execution with
    | .error error => (.error (.handle (.store error)), store)
    | .ok slice =>
      match slice.messages.find? fun recorded =>
          recorded.metadata.messageId == append.inputId env.digests execution with
      | some seen => (.ok (.duplicate seen.streamVersion), store)
      | none =>
        let state := replay slice.events
        match WorkflowStore.deciderLease store binding execution with
        | .error error => (.error (.handle (.store error)), store)
        | .ok lease =>
          match hostedRefusal execution append state lease now with
          | some refused => (.error refused, store)
          | none =>
            let request := hostedRequest env execution append slice state now
            let (reply, after) :=
              WorkflowStore.append store binding env.payloadSize execution request at'
            (reply.mapError fun error => .handle (.store error), after)

/-! ## Firing -/

/-- What firing one timer did. -/
structure Fired where
  execution : String
  timerId : String
  delivered : Bool
  deriving DecidableEq, Repr

/-- Whether a run can be handed a message. -/
def deliverable (state : ExecutionState) : Bool :=
  state.isActive.any fun run => run.mode == .hosted && !run.state.stateType.isTerminal

/-- A message of this engine that nothing follows from, or the timer's own behind it. -/
def timerRequest (timer : Timer) (messageType inputId : String) (outputs : List PendingMessage)
    (delivered : Bool) (slice : StreamSlice) (now : OffsetDateTime) : AppendRequest where
  expectedVersion := .exact slice.version
  input := {
    direction := .input
    message := .hosted {
      messageType := messageType
      metadata := .object [("timer_id", .string timer.timerId), ("delivered", .bool delivered)]
      payload := none }
    metadata := causedBy timer.execution inputId inputId now }
  outputs := outputs
  projection := projectionOf timer.execution (replay slice.events)
    (slice.version + 1 + outputs.length)
  outbox := []
  checkpoint := none
  timers := [.fire timer.timerId]
  attempts := []
  ownership := none

/-- The append that fires a worker's timer: its message, where the run can be handed one. -/
def fireRequest (timer : Timer) (slice : StreamSlice) (now : OffsetDateTime) : AppendRequest :=
  let inputId := timer.firedId env.digests
  let delivered := deliverable (replay slice.events)
  let outputs := if delivered then
      [{ direction := .output
         message := .hosted timer.message
         metadata := causedBy timer.execution inputId (timerMessageId env.digests timer) now }]
    else []
  timerRequest timer hostedTimerType inputId outputs delivered slice now

/-- The append that retires a timer whose question is over. -/
def retireRequest (timer : Timer) (slice : StreamSlice) (now : OffsetDateTime) : AppendRequest :=
  timerRequest timer deadlineTimerType (timer.lapsedId env.digests) [] false slice now

/-- Load the timer's stream and append to it. -/
def appendFor (timer : Timer) (request : StreamSlice → AppendRequest) (at' : OffsetDateTime)
    (store : σ) : Except HandleError AppendOutcome × σ :=
  match WorkflowStore.load store binding timer.execution with
  | .error error => (.error (.store error), store)
  | .ok slice =>
    let (reply, after) :=
      WorkflowStore.append store binding env.payloadSize timer.execution (request slice) at'
    (reply.mapError HandleError.store, after)

/-- `retire`: a timer whose question is over goes, and the stream says so. -/
def retire (timer : Timer) (now at' : OffsetDateTime) (store : σ) :
    Except HandleError Fired × σ :=
  let (reply, after) := appendFor env binding timer
    (fun slice => retireRequest env timer slice now) at' store
  (reply.map fun _ => ⟨timer.execution, timer.timerId, false⟩, after)

/-- A deadline as the input that tells the decider. -/
def timeoutHandling (timer : Timer) (stepId : String) (attempt : UInt32) (now : OffsetDateTime) :
    Handling where
  binding := binding
  internal := true
  input := .command (.timeoutInput stepId attempt)
  metadata := causedBy timer.execution (timer.firedId env.digests) (timer.firedId env.digests) now
  now := now
  checkpoint := none
  ownership := none

/-- `fire_deadline`: a question whose deadline ran out, handed to the decider. -/
def fireDeadline (timer : Timer) (now at' : OffsetDateTime) (store : σ) :
    Except HandleError Fired × σ :=
  match timer.question with
  | none => retire env binding timer now at' store
  | some (stepId, attempt) =>
    match handle env timer.execution (timeoutHandling env binding timer stepId attempt now) at'
        store with
    | (.ok _, after) => (.ok ⟨timer.execution, timer.timerId, true⟩, after)
    | (.error (.decision _), after) => retire env binding timer now at' after
    | (.error error, after) => (.error error, after)

/-- `fire`: a gate's deadline is the decider's, any other timer is a worker's message. -/
def fire (timer : Timer) (now at' : OffsetDateTime) (store : σ) : Except HandleError Fired × σ :=
  if timer.message.messageType = deadlineTimerType then
    fireDeadline env binding timer now at' store
  else
    match WorkflowStore.load store binding timer.execution with
    | .error error => (.error (.store error), store)
    | .ok slice =>
      let request := fireRequest env timer slice now
      let (reply, after) :=
        WorkflowStore.append store binding env.payloadSize timer.execution request at'
      (reply.mapError HandleError.store |>.map fun _ =>
        ⟨timer.execution, timer.timerId, deliverable (replay slice.events)⟩, after)

/-- The most timers one tick fires in a pass. -/
def timersPerTick : Nat := 100

/-- One tick after another of the timers found due; one that cannot be fired is skipped. -/
def fireAll (now at' : OffsetDateTime) : List Timer → σ → List Fired × σ
  | [], store => ([], store)
  | timer :: timers, store =>
    let (reply, after) := fire env binding timer now at' store
    let (fired, final) := fireAll now at' timers after
    (reply.toOption.toList ++ fired, final)

/-- `fire_due_timers`: every timer that has come due, oldest first. -/
def fireDueTimers (now at' : OffsetDateTime) (limit : Nat) (store : σ) : List Fired × σ :=
  fireAll env binding now at' (WorkflowStore.dueTimers store binding now limit) store

end Aiwatcher.Store
