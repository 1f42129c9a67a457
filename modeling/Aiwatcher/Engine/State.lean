import Aiwatcher.Engine.Plan

/-!
# Aiwatcher.Engine.State

Where an execution is, and where each of its steps is (`state.rs`).  The state
type drives orchestration; the name beside it is what a person reads.

Commands are intentions, events are facts (`message.rs`), and the refusals of
the decider (`error.rs`).
-/

namespace Aiwatcher.Engine

/-! ## State types -/

/-- What drives orchestration. -/
inductive StateType where
  | scheduled | pending | running | awaitingInput | completed | failed | crashed | cancelled
  | paused
  deriving DecidableEq, Repr

/-- Whether nothing more will happen here without a new command. -/
def StateType.isTerminal : StateType → Bool
  | .completed | .failed | .crashed | .cancelled => true
  | .scheduled | .pending | .running | .awaitingInput | .paused => false

/-- A stable type, and the word a person reads. -/
structure RunState where
  stateType : StateType
  name : String
  deriving DecidableEq, Repr

namespace RunState

def of (stateType : StateType) : RunState := ⟨stateType, ""⟩

def named (stateType : StateType) (name : String) : RunState := ⟨stateType, name⟩

/-- A run whose cancel was accepted and whose running steps have not all
stopped: still running, under another name. -/
def cancelling : RunState := named .running "Cancelling"

@[simp] theorem stateType_of (t : StateType) : (of t).stateType = t := rfl

@[simp] theorem stateType_named (t : StateType) (n : String) : (named t n).stateType = t := rfl

@[simp] theorem stateType_cancelling : cancelling.stateType = .running := rfl

end RunState

/-- Who decides for this execution. -/
inductive ExecutionOwner where
  | localDecider
  | worker
  | unknown (text : String)
  deriving DecidableEq, Repr

/-- Whether the plan is the program, or only its shape. -/
inductive ExecutionMode where
  | compiled
  | hosted
  deriving DecidableEq, Repr

/-- Where a hosted execution's content lives. -/
inductive PayloadPolicy where
  | external
  | sealed
  deriving DecidableEq, Repr

/-! ## Failures -/

/-- Why an attempt did not succeed, and therefore whether to try again. -/
inductive FailureClass where
  | validation | userCode | transient | timeout | infrastructure | policy
  deriving DecidableEq, Repr

namespace FailureClass

/-- Whether trying again could plausibly produce a different answer. -/
def isRetryable : FailureClass → Bool
  | .transient | .timeout | .infrastructure => true
  | _ => false

/-- Whether the runtime may have done the work despite the failure. -/
def mayHaveRun : FailureClass → Bool
  | .transient => false
  | _ => true

/-- The state an attempt that failed this way is left in. -/
def attemptState : FailureClass → StateType
  | .infrastructure => .crashed
  | _ => .failed

end FailureClass

structure StepError where
  failureClass : FailureClass
  message : String
  deriving DecidableEq, Repr

/-! ## Steps -/

/-- What a step is waiting for somebody to answer. -/
structure InputRequest where
  prompt : String
  role : String
  choices : List String
  deadline : Option OffsetDateTime
  onTimeout : Option OnTimeout

/-- One answer somebody gave a step, and which attempt asked for it. -/
structure InputAnswer where
  attempt : UInt32
  answeredBy : String
  response : Value

/-- One physical attempt to perform a step. -/
structure AttemptRecord where
  attempt : UInt32
  state : RunState
  error : Option StepError
  notBefore : Option OffsetDateTime

/-- The logical state of one plan step, across every attempt it took. -/
structure StepState where
  stepId : String
  runtime : RuntimeKind
  state : RunState
  currentAttempt : UInt32
  attempts : List AttemptRecord
  outputs : List ArtifactRef
  awaiting : Option InputRequest
  answers : List InputAnswer
  cacheKey : Option String

def StepState.fresh (stepId : String) (runtime : RuntimeKind) : StepState where
  stepId := stepId
  runtime := runtime
  state := RunState.of .scheduled
  currentAttempt := 0
  attempts := []
  outputs := []
  awaiting := none
  answers := []
  cacheKey := none

/-- Change the first record of `attempt`, if there is one. -/
def updateAttempt (attempt : UInt32) (f : AttemptRecord → AttemptRecord) :
    List AttemptRecord → List AttemptRecord
  | [] => []
  | r :: rs => if r.attempt == attempt then f r :: rs else r :: updateAttempt attempt f rs

/-! ## Executions -/

/-- Everything the decider knows, folded from the stream. -/
structure Execution where
  executionId : String
  plan : ExecutionPlan
  owner : ExecutionOwner
  mode : ExecutionMode
  payloads : PayloadPolicy
  requestedBy : String
  input : BTreeMap String Value
  state : RunState
  steps : BTreeMap String StepState
  cancelling : Bool
  createdAt : OffsetDateTime

namespace Execution

def step (execution : Execution) (stepId : String) : Option StepState :=
  execution.steps[stepId]?

/-- `step_mut`: change one step in place, if the run has it. -/
def modifyStep (execution : Execution) (stepId : String) (f : StepState → StepState) : Execution :=
  { execution with steps := execution.steps.modify stepId f }

def setAttemptState (execution : Execution) (stepId : String) (attempt : UInt32)
    (state : RunState) : Execution :=
  execution.modifyStep stepId fun step =>
    { step with attempts := updateAttempt attempt (fun r => { r with state := state }) step.attempts }

/-- What `stepId` reads, resolved to the artifacts its parents produced. -/
def resolvedInputs (execution : Execution) (stepId : String) : List ArtifactRef :=
  match execution.plan.step stepId with
  | none => []
  | some step => step.inputs.filterMap fun
      | .step parent output =>
        (execution.step parent).bind fun produced => produced.outputs.find? (·.name == output)
      | .parameter _ => none

end Execution

/-- `empty` is a stream that has never been written to. -/
inductive ExecutionState where
  | empty
  | active (execution : Execution)

def ExecutionState.isActive : ExecutionState → Option Execution
  | .empty => none
  | .active execution => some execution

/-! ## Commands and events -/

/-- What somebody wants to happen. -/
inductive WorkflowCommand where
  | startExecution (executionId : String) (plan : ExecutionPlan) (owner : ExecutionOwner)
      (mode : ExecutionMode) (payloads : PayloadPolicy) (requestedBy : String)
      (input : BTreeMap String Value)
  | retryStep (stepId : String)
  | cancelExecution (reason : String)
  | pauseExecution
  | resumeExecution
  | provideInput (stepId : String) (attempt : UInt32) (answeredBy : String) (response : Value)
  | executeStep (stepId : String) (attempt : UInt32) (runtime : RuntimeKind)
      (idempotencyKey : String)
  | requestInput (stepId : String) (attempt : UInt32)
  | timeoutInput (stepId : String) (attempt : UInt32)

def WorkflowCommand.name : WorkflowCommand → String
  | .startExecution .. => "start_execution"
  | .retryStep .. => "retry_step"
  | .cancelExecution .. => "cancel_execution"
  | .pauseExecution => "pause_execution"
  | .resumeExecution => "resume_execution"
  | .provideInput .. => "provide_input"
  | .executeStep .. => "execute_step"
  | .requestInput .. => "request_input"
  | .timeoutInput .. => "timeout_input"

/-- What happened. -/
inductive WorkflowEvent where
  | executionRequested (executionId : String) (plan : ExecutionPlan) (owner : ExecutionOwner)
      (mode : ExecutionMode) (payloads : PayloadPolicy) (requestedBy : String)
      (input : BTreeMap String Value)
  | executionStarted
  | stepScheduled (stepId : String) (attempt : UInt32) (runtime : RuntimeKind)
      (cacheKey : Option String)
  | stepRetryScheduled (stepId : String) (attempt : UInt32) (notBefore : OffsetDateTime)
  | stepStarted (stepId : String) (attempt : UInt32)
  | stepCompleted (stepId : String) (attempt : UInt32) (outputs : List ArtifactRef)
      (result : Option Value)
  | stepFailed (stepId : String) (attempt : UInt32) (error : StepError)
  | stepCacheHit (stepId : String) (attempt : UInt32) (cacheKey : String)
      (outputs : List ArtifactRef)
  | stepSkipped (stepId : String) (reason : String)
  | inputRequested (stepId : String) (attempt : UInt32) (request : InputRequest)
  | inputProvided (stepId : String) (attempt : UInt32) (answeredBy : String) (response : Value)
  | executionPaused
  | executionResumed
  | executionCancelling (reason : String)
  | executionCancelled
  | executionCompleted
  | executionFailed (reason : String)

def WorkflowEvent.name : WorkflowEvent → String
  | .executionRequested .. => "execution_requested"
  | .executionStarted => "execution_started"
  | .stepScheduled .. => "step_scheduled"
  | .stepRetryScheduled .. => "step_retry_scheduled"
  | .stepStarted .. => "step_started"
  | .stepCompleted .. => "step_completed"
  | .stepFailed .. => "step_failed"
  | .stepCacheHit .. => "step_cache_hit"
  | .stepSkipped .. => "step_skipped"
  | .inputRequested .. => "input_requested"
  | .inputProvided .. => "input_provided"
  | .executionPaused => "execution_paused"
  | .executionResumed => "execution_resumed"
  | .executionCancelling .. => "execution_cancelling"
  | .executionCancelled => "execution_cancelled"
  | .executionCompleted => "execution_completed"
  | .executionFailed .. => "execution_failed"

/-! ## Messages -/

structure PayloadRef where
  reference : String
  digest : String
  size : Nat
  policy : PayloadPolicy

/-- A hosted decider's own message, as this engine holds it. -/
structure HostedMessage where
  messageType : String
  metadata : Value
  payload : Option PayloadRef

/-- One thing in the stream, whichever kind it is. -/
inductive WorkflowMessage where
  | command (command : WorkflowCommand)
  | event (event : WorkflowEvent)
  | hosted (message : HostedMessage)

namespace WorkflowMessage

def name : WorkflowMessage → String
  | .command c => c.name
  | .event e => e.name
  | .hosted m => m.messageType

/-- The fact a message carries, if it is one. -/
@[simp] def event? : WorkflowMessage → Option WorkflowEvent
  | .event e => some e
  | _ => none

end WorkflowMessage

/-- Everything about a message that is not what it says. -/
structure MessageMetadata where
  schemaVersion : UInt16
  messageId : String
  occurredAt : OffsetDateTime
  correlationId : String
  causationId : String
  stepId : Option String
  attempt : Option UInt32

inductive Direction where
  | input
  | output
  deriving DecidableEq, Repr

/-- A message on its way to the store, before it has a version. -/
structure PendingMessage where
  direction : Direction
  message : WorkflowMessage
  metadata : MessageMetadata

def schemaVersion : UInt16 := 1

/-! ## Refusals -/

/-- A command that does not apply to the state it was sent to. -/
inductive DecisionError where
  | notStarted (message : String)
  | alreadyStarted
  | alreadyFinished (state : StateType)
  | notPaused
  | cancelling
  | noSuchStep (step : String)
  | notRetryable (step : String) (state : StateType)
  | staleAttempt (step : String) (attempt current : UInt32)
  | notWaiting (step : String)
  | deadlinePassed (step : String)
  | notOneOfTheChoices (step : String) (choices : List String)
  | emptyPlan
  | cyclicPlan
  | unhandled (message : String)
  deriving DecidableEq, Repr

end Aiwatcher.Engine
