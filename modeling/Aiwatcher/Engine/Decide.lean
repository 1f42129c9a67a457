import Aiwatcher.Engine.State

/-!
# Aiwatcher.Engine.Decide

The fold of the decider (`decide.rs`): what each recorded fact makes of the
state.  `evolve` never fails, and ignores what it does not recognise.

The pure decision (`decide.rs`): from a state, one input, its id and the clock to
the messages it causes, or a refusal.
-/

namespace Aiwatcher.Engine

/-- A stream nobody has written to. -/
def initialState : ExecutionState := .empty

/-- The steps of a run nobody has scheduled anything in. -/
def freshSteps (plan : ExecutionPlan) : BTreeMap String StepState :=
  plan.steps.foldl (fun steps step => steps.insert step.id (.fresh step.id step.runtime.kind)) ∅

/-- A new attempt: the step points at it, and its record is added. -/
def StepState.pushAttempt (step : StepState) (attempt : UInt32) (state : RunState)
    (notBefore : Option OffsetDateTime) : StepState :=
  { step with
    state := state
    currentAttempt := attempt
    attempts := step.attempts ++ [⟨attempt, state, none, notBefore⟩] }

/-- What one fact makes of the step it is about. -/
def StepState.apply (step : StepState) : WorkflowEvent → StepState
  | .stepScheduled _ attempt _ cacheKey =>
    { step.pushAttempt attempt (.of .pending) none with cacheKey := cacheKey }
  | .stepRetryScheduled _ attempt notBefore =>
    step.pushAttempt attempt (.named .pending "AwaitingRetry") (some notBefore)
  | .stepStarted _ attempt =>
    { step with
      state := .of .running
      attempts := updateAttempt attempt (fun r => { r with state := .of .running })
        step.attempts }
  | .stepCompleted _ attempt outputs _ =>
    { step with
      state := .of .completed
      outputs := outputs
      awaiting := none
      attempts := updateAttempt attempt (fun r => { r with state := .of .completed })
        step.attempts }
  | .stepCacheHit _ attempt cacheKey outputs =>
    { step with
      state := .named .completed "Cached"
      cacheKey := some cacheKey
      outputs := outputs
      attempts := updateAttempt attempt (fun r => { r with state := .named .completed "Cached" })
        step.attempts }
  | .stepFailed _ attempt error =>
    { step with
      state := .of error.failureClass.attemptState
      awaiting := none
      attempts := updateAttempt attempt
        (fun r => { r with state := .of error.failureClass.attemptState, error := some error })
        step.attempts }
  | .stepSkipped _ reason => { step with state := .named .cancelled reason }
  | .inputRequested _ attempt request =>
    { step with
      state := .of .awaitingInput
      awaiting := some request
      attempts := updateAttempt attempt (fun r => { r with state := .of .awaitingInput })
        step.attempts }
  | .inputProvided _ attempt answeredBy response =>
    { step with
      awaiting := none
      answers := step.answers ++ [⟨attempt, answeredBy, response⟩] }
  | _ => step

/-- The step a fact is about. -/
def WorkflowEvent.stepId? : WorkflowEvent → Option String
  | .stepScheduled id .. | .stepRetryScheduled id .. | .stepStarted id _ | .stepCompleted id ..
  | .stepFailed id .. | .stepCacheHit id .. | .stepSkipped id _ | .inputRequested id ..
  | .inputProvided id .. => some id
  | _ => none

/-- Fold one fact into a run that exists. -/
def apply (execution : Execution) (event : WorkflowEvent) : Execution :=
  match event with
  | .executionStarted => { execution with state := .of .running }
  | .executionPaused => { execution with state := .of .paused }
  | .executionResumed => { execution with state := .of .running }
  | .executionCancelling _ => { execution with cancelling := true, state := .cancelling }
  | .executionCancelled => { execution with state := .of .cancelled }
  | .executionCompleted => { execution with state := .of .completed }
  | .executionFailed reason => { execution with state := .named .failed reason }
  | event =>
    match event.stepId? with
    | some stepId => execution.modifyStep stepId fun step => step.apply event
    | none => execution

/-- Fold one fact into the state. -/
def evolve (state : ExecutionState) (event : WorkflowEvent) : ExecutionState :=
  match state with
  | .empty =>
    match event with
    | .executionRequested executionId plan owner mode payloads requestedBy input =>
      .active {
        executionId := executionId
        plan := plan
        owner := owner
        mode := mode
        payloads := payloads
        requestedBy := requestedBy
        input := input
        state := .named .scheduled "Queued"
        steps := freshSteps plan
        cancelling := false
        createdAt := OffsetDateTime.unixEpoch }
    | _ => .empty
  | .active execution => .active (apply execution event)

/-- Fold a whole stream. -/
def replay (events : List WorkflowEvent) : ExecutionState := events.foldl evolve initialState

/-- What a decision is given: ids derived from what they name, and cache keys. -/
structure Digests where
  deriveUuid : String → String
  cacheKey : PlanStep → List ArtifactRef → Option String

abbrev Decision := List PendingMessage

/-! ## The emitter -/

/-- A decision's outputs so far, each with metadata derived from what it is. -/
structure Emitter where
  executionId : String
  cause : String
  now : OffsetDateTime
  step : Option (String × UInt32)
  out : List PendingMessage

namespace Emitter

def new (executionId cause : String) (now : OffsetDateTime) : Emitter :=
  ⟨executionId, cause, now, none, []⟩

def aboutStep (emit : Emitter) (stepId : String) (attempt : UInt32) : Emitter :=
  { emit with step := some (stepId, attempt) }

def push (d : Digests) (emit : Emitter) (name : String) (message : WorkflowMessage) : Emitter :=
  let ordinal := emit.out.length
  let messageId := d.deriveUuid
    s!"aiwatcher/execution/{emit.executionId}/{emit.cause}/{name}/{ordinal}"
  let metadata : MessageMetadata := {
    schemaVersion := schemaVersion
    messageId := messageId
    occurredAt := emit.now
    correlationId := emit.executionId
    causationId := emit.cause
    stepId := emit.step.map Prod.fst
    attempt := emit.step.map Prod.snd }
  { emit with out := emit.out ++ [⟨.output, message, metadata⟩] }

def event (d : Digests) (emit : Emitter) (event : WorkflowEvent) : Emitter :=
  emit.push d event.name (.event event)

def command (d : Digests) (emit : Emitter) (command : WorkflowCommand) : Emitter :=
  emit.push d command.name (.command command)

def intoMessages (emit : Emitter) : Decision := emit.out

end Emitter

/-! ## What follows from a fact -/

/-- Who a lapsed deadline records as the answerer. -/
def answeredByTimeout : String := "aiwatcher/timeout"

/-- The stable key a reactor asks a runtime by. -/
def idempotencyKey (executionId stepId : String) (attempt : UInt32) : String :=
  s!"{executionId}/{stepId}/{attempt.toNat}"

def stepOf (execution : Execution) (stepId : String) : Except DecisionError StepState :=
  match execution.step stepId with
  | some step => .ok step
  | none => .error (.noSuchStep stepId)

variable (d : Digests)

/-- One child below `current`: skipped where it has not ended. -/
def skipChild (execution : Execution) (emit : Emitter) (current child : String) : Emitter :=
  if (execution.step child).any (fun step => !step.state.stateType.isTerminal) then
    emit.event d (.stepSkipped child s!"{current} did not succeed")
  else emit

/-- Everything reachable from `stepId` will not run, and says so once each. -/
def skipDownstream (execution : Execution) (stepId : String) (emit : Emitter) : Emitter :=
  -- every push is a target of some edge, so one round an edge and one for `stepId` is enough
  Library.Worklist.explore execution.plan.childrenOf (skipChild d execution)
    (execution.plan.edges.length + 1) [stepId] [] emit

/-- A step that has failed for the last time, and everything that follows. -/
def settleFailure (execution : Execution) (stepId : String) (attempt : UInt32) (error : StepError)
    (emit : Emitter) : Emitter :=
  let state := RunState.of error.failureClass.attemptState
  let settled := (execution.setAttemptState stepId attempt state).modifyStep stepId
    fun step => { step with state := state }
  let emit := skipDownstream d settled stepId emit
  if execution.cancelling then
    emit.event d .executionCancelled
  else
    emit.event d (.executionFailed s!"{stepId} failed: {error.message}")

/-- The question a `HumanInput` step asks when it is scheduled. -/
def HumanInputSpec.request (spec : HumanInputSpec) (now : OffsetDateTime) : InputRequest where
  prompt := spec.prompt
  role := spec.role
  choices := spec.choices
  deadline := spec.timeoutSeconds.map fun seconds => now + Duration.seconds seconds.toInt64.toInt
  onTimeout := some spec.onTimeout

/-- The key a step's result is kept under, unless somebody answered it. -/
def scheduledCacheKey (execution : Execution) (planStep : PlanStep) (stepId : String) :
    Option String :=
  if (execution.step stepId).all (·.answers.isEmpty) then
    d.cacheKey planStep (execution.resolvedInputs stepId)
  else none

/-- One step, one attempt: the fact, then the effect that carries it out. -/
def scheduleAttempt (execution : Execution) (stepId : String) (attempt : UInt32) (emit : Emitter)
    (now : OffsetDateTime) : Emitter :=
  match execution.plan.step stepId with
  | none => emit
  | some planStep =>
    let emit := (emit.aboutStep stepId attempt).event d
      (.stepScheduled stepId attempt planStep.runtime.kind
        (scheduledCacheKey d execution planStep stepId))
    match planStep.runtime with
    | .humanInput spec =>
      (emit.event d (.inputRequested stepId attempt (spec.request now))).command d
        (.requestInput stepId attempt)
    | _ =>
      emit.command d (.executeStep stepId attempt planStep.runtime.kind
        (idempotencyKey execution.executionId stepId attempt))

/-- Whether a step nobody has scheduled may be: all its parents have completed. -/
def isReady (execution : Execution) (stepId : String) : Bool :=
  (execution.step stepId).any (fun current => current.state.stateType == .scheduled) &&
    (execution.plan.parentsOf stepId).all fun parent =>
      (execution.step parent).any (fun s => s.state.stateType == .completed)

/-- Schedule every step whose parents have all completed and which has not been
scheduled yet. -/
def dispatchReady (execution : Execution) (emit : Emitter) (now : OffsetDateTime) : Emitter :=
  if execution.mode == .hosted then emit
  else if execution.state.stateType == .paused || execution.cancelling then emit
  else
    execution.plan.steps.foldl (fun emit step =>
      if isReady execution step.id then scheduleAttempt d execution step.id 1 emit now else emit)
      emit

/-- The state a completing step leaves, as far as what follows it is concerned. -/
def completedAt (execution : Execution) (stepId : String) : Execution :=
  execution.modifyStep stepId fun step => { step with state := .of .completed, awaiting := none }

/-- What follows a step completing: its children, or the end of the run. -/
def continueAfter (execution : Execution) (stepId : String) (emit : Emitter)
    (now : OffsetDateTime) : Emitter :=
  let after := completedAt execution stepId
  if after.cancelling then
    if (BTreeMap.values after.steps).all (fun step => step.state.stateType != .running) then
      emit.event d .executionCancelled
    else emit
  else
    let emit := dispatchReady d after emit now
    if (BTreeMap.values after.steps).all (fun step => step.state.stateType == .completed) then
      emit.event d .executionCompleted
    else emit

/-- Record an answer, and do whatever that step's kind says an answer does. -/
def answerLands (execution : Execution) (stepId : String) (attempt : UInt32) (answeredBy : String)
    (response : Value) (emit : Emitter) (now : OffsetDateTime) : Emitter :=
  let emit := emit.event d (.inputProvided stepId attempt answeredBy response)
  if execution.plan.asksSomebody stepId then
    continueAfter d execution stepId
      (emit.event d (.stepCompleted stepId attempt [] (some response))) now
  else if execution.mode == .hosted then emit
  else
    -- scheduled from the state the answer reaches, so the new attempt reads it
    let resumed := execution.modifyStep stepId fun step =>
      { step with awaiting := none, answers := step.answers ++ [⟨attempt, answeredBy, response⟩] }
    scheduleAttempt d resumed stepId (attempt + 1) emit now

/-! ## One decision for each input -/

def decidePause (execution : Execution) (emit : Emitter) : Except DecisionError Decision :=
  if execution.state.stateType.isTerminal then
    .error (.alreadyFinished execution.state.stateType)
  else if execution.state.stateType == .paused then .ok []
  else .ok (emit.event d .executionPaused).intoMessages

def decideResume (execution : Execution) (emit : Emitter) (now : OffsetDateTime) :
    Except DecisionError Decision :=
  if execution.state.stateType != .paused then .error .notPaused
  else
    let resumed := { execution with state := .of .running }
    .ok (dispatchReady d resumed (emit.event d .executionResumed) now).intoMessages

/-- What a cancel does to one step: what has not started is skipped. -/
def cancelStep (emit : Emitter) (step : StepState) : Emitter :=
  match step.state.stateType with
  | .scheduled | .pending =>
    emit.event d (.stepSkipped step.stepId "the execution was cancelled")
  | _ => emit

/-- Whether a cancel has to wait for this step to stop. -/
def StepState.inFlight (step : StepState) : Bool :=
  match step.state.stateType with
  | .running | .awaitingInput => true
  | _ => false

def decideCancel (execution : Execution) (reason : String) (emit : Emitter) :
    Except DecisionError Decision :=
  if execution.state.stateType.isTerminal then
    .error (.alreadyFinished execution.state.stateType)
  else if execution.cancelling then .ok []
  else
    let emit := emit.event d (.executionCancelling reason)
    let steps := BTreeMap.values execution.steps
    let emit := steps.foldl (cancelStep d) emit
    let emit := if steps.any StepState.inFlight then emit else emit.event d .executionCancelled
    .ok emit.intoMessages

def decideRetryStep (execution : Execution) (stepId : String) (emit : Emitter)
    (now : OffsetDateTime) : Except DecisionError Decision := do
  let step ← stepOf execution stepId
  if !(step.state.stateType == .failed || step.state.stateType == .crashed) then
    .error (.notRetryable stepId step.state.stateType)
  else if execution.cancelling then .error .cancelling
  else
    .ok (scheduleAttempt d execution stepId (step.currentAttempt + 1) emit now).intoMessages

/-- Whether an answer is one the question allows. -/
def InputRequest.allows (request : InputRequest) (response : Value) : Bool :=
  request.choices.isEmpty || response.asStr.any (fun value => request.choices.contains value)

def decideProvideInput (execution : Execution) (stepId : String) (attempt : UInt32)
    (answeredBy : String) (response : Value) (emit : Emitter) (now : OffsetDateTime) :
    Except DecisionError Decision := do
  let step ← stepOf execution stepId
  match step.awaiting with
  | none => .error (.notWaiting stepId)
  | some request =>
    if step.currentAttempt != attempt then
      .error (.staleAttempt stepId attempt step.currentAttempt)
    else if request.deadline.any (fun deadline => Decidable.decide (deadline < now)) then
      .error (.deadlinePassed stepId)
    else if !request.allows response then
      .error (.notOneOfTheChoices stepId request.choices)
    else
      .ok (answerLands d execution stepId attempt answeredBy response
        (emit.aboutStep stepId attempt) now).intoMessages

/-- What happens to a question nobody answers: its own policy, or the plan's for a
question recorded without one. -/
def timeoutPolicy (execution : Execution) (stepId : String) (request : InputRequest) :
    Option OnTimeout :=
  request.onTimeout.or <|
    match (execution.plan.step stepId).map PlanStep.runtime with
    | some (.humanInput spec) => some spec.onTimeout
    | _ => none

/-- The failure of a question nobody answered. -/
def lapsedError (stepId : String) : StepError :=
  ⟨.policy, s!"nobody answered {stepId} before its deadline"⟩

def decideTimeoutInput (execution : Execution) (stepId : String) (attempt : UInt32)
    (emit : Emitter) (now : OffsetDateTime) : Except DecisionError Decision := do
  let step ← stepOf execution stepId
  match step.awaiting with
  | none => .error (.notWaiting stepId)
  | some request =>
    if step.currentAttempt != attempt then
      .error (.staleAttempt stepId attempt step.currentAttempt)
    else
      let emit := emit.aboutStep stepId attempt
      match timeoutPolicy execution stepId request with
      | none => .error (.noSuchStep stepId)
      | some .fail =>
        let error := lapsedError stepId
        .ok (settleFailure d execution stepId attempt error
          (emit.event d (.stepFailed stepId attempt error))).intoMessages
      | some .skip =>
        .ok (continueAfter d execution stepId
          (emit.event d (.stepCompleted stepId attempt [] none)) now).intoMessages
      | some (.answer response) =>
        .ok (answerLands d execution stepId attempt answeredByTimeout response emit
          now).intoMessages

def decideStepStarted (execution : Execution) (stepId : String) (attempt : UInt32)
    (emit : Emitter) : Except DecisionError Decision := do
  let step ← stepOf execution stepId
  if step.currentAttempt != attempt then
    .error (.staleAttempt stepId attempt step.currentAttempt)
  else
    .ok ((emit.aboutStep stepId attempt).event d (.stepStarted stepId attempt)).intoMessages

def decideInputRequested (execution : Execution) (stepId : String) (attempt : UInt32)
    (request : InputRequest) (emit : Emitter) : Except DecisionError Decision := do
  let step ← stepOf execution stepId
  if step.currentAttempt != attempt then
    .error (.staleAttempt stepId attempt step.currentAttempt)
  else if step.state.stateType.isTerminal then
    .error (.notRetryable stepId step.state.stateType)
  else
    .ok ((emit.aboutStep stepId attempt).event d
      (.inputRequested stepId attempt request)).intoMessages

def decideStepCacheHit (execution : Execution) (stepId : String) (attempt : UInt32)
    (cacheKey : String) (outputs : List ArtifactRef) (emit : Emitter) (now : OffsetDateTime) :
    Except DecisionError Decision := do
  let step ← stepOf execution stepId
  if step.state.stateType == .completed then .ok []
  else if step.currentAttempt != attempt then
    .error (.staleAttempt stepId attempt step.currentAttempt)
  else
    .ok (continueAfter d execution stepId ((emit.aboutStep stepId attempt).event d
      (.stepCacheHit stepId attempt cacheKey outputs)) now).intoMessages

def decideStepCompleted (execution : Execution) (stepId : String) (attempt : UInt32)
    (outputs : List ArtifactRef) (result : Option Value) (emit : Emitter) (now : OffsetDateTime) :
    Except DecisionError Decision := do
  let step ← stepOf execution stepId
  if step.state.stateType == .completed then .ok []
  else if step.currentAttempt != attempt then
    .error (.staleAttempt stepId attempt step.currentAttempt)
  else
    .ok (continueAfter d execution stepId ((emit.aboutStep stepId attempt).event d
      (.stepCompleted stepId attempt outputs result)) now).intoMessages

/-- How many attempts a step has spent with this one: those that failed the same
way. -/
def attemptsSpent (step : StepState) (error : StepError) : UInt32 :=
  1 + UInt32.ofNat ((step.attempts.filterMap AttemptRecord.error).countP fun failed =>
    failed.failureClass.mayHaveRun == error.failureClass.mayHaveRun)

/-- Whether a failure is followed by another attempt. -/
def mayRetry (execution : Execution) (planStep : PlanStep) (step : StepState)
    (error : StepError) : Bool :=
  let budget := if error.failureClass.mayHaveRun then planStep.retry.maxAttempts
    else planStep.retry.maxUnavailableAttempts
  error.failureClass.isRetryable && Decidable.decide (attemptsSpent step error < budget) &&
    !execution.cancelling

def decideStepFailed (execution : Execution) (stepId : String) (attempt : UInt32)
    (error : StepError) (emit : Emitter) (now : OffsetDateTime) :
    Except DecisionError Decision := do
  let step ← stepOf execution stepId
  if step.state.stateType.isTerminal && step.currentAttempt != attempt then
    .error (.staleAttempt stepId attempt step.currentAttempt)
  else
    match execution.plan.step stepId with
    | none => .error (.noSuchStep stepId)
    | some planStep =>
      let emit := (emit.aboutStep stepId attempt).event d (.stepFailed stepId attempt error)
      let next := attempt + 1
      if mayRetry execution planStep step error then
        let delay := planStep.retry.delayBefore next (!error.failureClass.mayHaveRun)
        let emit := emit.event d
          (.stepRetryScheduled stepId next (now + Duration.ofSecsOrZero delay))
        .ok (emit.command d (.executeStep stepId next planStep.runtime.kind
          (idempotencyKey execution.executionId stepId next))).intoMessages
      else
        .ok (settleFailure d execution stepId attempt error emit).intoMessages

def decideActive (execution : Execution) (input : WorkflowMessage) (cause : String)
    (now : OffsetDateTime) : Except DecisionError Decision :=
  let emit := Emitter.new execution.executionId cause now
  match input with
  | .command (.startExecution ..) => .error .alreadyStarted
  | .command .pauseExecution => decidePause d execution emit
  | .command .resumeExecution => decideResume d execution emit now
  | .command (.cancelExecution reason) => decideCancel d execution reason emit
  | .command (.retryStep stepId) => decideRetryStep d execution stepId emit now
  | .command (.provideInput stepId attempt answeredBy response) =>
    decideProvideInput d execution stepId attempt answeredBy response emit now
  | .command (.timeoutInput stepId attempt) =>
    decideTimeoutInput d execution stepId attempt emit now
  | .event (.stepStarted stepId attempt) => decideStepStarted d execution stepId attempt emit
  | .event (.inputRequested stepId attempt request) =>
    decideInputRequested d execution stepId attempt request emit
  | .event (.stepCacheHit stepId attempt cacheKey outputs) =>
    decideStepCacheHit d execution stepId attempt cacheKey outputs emit now
  | .event (.stepCompleted stepId attempt outputs result) =>
    decideStepCompleted d execution stepId attempt outputs result emit now
  | .event (.stepFailed stepId attempt error) =>
    decideStepFailed d execution stepId attempt error emit now
  | other => .error (.unhandled other.name)

/-- Decide what one input means. -/
def decide (state : ExecutionState) (input : WorkflowMessage) (cause : String)
    (now : OffsetDateTime) : Except DecisionError Decision :=
  match state, input with
  | .empty, .command (.startExecution executionId plan owner mode payloads requestedBy values) =>
    if plan.steps.isEmpty then .error .emptyPlan
    else if !plan.isAcyclic then .error .cyclicPlan
    else
      let requested :=
        .executionRequested executionId plan owner mode payloads requestedBy values
      let emit := ((Emitter.new executionId cause now).event d requested).event d
        .executionStarted
      let started := evolve (evolve initialState requested) .executionStarted
      match started.isActive with
      | some execution => .ok (dispatchReady d execution emit now).intoMessages
      | none => .ok emit.intoMessages
  | .empty, message => .error (.notStarted message.name)
  | .active execution, message => decideActive d execution message cause now

end Aiwatcher.Engine
