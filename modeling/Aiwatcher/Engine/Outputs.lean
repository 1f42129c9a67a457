import Aiwatcher.Engine.Decide

/-!
# Aiwatcher.Engine.Outputs

What each part of a decision says, read off the emitter: every helper of
`Aiwatcher.Engine.Decide` adds a list of messages that does not depend on what was
said before it.  `Decided` puts the lists together, one case for each way an input
is accepted, and `decideActive_decided` is the inversion every later module starts
from.
-/

namespace Aiwatcher.Engine

open List

/-! ## What was said -/

/-- What a decision says, without the metadata. -/
def contents (out : Decision) : List WorkflowMessage := out.map (·.message)

namespace Emitter

/-- What has been said so far. -/
def said (emit : Emitter) : List WorkflowMessage := contents emit.out

@[simp] theorem said_new (executionId cause : String) (now : OffsetDateTime) :
    (new executionId cause now).said = [] := rfl

@[simp] theorem said_aboutStep (emit : Emitter) (stepId : String) (attempt : UInt32) :
    (emit.aboutStep stepId attempt).said = emit.said := rfl

@[simp] theorem said_event (d : Digests) (emit : Emitter) (e : WorkflowEvent) :
    (emit.event d e).said = emit.said ++ [.event e] := by
  simp [said, contents, event, push]

@[simp] theorem said_command (d : Digests) (emit : Emitter) (c : WorkflowCommand) :
    (emit.command d c).said = emit.said ++ [.command c] := by
  simp [said, contents, command, push]

@[simp] theorem contents_intoMessages (emit : Emitter) :
    contents emit.intoMessages = emit.said := rfl

end Emitter

/-! ## Messages -/

variable (d : Digests)

/-- Dispatching one attempt of a planned step: the fact and its effect. -/
def attemptMessages (executionId stepId : String) (attempt : UInt32) (planStep : PlanStep)
    (cacheKey : Option String) (now : OffsetDateTime) : List WorkflowMessage :=
  .event (.stepScheduled stepId attempt planStep.runtime.kind cacheKey) ::
    match planStep.runtime.question with
    | some spec =>
      [.event (.inputRequested stepId attempt (spec.request now)),
        .command (.requestInput stepId attempt)]
    | none =>
      [.command (.executeStep stepId attempt planStep.runtime.kind
        (idempotencyKey executionId stepId attempt))]

def scheduleMessages (x : Execution) (stepId : String) (attempt : UInt32)
    (now : OffsetDateTime) : List WorkflowMessage :=
  match x.plan.step stepId with
  | none => []
  | some p => attemptMessages x.executionId stepId attempt p (scheduledCacheKey d x p stepId) now

/-- Whether this engine schedules for the run at all. -/
def Execution.dispatches (x : Execution) : Bool :=
  x.mode == .compiled && x.state.stateType != .paused && !x.cancelling

def dispatchMessages (x : Execution) (now : OffsetDateTime) : List WorkflowMessage :=
  if x.dispatches then
    (x.plan.ids.filter (isReady x)).flatMap fun id => scheduleMessages d x id 1 now
  else []

/-- A step as far as `skip_downstream` looks: whether it has ended. -/
def Execution.hasOpen (x : Execution) (stepId : String) : Bool :=
  (x.step stepId).any fun step => !step.state.stateType.isTerminal

def skipMessages (x : Execution) (stepId : String) : List WorkflowMessage :=
  (x.plan.descent stepId).flatMap fun found =>
    if x.hasOpen found.2 then [.event (.stepSkipped found.2 s!"{found.1} did not succeed")] else []

/-- The state a final failure is reasoned from. -/
def settledAt (x : Execution) (stepId : String) (attempt : UInt32) (error : StepError) :
    Execution :=
  (x.setAttemptState stepId attempt (.of error.failureClass.attemptState)).modifyStep stepId
    fun step => { step with state := .of error.failureClass.attemptState }

/-- How a run that cannot succeed any more ends. -/
def failureEnd (x : Execution) (stepId : String) (error : StepError) : WorkflowEvent :=
  if x.cancelling then .executionCancelled
  else .executionFailed s!"{stepId} failed: {error.message}"

def settleMessages (x : Execution) (stepId : String) (attempt : UInt32) (error : StepError) :
    List WorkflowMessage :=
  skipMessages (settledAt x stepId attempt error) stepId ++ [.event (failureEnd x stepId error)]

def cancelStepMessages (step : StepState) : List WorkflowMessage :=
  match step.state.stateType with
  | .scheduled | .pending =>
    [.event (.stepSkipped step.stepId "the execution was cancelled")]
  | _ => []

def cancelMessages (x : Execution) : List WorkflowMessage :=
  (BTreeMap.values x.steps).flatMap cancelStepMessages ++
    if (BTreeMap.values x.steps).any StepState.inFlight then [] else [.event .executionCancelled]

/-- The end of the run a completion brings, if it does. -/
def completionEnd (after : Execution) : List WorkflowMessage :=
  if after.cancelling then
    if (BTreeMap.values after.steps).all (fun step => step.state.stateType != .running) then
      [.event .executionCancelled]
    else []
  else if (BTreeMap.values after.steps).all (fun step => step.state.stateType == .completed) then
    [.event .executionCompleted]
  else []

def followMessages (x : Execution) (stepId : String) (now : OffsetDateTime) :
    List WorkflowMessage :=
  dispatchMessages d (completedAt x stepId) now ++ completionEnd (completedAt x stepId)

/-- The state an answer reaches. -/
def answeredAt (x : Execution) (stepId : String) (attempt : UInt32) (answeredBy : String)
    (response : Value) : Execution :=
  x.modifyStep stepId fun step =>
    { step with awaiting := none, answers := step.answers ++ [⟨attempt, answeredBy, response⟩] }

/-- What an answer causes beside being recorded. -/
def answerMessages (x : Execution) (stepId : String) (attempt : UInt32) (answeredBy : String)
    (response : Value) (now : OffsetDateTime) : List WorkflowMessage :=
  if x.plan.asksSomebody stepId then
    .event (.stepCompleted stepId attempt [] (some response)) :: followMessages d x stepId now
  else if x.mode == .hosted then []
  else scheduleMessages d (answeredAt x stepId attempt answeredBy response) stepId (attempt + 1) now

/-! ## The helpers say these messages -/

variable (x : Execution)

@[simp] theorem plan_modifyStep (id : String) (f : StepState → StepState) :
    (x.modifyStep id f).plan = x.plan := rfl

@[simp] theorem plan_completedAt (id : String) :
    (completedAt x id).plan = x.plan := rfl

@[simp] theorem cancelling_completedAt (id : String) :
    (completedAt x id).cancelling = x.cancelling := rfl

theorem said_scheduleAttempt (id : String) (attempt : UInt32) (emit : Emitter)
    (now : OffsetDateTime) :
    (scheduleAttempt d x id attempt emit now).said =
      emit.said ++ scheduleMessages d x id attempt now := by
  unfold scheduleAttempt scheduleMessages
  cases x.plan.step id with
  | none => simp
  | some p =>
    unfold attemptMessages
    cases hr : p.runtime <;> simp [hr, RuntimeBinding.question]

theorem said_dispatchReady (emit : Emitter) (now : OffsetDateTime) :
    (dispatchReady d x emit now).said = emit.said ++ dispatchMessages d x now := by
  have hloop : ∀ (steps : List PlanStep) (emit : Emitter),
      (steps.foldl (fun emit step =>
        if isReady x step.id then scheduleAttempt d x step.id 1 emit now else emit) emit).said =
      emit.said ++ ((steps.map (·.id)).filter (isReady x)).flatMap
        (fun id => scheduleMessages d x id 1 now) := by
    intro steps
    induction steps with
    | nil => simp
    | cons p ps ih =>
      intro emit
      rw [foldl_cons, ih, map_cons]
      by_cases hp : isReady x p.id = true
      · rw [if_pos hp, said_scheduleAttempt, filter_cons_of_pos hp, flatMap_cons, append_assoc]
      · rw [if_neg hp, filter_cons_of_neg hp]
  unfold dispatchReady dispatchMessages Execution.dispatches
  cases hm : x.mode with
  | hosted => simp
  | compiled =>
    cases hp : (x.state.stateType == .paused || x.cancelling) with
    | true =>
      have hno : (x.state.stateType != .paused && !x.cancelling) = false := by
        rw [bne, ← Bool.not_or, hp]
        rfl
      simp [hno]
    | false =>
      have hyes : (x.state.stateType != .paused && !x.cancelling) = true := by
        rw [bne, ← Bool.not_or, hp]
        rfl
      have hcompiled : (ExecutionMode.compiled == .hosted) = false := rfl
      simp only [hyes, hcompiled, beq_self_eq_true, Bool.true_and, Bool.false_eq_true, if_false,
        if_true]
      exact hloop x.plan.steps emit

theorem said_skipDownstream (id : String) (emit : Emitter) :
    (skipDownstream d x id emit).said = emit.said ++ skipMessages x id := by
  have hloop : ∀ (found : List (String × String)) (emit : Emitter),
      (found.foldl (fun emit p => skipChild d x emit p.1 p.2) emit).said =
      emit.said ++ found.flatMap (fun found =>
        if x.hasOpen found.2 then
          [.event (.stepSkipped found.2 s!"{found.1} did not succeed")] else []) := by
    intro found
    induction found with
    | nil => simp
    | cons p ps ih =>
      intro emit
      rw [foldl_cons, ih, flatMap_cons, ← append_assoc]
      congr 1
      unfold skipChild Execution.hasOpen
      split <;> simp
  rw [skipDownstream, Library.Worklist.explore_eq_foldl]
  exact hloop _ emit

theorem said_settleFailure (id : String) (attempt : UInt32) (error : StepError) (emit : Emitter) :
    (settleFailure d x id attempt error emit).said =
      emit.said ++ settleMessages x id attempt error := by
  unfold settleFailure settleMessages failureEnd
  split <;> simp only [Emitter.said_event, said_skipDownstream, append_assoc] <;> rfl

theorem said_continueAfter (id : String) (emit : Emitter) (now : OffsetDateTime) :
    (continueAfter d x id emit now).said = emit.said ++ followMessages d x id now := by
  unfold continueAfter followMessages completionEnd
  cases hc : x.cancelling with
  | true =>
    have hnone : dispatchMessages d (completedAt x id) now = [] := by
      simp [dispatchMessages, Execution.dispatches, hc]
    simp only [cancelling_completedAt, hc, if_true, hnone, nil_append]
    split <;> simp
  | false =>
    simp only [cancelling_completedAt, hc, Bool.false_eq_true, if_false]
    split <;> simp [said_dispatchReady]

theorem said_answerLands (id : String) (attempt : UInt32) (by' : String) (response : Value)
    (emit : Emitter) (now : OffsetDateTime) :
    (answerLands d x id attempt by' response emit now).said =
      emit.said ++ .event (.inputProvided id attempt by' response) ::
        answerMessages d x id attempt by' response now := by
  unfold answerLands answerMessages
  split
  · simp [said_continueAfter]
  · split
    · simp
    · simp [said_scheduleAttempt, answeredAt]

theorem said_cancelStep (emit : Emitter) (step : StepState) :
    (cancelStep d emit step).said = emit.said ++ cancelStepMessages step := by
  unfold cancelStep cancelStepMessages
  cases step.state.stateType <;> simp

theorem said_foldl_cancelStep (steps : List StepState) (emit : Emitter) :
    (steps.foldl (cancelStep d) emit).said = emit.said ++ steps.flatMap cancelStepMessages := by
  induction steps generalizing emit with
  | nil => simp
  | cons s ss ih => rw [foldl_cons, ih, said_cancelStep, flatMap_cons, append_assoc]

end Aiwatcher.Engine
