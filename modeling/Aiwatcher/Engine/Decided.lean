import Aiwatcher.Engine.Outputs

/-!
# Aiwatcher.Engine.Decided

The inversion of the decider: `Decided` has one case for each way an input is
accepted by a run that exists, with everything the arm checked and everything it
says.  The modules above reason by cases on it and never unfold `decideActive`.
-/

namespace Aiwatcher.Engine

open Emitter

/-! ## What an input means to a step -/

/-- An input that answers the question a step has open. -/
inductive Answers (x : Execution) (now : OffsetDateTime) (id : String) (s : StepState) :
    WorkflowMessage → String → Value → Prop where
  | provided {request : InputRequest} {answeredBy : String} {response : Value}
      (hopen : s.awaiting = some request)
      (hdue : (request.deadline.any fun deadline => Decidable.decide (deadline < now)) = false)
      (hallows : request.allows response = true) :
      Answers x now id s (.command (.provideInput id s.currentAttempt answeredBy response))
        answeredBy response
  | lapsed {request : InputRequest} {response : Value} (hopen : s.awaiting = some request)
      (hpolicy : timeoutPolicy x id request = some (.answer response)) :
      Answers x now id s (.command (.timeoutInput id s.currentAttempt)) answeredByTimeout response

/-- An input that ends a step well, and the fact that records it. -/
inductive Finishes (x : Execution) (id : String) (s : StepState) :
    WorkflowMessage → WorkflowEvent → Prop where
  | completed {outputs : List ArtifactRef} {result : Option Value}
      (hopen : s.state.stateType ≠ .completed) :
      Finishes x id s (.event (.stepCompleted id s.currentAttempt outputs result))
        (.stepCompleted id s.currentAttempt outputs result)
  | cacheHit {cacheKey : String} {outputs : List ArtifactRef}
      (hopen : s.state.stateType ≠ .completed) :
      Finishes x id s (.event (.stepCacheHit id s.currentAttempt cacheKey outputs))
        (.stepCacheHit id s.currentAttempt cacheKey outputs)
  | skipped {request : InputRequest} (hopen : s.awaiting = some request)
      (hpolicy : timeoutPolicy x id request = some .skip) :
      Finishes x id s (.command (.timeoutInput id s.currentAttempt))
        (.stepCompleted id s.currentAttempt [] none)

/-- An input that fails a step for the last time. -/
inductive Fails (x : Execution) (id : String) (s : StepState) :
    WorkflowMessage → UInt32 → StepError → Prop where
  | reported {p : PlanStep} {attempt : UInt32} {error : StepError}
      (hp : x.plan.step id = some p)
      (hcurrent : s.state.stateType.isTerminal = true → s.currentAttempt = attempt)
      (hspent : mayRetry x p s error = false) :
      Fails x id s (.event (.stepFailed id attempt error)) attempt error
  | lapsed {request : InputRequest} (hopen : s.awaiting = some request)
      (hpolicy : timeoutPolicy x id request = some .fail) :
      Fails x id s (.command (.timeoutInput id s.currentAttempt)) s.currentAttempt (lapsedError id)

/-- The step an input reports completed. -/
def WorkflowMessage.completes? : WorkflowMessage → Option String
  | .event (.stepCompleted id ..) | .event (.stepCacheHit id ..) => some id
  | _ => none

/-- What a retried failure says: the failure, the next attempt, and its effect. -/
def retryMessages (x : Execution) (p : PlanStep) (id : String) (attempt : UInt32)
    (error : StepError) (now : OffsetDateTime) : List WorkflowMessage :=
  let delay := p.retry.delayBefore (attempt + 1) (!error.failureClass.mayHaveRun)
  [.event (.stepFailed id attempt error),
    .event (.stepRetryScheduled id (attempt + 1) (now + Duration.ofSecsOrZero delay)),
    .command (.executeStep id (attempt + 1) p.runtime.kind
      (idempotencyKey x.executionId id (attempt + 1)))]

/-! ## Every way to accept -/

/-- The inputs a run accepts, and what each one makes it say. -/
inductive Decided (d : Digests) (x : Execution) (now : OffsetDateTime) :
    WorkflowMessage → List WorkflowMessage → Prop where
  | pausedAlready (h : x.state.stateType = .paused) :
      Decided d x now (.command .pauseExecution) []
  | paused (hopen : x.state.stateType.isTerminal = false) (h : x.state.stateType ≠ .paused) :
      Decided d x now (.command .pauseExecution) [.event .executionPaused]
  | resumed (h : x.state.stateType = .paused) :
      Decided d x now (.command .resumeExecution)
        (.event .executionResumed :: dispatchMessages d { x with state := .of .running } now)
  | cancellingAlready {reason : String} (hopen : x.state.stateType.isTerminal = false)
      (h : x.cancelling = true) :
      Decided d x now (.command (.cancelExecution reason)) []
  | cancelled {reason : String} (hopen : x.state.stateType.isTerminal = false)
      (h : x.cancelling = false) :
      Decided d x now (.command (.cancelExecution reason))
        (.event (.executionCancelling reason) :: cancelMessages x)
  | retried {id : String} {s : StepState} (hs : x.step id = some s)
      (hfailed : s.state.stateType = .failed ∨ s.state.stateType = .crashed)
      (hc : x.cancelling = false) :
      Decided d x now (.command (.retryStep id))
        (scheduleMessages d x id (s.currentAttempt + 1) now)
  | answered {input : WorkflowMessage} {id answeredBy : String} {s : StepState} {response : Value}
      (hs : x.step id = some s) (h : Answers x now id s input answeredBy response) :
      Decided d x now input
        (.event (.inputProvided id s.currentAttempt answeredBy response) ::
          answerMessages d x id s.currentAttempt answeredBy response now)
  | started {id : String} {s : StepState} (hs : x.step id = some s) :
      Decided d x now (.event (.stepStarted id s.currentAttempt))
        [.event (.stepStarted id s.currentAttempt)]
  | asked {id : String} {s : StepState} {request : InputRequest} (hs : x.step id = some s)
      (hopen : s.state.stateType.isTerminal = false) :
      Decided d x now (.event (.inputRequested id s.currentAttempt request))
        [.event (.inputRequested id s.currentAttempt request)]
  | repeated {input : WorkflowMessage} {id : String} {s : StepState} (hs : x.step id = some s)
      (h : input.completes? = some id) (hdone : s.state.stateType = .completed) :
      Decided d x now input []
  | finished {input : WorkflowMessage} {id : String} {s : StepState} {event : WorkflowEvent}
      (hs : x.step id = some s) (h : Finishes x id s input event) :
      Decided d x now input (.event event :: followMessages d x id now)
  | failedRetrying {id : String} {s : StepState} {p : PlanStep} {attempt : UInt32}
      {error : StepError} (hs : x.step id = some s) (hp : x.plan.step id = some p)
      (hcurrent : s.state.stateType.isTerminal = true → s.currentAttempt = attempt)
      (hretry : mayRetry x p s error = true) :
      Decided d x now (.event (.stepFailed id attempt error))
        (retryMessages x p id attempt error now)
  | failed {input : WorkflowMessage} {id : String} {s : StepState} {attempt : UInt32}
      {error : StepError} (hs : x.step id = some s) (h : Fails x id s input attempt error) :
      Decided d x now input
        (.event (.stepFailed id attempt error) :: settleMessages x id attempt error)

theorem stepOf_bind_ok {α : Type} {x : Execution} {id : String}
    {f : StepState → Except DecisionError α} {r : α} (h : (stepOf x id >>= f) = .ok r) :
    ∃ s, x.step id = some s ∧ f s = .ok r := by
  unfold stepOf at h
  cases hs : x.step id with
  | none => rw [hs] at h; cases h
  | some s => rw [hs] at h; exact ⟨s, rfl, h⟩

section arms

variable {d : Digests} {x : Execution} {emit : Emitter} {now : OffsetDateTime} {id : String}
  {attempt : UInt32} {out : Decision}

section

variable (hemit : emit.said = [])

include hemit

theorem decidePause_decided (h : decidePause d x emit = .ok out) :
    Decided d x now (.command .pauseExecution) (contents out) := by
  unfold decidePause at h
  split at h
  · cases h
  · rename_i hopen
    split at h
    · rename_i hp
      cases h
      exact .pausedAlready (by simpa using hp)
    · rename_i hp
      cases h
      rw [contents_intoMessages, said_event, hemit]
      exact .paused (by simpa using hopen) (by simpa using hp)

theorem decideResume_decided (h : decideResume d x emit now = .ok out) :
    Decided d x now (.command .resumeExecution) (contents out) := by
  unfold decideResume at h
  split at h
  · cases h
  · rename_i hp
    cases h
    rw [contents_intoMessages, said_dispatchReady, said_event, hemit]
    exact .resumed (by simpa using hp)

theorem decideCancel_decided {reason : String} (h : decideCancel d x reason emit = .ok out) :
    Decided d x now (.command (.cancelExecution reason)) (contents out) := by
  unfold decideCancel at h
  split at h
  · cases h
  · rename_i hopen
    split at h
    · rename_i hc
      cases h
      exact .cancellingAlready (by simpa using hopen) hc
    · rename_i hc
      cases h
      have hcontents : ∀ e : Emitter,
          contents (if (BTreeMap.values x.steps).any StepState.inFlight then e
            else e.event d .executionCancelled).intoMessages =
          e.said ++ if (BTreeMap.values x.steps).any StepState.inFlight then []
            else [.event .executionCancelled] := by
        intro e
        split <;> simp
      rw [hcontents, said_foldl_cancelStep, said_event, hemit, List.append_assoc]
      exact .cancelled (by simpa using hopen) (by simpa using hc)

theorem decideRetryStep_decided (h : decideRetryStep d x id emit now = .ok out) :
    Decided d x now (.command (.retryStep id)) (contents out) := by
  obtain ⟨s, hs, h⟩ := stepOf_bind_ok h
  split at h
  · cases h
  · rename_i hfailed
    split at h
    · cases h
    · rename_i hc
      cases h
      rw [contents_intoMessages, said_scheduleAttempt, hemit]
      have hended : s.state.stateType = .failed ∨ s.state.stateType = .crashed := by
        rw [Bool.not_eq_true', Bool.not_eq_false, Bool.or_eq_true] at hfailed
        simpa using hfailed
      exact .retried hs hended (by simpa using hc)

theorem decideProvideInput_decided {answeredBy : String} {response : Value}
    (h : decideProvideInput d x id attempt answeredBy response emit now = .ok out) :
    Decided d x now (.command (.provideInput id attempt answeredBy response)) (contents out) := by
  obtain ⟨s, hs, h⟩ := stepOf_bind_ok h
  split at h
  · cases h
  · rename_i request hopen
    split at h
    · cases h
    · rename_i hcurrent
      have hatt : s.currentAttempt = attempt := by simpa using hcurrent
      subst hatt
      split at h
      · cases h
      · rename_i hdue
        split at h
        · cases h
        · rename_i hallows
          cases h
          rw [contents_intoMessages, said_answerLands, said_aboutStep, hemit]
          exact .answered hs (.provided hopen (by simpa using hdue) (by simpa using hallows))

theorem decideTimeoutInput_decided (h : decideTimeoutInput d x id attempt emit now = .ok out) :
    Decided d x now (.command (.timeoutInput id attempt)) (contents out) := by
  obtain ⟨s, hs, h⟩ := stepOf_bind_ok h
  split at h
  · cases h
  · rename_i request hopen
    split at h
    · cases h
    · rename_i hcurrent
      have hatt : s.currentAttempt = attempt := by simpa using hcurrent
      subst hatt
      split at h
      · cases h
      · rename_i hpolicy
        cases h
        rw [contents_intoMessages, said_settleFailure, said_event, said_aboutStep, hemit]
        exact .failed hs (.lapsed hopen hpolicy)
      · rename_i hpolicy
        cases h
        rw [contents_intoMessages, said_continueAfter, said_event, said_aboutStep, hemit]
        exact .finished hs (.skipped hopen hpolicy)
      · rename_i response hpolicy
        cases h
        rw [contents_intoMessages, said_answerLands, said_aboutStep, hemit]
        exact .answered hs (.lapsed hopen hpolicy)

theorem decideStepStarted_decided (h : decideStepStarted d x id attempt emit = .ok out) :
    Decided d x now (.event (.stepStarted id attempt)) (contents out) := by
  obtain ⟨s, hs, h⟩ := stepOf_bind_ok h
  split at h
  · cases h
  · rename_i hcurrent
    have hatt : s.currentAttempt = attempt := by simpa using hcurrent
    subst hatt
    cases h
    rw [contents_intoMessages, said_event, said_aboutStep, hemit]
    exact .started hs

theorem decideInputRequested_decided {request : InputRequest}
    (h : decideInputRequested d x id attempt request emit = .ok out) :
    Decided d x now (.event (.inputRequested id attempt request)) (contents out) := by
  obtain ⟨s, hs, h⟩ := stepOf_bind_ok h
  split at h
  · cases h
  · rename_i hcurrent
    have hatt : s.currentAttempt = attempt := by simpa using hcurrent
    subst hatt
    split at h
    · cases h
    · rename_i hopen
      cases h
      rw [contents_intoMessages, said_event, said_aboutStep, hemit]
      exact .asked hs (by simpa using hopen)

theorem decideStepCacheHit_decided {cacheKey : String} {outputs : List ArtifactRef}
    (h : decideStepCacheHit d x id attempt cacheKey outputs emit now = .ok out) :
    Decided d x now (.event (.stepCacheHit id attempt cacheKey outputs)) (contents out) := by
  obtain ⟨s, hs, h⟩ := stepOf_bind_ok h
  split at h
  · rename_i hdone
    cases h
    exact .repeated hs rfl (by simpa using hdone)
  · rename_i hopen
    split at h
    · cases h
    · rename_i hcurrent
      have hatt : s.currentAttempt = attempt := by simpa using hcurrent
      subst hatt
      cases h
      rw [contents_intoMessages, said_continueAfter, said_event, said_aboutStep, hemit]
      exact .finished hs (.cacheHit (by simpa using hopen))

theorem decideStepCompleted_decided {outputs : List ArtifactRef} {result : Option Value}
    (h : decideStepCompleted d x id attempt outputs result emit now = .ok out) :
    Decided d x now (.event (.stepCompleted id attempt outputs result)) (contents out) := by
  obtain ⟨s, hs, h⟩ := stepOf_bind_ok h
  split at h
  · rename_i hdone
    cases h
    exact .repeated hs rfl (by simpa using hdone)
  · rename_i hopen
    split at h
    · cases h
    · rename_i hcurrent
      have hatt : s.currentAttempt = attempt := by simpa using hcurrent
      subst hatt
      cases h
      rw [contents_intoMessages, said_continueAfter, said_event, said_aboutStep, hemit]
      exact .finished hs (.completed (by simpa using hopen))

theorem decideStepFailed_decided {error : StepError}
    (h : decideStepFailed d x id attempt error emit now = .ok out) :
    Decided d x now (.event (.stepFailed id attempt error)) (contents out) := by
  obtain ⟨s, hs, h⟩ := stepOf_bind_ok h
  split at h
  · cases h
  · rename_i hcurrent
    have hatt : s.state.stateType.isTerminal = true → s.currentAttempt = attempt := by
      intro hterm
      simpa [hterm] using hcurrent
    cases hp : x.plan.step id with
    | none => rw [hp] at h; cases h
    | some p =>
      simp only [hp] at h
      split at h
      · rename_i hretry
        cases h
        rw [contents_intoMessages, said_command, said_event, said_event, said_aboutStep, hemit]
        exact .failedRetrying hs hp hatt hretry
      · rename_i hspent
        cases h
        rw [contents_intoMessages, said_settleFailure, said_event, said_aboutStep, hemit]
        exact .failed hs (.reported hp hatt (by simpa using hspent))

end

end arms

/-- **Inversion**: what a run accepts is one of the cases of `Decided`. -/
theorem decideActive_decided {d : Digests} {x : Execution} {input : WorkflowMessage}
    {cause : String} {now : OffsetDateTime} {out : Decision}
    (h : decideActive d x input cause now = .ok out) : Decided d x now input (contents out) := by
  have hemit := said_new x.executionId cause now
  unfold decideActive at h
  split at h
  · cases h
  · exact decidePause_decided hemit h
  · exact decideResume_decided hemit h
  · exact decideCancel_decided hemit h
  · exact decideRetryStep_decided hemit h
  · exact decideProvideInput_decided hemit h
  · exact decideTimeoutInput_decided hemit h
  · exact decideStepStarted_decided hemit h
  · exact decideInputRequested_decided hemit h
  · exact decideStepCacheHit_decided hemit h
  · exact decideStepCompleted_decided hemit h
  · exact decideStepFailed_decided hemit h
  · cases h

end Aiwatcher.Engine
