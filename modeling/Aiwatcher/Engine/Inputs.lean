import Aiwatcher.Engine.Decided

/-!
# Aiwatcher.Engine.Inputs

`Decided` read by input: for each kind of input a run accepts, the step it is about and
everything it makes the run say.  Where `Decided` answers *what may have happened*,
these answer *what this input does*, which is what comparing two runs needs.
-/

namespace Aiwatcher.Engine

/-- What a lapsed question makes a run say, by its policy. -/
def lapseMessages (d : Digests) (x : Execution) (id : String) (attempt : UInt32)
    (now : OffsetDateTime) : OnTimeout → List WorkflowMessage
  | .fail => .event (.stepFailed id attempt (lapsedError id)) ::
      settleMessages x id attempt (lapsedError id)
  | .skip => .event (.stepCompleted id attempt [] none) :: followMessages d x id now
  | .answer response => .event (.inputProvided id attempt answeredByTimeout response) ::
      answerMessages d x id attempt answeredByTimeout response now

variable {d : Digests} {x : Execution} {now : OffsetDateTime} {msgs : List WorkflowMessage}
  {id : String} {n : UInt32}

theorem decided_cancelExecution {reason : String}
    (h : Decided d x now (.command (.cancelExecution reason)) msgs) :
    msgs = if x.cancelling then [] else .event (.executionCancelling reason) :: cancelMessages x := by
  cases h with
  | cancellingAlready _ hc => rw [if_pos hc]
  | cancelled _ hc => rw [hc, if_neg Bool.false_ne_true]
  | answered _ h => cases h
  | repeated _ h _ => cases h
  | finished _ h => cases h
  | failed _ h => cases h

theorem decided_retryStep (h : Decided d x now (.command (.retryStep id)) msgs) :
    ∃ s, x.step id = some s ∧ (s.state.stateType = .failed ∨ s.state.stateType = .crashed) ∧
      msgs = scheduleMessages d x id (s.currentAttempt + 1) now := by
  cases h with
  | retried hs hfailed _ => exact ⟨_, hs, hfailed, rfl⟩
  | answered _ h => cases h
  | repeated _ h _ => cases h
  | finished _ h => cases h
  | failed _ h => cases h

theorem decided_provideInput {answeredBy : String} {response : Value}
    (h : Decided d x now (.command (.provideInput id n answeredBy response)) msgs) :
    ∃ s request, x.step id = some s ∧ s.awaiting = some request ∧ s.currentAttempt = n ∧
      msgs = .event (.inputProvided id n answeredBy response) ::
        answerMessages d x id n answeredBy response now := by
  cases h with
  | answered hs h =>
    cases h with
    | provided hopen _ _ => exact ⟨_, _, hs, hopen, rfl, rfl⟩
  | repeated _ h _ => cases h
  | finished _ h => cases h
  | failed _ h => cases h

theorem decided_timeoutInput (h : Decided d x now (.command (.timeoutInput id n)) msgs) :
    ∃ s request policy, x.step id = some s ∧ s.awaiting = some request ∧ s.currentAttempt = n ∧
      timeoutPolicy x id request = some policy ∧ msgs = lapseMessages d x id n now policy := by
  cases h with
  | answered hs h =>
    cases h with
    | lapsed hopen hpolicy => exact ⟨_, _, _, hs, hopen, rfl, hpolicy, rfl⟩
  | finished hs h =>
    cases h with
    | skipped hopen hpolicy => exact ⟨_, _, _, hs, hopen, rfl, hpolicy, rfl⟩
  | failed hs h =>
    cases h with
    | lapsed hopen hpolicy => exact ⟨_, _, _, hs, hopen, rfl, hpolicy, rfl⟩
  | repeated _ h _ => cases h

theorem decided_stepStarted (h : Decided d x now (.event (.stepStarted id n)) msgs) :
    ∃ s, x.step id = some s ∧ s.currentAttempt = n ∧ msgs = [.event (.stepStarted id n)] := by
  cases h with
  | started hs => exact ⟨_, hs, rfl, rfl⟩
  | answered _ h => cases h
  | repeated _ h _ => cases h
  | finished _ h => cases h
  | failed _ h => cases h

theorem decided_inputRequested {request : InputRequest}
    (h : Decided d x now (.event (.inputRequested id n request)) msgs) :
    ∃ s, x.step id = some s ∧ s.currentAttempt = n ∧
      msgs = [.event (.inputRequested id n request)] := by
  cases h with
  | asked hs _ => exact ⟨_, hs, rfl, rfl⟩
  | answered _ h => cases h
  | repeated _ h _ => cases h
  | finished _ h => cases h
  | failed _ h => cases h

theorem decided_stepCompleted {outputs : List ArtifactRef} {result : Option Value}
    (h : Decided d x now (.event (.stepCompleted id n outputs result)) msgs) :
    ∃ s, x.step id = some s ∧ ((s.state.stateType = .completed ∧ msgs = []) ∨
      (s.state.stateType ≠ .completed ∧ s.currentAttempt = n ∧
        msgs = .event (.stepCompleted id n outputs result) :: followMessages d x id now)) := by
  cases h with
  | repeated hs h hdone =>
    cases h
    exact ⟨_, hs, Or.inl ⟨hdone, rfl⟩⟩
  | finished hs h =>
    cases h with
    | completed hopen => exact ⟨_, hs, Or.inr ⟨hopen, rfl, rfl⟩⟩
  | answered _ h => cases h
  | failed _ h => cases h

theorem decided_stepCacheHit {cacheKey : String} {outputs : List ArtifactRef}
    (h : Decided d x now (.event (.stepCacheHit id n cacheKey outputs)) msgs) :
    ∃ s, x.step id = some s ∧ ((s.state.stateType = .completed ∧ msgs = []) ∨
      (s.state.stateType ≠ .completed ∧ s.currentAttempt = n ∧
        msgs = .event (.stepCacheHit id n cacheKey outputs) :: followMessages d x id now)) := by
  cases h with
  | repeated hs h hdone =>
    cases h
    exact ⟨_, hs, Or.inl ⟨hdone, rfl⟩⟩
  | finished hs h =>
    cases h with
    | cacheHit hopen => exact ⟨_, hs, Or.inr ⟨hopen, rfl, rfl⟩⟩
  | answered _ h => cases h
  | failed _ h => cases h

theorem decided_stepFailed {error : StepError}
    (h : Decided d x now (.event (.stepFailed id n error)) msgs) :
    ∃ s p, x.step id = some s ∧ x.plan.step id = some p ∧
      msgs = if mayRetry x p s error then retryMessages x p id n error now
        else .event (.stepFailed id n error) :: settleMessages x id n error := by
  cases h with
  | failedRetrying hs hp _ hretry => exact ⟨_, _, hs, hp, (if_pos hretry).symm⟩
  | failed hs h =>
    cases h with
    | reported hp _ hspent => exact ⟨_, _, hs, hp, (if_neg (by simp [hspent])).symm⟩
  | answered _ h => cases h
  | repeated _ h _ => cases h
  | finished _ h => cases h

end Aiwatcher.Engine
