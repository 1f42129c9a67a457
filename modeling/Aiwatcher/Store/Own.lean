import Aiwatcher.Store.Hosted

/-!
# Aiwatcher.Store.Own

An append writes rows of its own execution: what the handler, a worker's batch and a
fired timer ask a store for names no other one (`AppendRequest.Own`).

So what appends about some executions keep, and moving a cursor keeps, a tick over the
timers of those executions keeps (`fire_keeps`, `fireAll_keeps`).
-/

namespace Aiwatcher.Store

open Engine Library Option List

/-- Every row of this append is of `execution`. -/
structure AppendRequest.Own (request : AppendRequest) (execution : String) : Prop where
  timers : ∀ timer, .schedule timer ∈ request.timers → timer.execution = execution
  attempts : ∀ write ∈ request.attempts, write.write.key.executionId = execution
  outbox : ∀ row ∈ request.outbox, row.partitionKey = partitionOf execution
  projection : request.projection.executionId = execution

/-- An append of rows of the execution it appends to, or any other operation. -/
def Operation.Own : Operation → Prop
  | .append execution request _ => request.Own execution
  | _ => True

/-! ## The requests of the handler -/

@[simp] theorem executionId_projectionOf (execution : String) (state : ExecutionState)
    (version : Nat) : (projectionOf execution state version).executionId = execution := by
  unfold projectionOf
  split <;> rfl

variable {after : ExecutionState} {execution : String} {outputs : List PendingMessage}

theorem execution_of_mem_deadlineRows {timer : Timer}
    (h : .schedule timer ∈ deadlineRows execution after outputs) : timer.execution = execution := by
  unfold deadlineRows at h
  split at h
  · cases h
  · obtain ⟨m, -, hrow⟩ := mem_filterMap.mp h
    unfold deadlineRow at hrow
    split at hrow
    · obtain ⟨dueAt, -, heq⟩ := map_eq_some_iff.mp hrow
      cases heq
      rfl
    · split at hrow <;> cases hrow
    · split at hrow <;> cases hrow
    · split at hrow <;> cases hrow
    · cases hrow

theorem executionId_of_attemptRow {run : Execution} {m : PendingMessage} {write : AttemptWrite}
    (h : attemptRow execution run outputs m = some write) :
    write.write.key.executionId = execution := by
  unfold attemptRow at h
  split at h
  · cases h
    simp [AttemptWrite.write, Write.key]
  · split at h <;> cases h
    rfl
  · split at h <;> cases h
    rfl
  · obtain ⟨attempt, -, heq⟩ := map_eq_some_iff.mp h
    cases heq
    rfl
  · obtain ⟨ended, -, heq⟩ := map_eq_some_iff.mp h
    cases heq
    rfl
  · cases h
  · cases h

theorem executionId_of_mem_attemptRows {write : AttemptWrite}
    (h : write ∈ attemptRows execution after outputs) :
    write.write.key.executionId = execution := by
  unfold attemptRows at h
  split at h
  · cases h
  · obtain ⟨m, -, hrow⟩ := mem_filterMap.mp h
    exact executionId_of_attemptRow hrow

theorem partitionKey_of_mem_facts {env : Deployment} {metadata : MessageMetadata}
    {row : OutboxMessage} (h : row ∈ env.facts execution after outputs metadata) :
    row.partitionKey = partitionOf execution := by
  unfold Deployment.facts at h
  split at h
  · cases h
  · obtain ⟨envelope, -, hrow⟩ := mem_filterMap.mp h
    obtain ⟨id, -, heq⟩ := map_eq_some_iff.mp hrow
    cases heq
    rfl

theorem own_request (env : Deployment) (execution : String) (handling : Handling)
    (slice : StreamSlice) (outputs : Decision) :
    (handling.request env execution slice outputs).Own execution where
  timers _ h := execution_of_mem_deadlineRows h
  attempts _ h := executionId_of_mem_attemptRows h
  outbox _ h := partitionKey_of_mem_facts h
  projection := executionId_projectionOf ..

theorem own_timerRequest (timer : Timer) (messageType inputId : String)
    (outputs : List PendingMessage) (delivered : Bool) (slice : StreamSlice)
    (now : OffsetDateTime) :
    (timerRequest timer messageType inputId outputs delivered slice now).Own timer.execution where
  timers _ h := by simp [timerRequest] at h
  attempts _ h := by cases h
  outbox _ h := by cases h
  projection := executionId_projectionOf ..

/-! ## What a tick keeps -/

section Keeps

variable {σ : Type} [WorkflowStore σ] {env : Deployment} {About : String → Prop}

/-- What an append about one of some executions keeps, and moving a cursor keeps. -/
structure Kept (env : Deployment) (About : String → Prop) (P : σ → Prop) : Prop where
  append : ∀ store binding other request now, About other → request.Own other → P store →
    P (WorkflowStore.append store binding env.payloadSize other request now).2
  advance : ∀ store binding processor checkpoint, P store →
    P (WorkflowStore.advanceCheckpoint store binding processor checkpoint).2

variable {P : σ → Prop}

theorem step_keeps (hkept : Kept env About P) {other : String} (hother : About other)
    {handling : Handling} {at' : OffsetDateTime} {store after : σ} {here there : Call}
    {reply : Option (Except StoreError AppendOutcome)} (h : P store)
    (hstep : Call.step env other handling at' store here = some (there, after, reply)) :
    P after := by
  unfold Call.step at hstep
  split at hstep
  · cases hstep
    exact h
  · cases hstep
    exact h
  · split at hstep
    · cases hstep
      exact h
    · cases hstep
      exact hkept.append _ _ _ _ _ hother (own_request ..) h
  · split at hstep
    · cases hstep
    · cases hstep
      exact hkept.advance _ _ _ _ h
  · cases hstep

variable {store : σ} {timer : Timer}

section

variable (hkept : Kept env About P)

include hkept

theorem handle_keeps {other : String} (hother : About other) (handling : Handling)
    (at' : OffsetDateTime) (h : P store) : P (handle env other handling at' store).2 := by
  have hfinish : ∀ fuel (call : Call) (store : σ), P store →
      P (call.finish env other handling at' fuel store).2 := by
    intro fuel
    induction fuel with
    | zero =>
      intro call store h
      cases call <;> exact h
    | succ fuel ih =>
      intro call store h
      cases hstep : Call.step env other handling at' store call with
      | none =>
        cases call with
        | done result => exact h
        | _ => simpa only [Call.finish, hstep] using h
      | some moved =>
        obtain ⟨there, after, reply⟩ := moved
        have hafter := ih there after (step_keeps hkept hother h hstep)
        cases call with
        | done result => exact h
        | _ => simpa only [Call.finish, hstep] using hafter
  exact hfinish _ _ store h

section

variable (binding : ScopeBinding)

include binding

theorem appendFor_keeps (hother : About timer.execution) {request : StreamSlice → AppendRequest}
    (hown : ∀ slice, (request slice).Own timer.execution) (at' : OffsetDateTime) (h : P store) :
    P (appendFor env binding timer request at' store).2 := by
  unfold appendFor
  split
  · exact h
  · exact hkept.append _ _ _ _ _ hother (hown _) h

theorem retire_keeps (hother : About timer.execution) (now at' : OffsetDateTime) (h : P store) :
    P (retire env binding timer now at' store).2 :=
  appendFor_keeps hkept binding hother (fun _ => own_timerRequest ..) at' h

theorem fire_keeps (hother : About timer.execution) (now at' : OffsetDateTime) (h : P store) :
    P (fire env binding timer now at' store).2 := by
  unfold fire
  split
  · unfold fireDeadline
    split
    · exact retire_keeps hkept binding hother now at' h
    · rename_i stepId attempt _
      have hhandled := handle_keeps hkept hother
        (timeoutHandling env binding timer stepId attempt now) at' h
      split
      · rename_i heq
        rwa [heq] at hhandled
      · rename_i heq
        rw [heq] at hhandled
        exact retire_keeps hkept binding hother now at' hhandled
      · rename_i heq
        rwa [heq] at hhandled
  · split
    · exact h
    · exact hkept.append _ _ _ _ _ hother (own_timerRequest ..) h

/-- **A tick keeps** what it keeps of the timers it fires. -/
theorem fireAll_keeps (now at' : OffsetDateTime) {timers : List Timer}
    (hother : ∀ timer ∈ timers, About timer.execution) (h : P store) :
    P (fireAll env binding now at' timers store).2 := by
  induction timers generalizing store with
  | nil => exact h
  | cons timer timers ih =>
    have hfired := fire_keeps hkept binding (hother timer mem_cons_self) now at' h
    exact ih (fun t ht => hother t (mem_cons_of_mem _ ht)) hfired

end

end

end Keeps

end Aiwatcher.Store
