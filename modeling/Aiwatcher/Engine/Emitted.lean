import Aiwatcher.Engine.Decide

/-!
# Aiwatcher.Engine.Emitted

Every message of a decision is an output: the emitter makes no other, and nothing but
the emitter adds to a decision.
-/

namespace Aiwatcher.Engine

/-- Everything said so far is an output. -/
def Emitter.AllOutput (emit : Emitter) : Prop := ∀ m ∈ emit.out, m.direction = .output

variable (d : Digests)

namespace Emitter

@[simp] theorem allOutput_new (executionId cause : String) (now : OffsetDateTime) :
    (new executionId cause now).AllOutput := by
  simp [AllOutput, new]

variable (emit : Emitter)

@[simp] theorem allOutput_aboutStep (stepId : String) (attempt : UInt32) :
    (emit.aboutStep stepId attempt).AllOutput ↔ emit.AllOutput := Iff.rfl

@[simp] theorem allOutput_event (e : WorkflowEvent) :
    (emit.event d e).AllOutput ↔ emit.AllOutput := by
  simp [AllOutput, event, push, or_imp, forall_and]

@[simp] theorem allOutput_command (c : WorkflowCommand) :
    (emit.command d c).AllOutput ↔ emit.AllOutput := by
  simp [AllOutput, command, push, or_imp, forall_and]

theorem allOutput_foldl {α : Type} {f : Emitter → α → Emitter}
    (h : ∀ emit a, (f emit a).AllOutput ↔ emit.AllOutput) (as : List α) (emit : Emitter) :
    (as.foldl f emit).AllOutput ↔ emit.AllOutput := by
  induction as generalizing emit with
  | nil => rfl
  | cons a as ih => rw [List.foldl_cons, ih, h]

end Emitter

/-! ## The helpers -/

variable (x : Execution)

@[simp] theorem allOutput_skipDownstream (id : String) (emit : Emitter) :
    (skipDownstream d x id emit).AllOutput ↔ emit.AllOutput := by
  unfold skipDownstream
  rw [Library.Worklist.explore_eq_foldl]
  refine Emitter.allOutput_foldl (fun emit p => ?_) _ emit
  unfold skipChild
  split <;> simp

@[simp] theorem allOutput_settleFailure (id : String) (attempt : UInt32) (error : StepError)
    (emit : Emitter) : (settleFailure d x id attempt error emit).AllOutput ↔ emit.AllOutput := by
  unfold settleFailure
  split <;> simp

@[simp] theorem allOutput_scheduleAttempt (id : String) (attempt : UInt32) (emit : Emitter)
    (now : OffsetDateTime) :
    (scheduleAttempt d x id attempt emit now).AllOutput ↔ emit.AllOutput := by
  unfold scheduleAttempt
  split
  · rfl
  · split <;> simp

@[simp] theorem allOutput_dispatchReady (emit : Emitter) (now : OffsetDateTime) :
    (dispatchReady d x emit now).AllOutput ↔ emit.AllOutput := by
  unfold dispatchReady
  split
  · rfl
  · split
    · rfl
    · refine Emitter.allOutput_foldl (fun emit step => ?_) _ emit
      split <;> simp

@[simp] theorem allOutput_continueAfter (id : String) (emit : Emitter) (now : OffsetDateTime) :
    (continueAfter d x id emit now).AllOutput ↔ emit.AllOutput := by
  unfold continueAfter
  dsimp only
  split <;> split <;> simp

@[simp] theorem allOutput_answerLands (id : String) (attempt : UInt32) (answeredBy : String)
    (response : Value) (emit : Emitter) (now : OffsetDateTime) :
    (answerLands d x id attempt answeredBy response emit now).AllOutput ↔ emit.AllOutput := by
  unfold answerLands
  split
  · simp
  · split <;> simp

@[simp] theorem allOutput_cancelStep (emit : Emitter) (step : StepState) :
    (cancelStep d emit step).AllOutput ↔ emit.AllOutput := by
  unfold cancelStep
  split <;> simp

/-! ## The decisions -/

/-- A decision that was made is all outputs. -/
def SaysOutputs (decided : Except DecisionError Decision) : Prop :=
  ∀ out, decided = .ok out → ∀ m ∈ out, m.direction = .output

@[simp] theorem saysOutputs_error (e : DecisionError) : SaysOutputs (.error e) := by
  simp [SaysOutputs]

@[simp] theorem saysOutputs_nil : SaysOutputs (.ok []) := by
  simp [SaysOutputs]

theorem saysOutputs_intoMessages {emit : Emitter} (h : emit.AllOutput) :
    SaysOutputs (.ok emit.intoMessages) := by
  intro out hout
  cases hout
  exact h

theorem saysOutputs_stepOf {x : Execution} {id : String}
    {f : StepState → Except DecisionError Decision} (h : ∀ s, SaysOutputs (f s)) :
    SaysOutputs (stepOf x id >>= f) := by
  unfold stepOf
  split
  · exact h _
  · exact saysOutputs_error _

theorem decideActive_saysOutputs (input : WorkflowMessage) (cause : String) (now : OffsetDateTime) :
    SaysOutputs (decideActive d x input cause now) := by
  unfold decideActive
  split
  · simp
  · unfold decidePause
    split
    · simp
    · split
      · simp
      · exact saysOutputs_intoMessages (by simp)
  · unfold decideResume
    split
    · simp
    · exact saysOutputs_intoMessages (by simp)
  · unfold decideCancel
    split
    · simp
    · split
      · simp
      · refine saysOutputs_intoMessages ?_
        have hfold := fun steps emit =>
          Emitter.allOutput_foldl (allOutput_cancelStep d) steps emit
        split <;> simp [hfold]
  · refine saysOutputs_stepOf fun s => ?_
    split
    · simp
    · split
      · simp
      · exact saysOutputs_intoMessages (by simp)
  · refine saysOutputs_stepOf fun s => ?_
    split
    · simp
    · split
      · simp
      · split
        · simp
        · split
          · simp
          · exact saysOutputs_intoMessages (by simp)
  · refine saysOutputs_stepOf fun s => ?_
    split
    · simp
    · split
      · simp
      · split
        · simp
        · exact saysOutputs_intoMessages (by simp)
        · exact saysOutputs_intoMessages (by simp)
        · exact saysOutputs_intoMessages (by simp)
  · refine saysOutputs_stepOf fun s => ?_
    split
    · simp
    · exact saysOutputs_intoMessages (by simp)
  · refine saysOutputs_stepOf fun s => ?_
    split
    · simp
    · split
      · simp
      · exact saysOutputs_intoMessages (by simp)
  · refine saysOutputs_stepOf fun s => ?_
    split
    · simp
    · split
      · simp
      · exact saysOutputs_intoMessages (by simp)
  · refine saysOutputs_stepOf fun s => ?_
    split
    · simp
    · split
      · simp
      · exact saysOutputs_intoMessages (by simp)
  · refine saysOutputs_stepOf fun s => ?_
    split
    · simp
    · split
      · simp
      · split <;> exact saysOutputs_intoMessages (by simp)
  · simp

theorem decide_saysOutputs (state : ExecutionState) (input : WorkflowMessage) (cause : String)
    (now : OffsetDateTime) : SaysOutputs (decide d state input cause now) := by
  unfold decide
  split
  · split
    · simp
    · split
      · simp
      · dsimp only
        split <;> exact saysOutputs_intoMessages (by simp)
  · simp
  · exact decideActive_saysOutputs d _ _ _ _

end Aiwatcher.Engine
