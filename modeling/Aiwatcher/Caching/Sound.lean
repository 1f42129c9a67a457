import Aiwatcher.Caching.Key
import Aiwatcher.Compiling.Moved
import Aiwatcher.Engine.Handler

/-!
# Aiwatcher.Caching.Sound

What an executor is given (`take` of `reactor.rs`), and what of it a cache key covers.

The key of an attempt is computed by the decision that dispatches it, from the state before
that decision: what a step completing in that very decision produced is not in it.  Nor are
the names of the inputs, the run's own input, the revision of a source and, where their texts
are ambiguous, the declared outputs.
-/

namespace Aiwatcher.Caching

open Engine Library List Option

/-! ## What an executor is given -/

/-- One physical attempt, as an executor is told of it (`activity.rs`). -/
structure ActivityCommand where
  key : AttemptKey
  commandId : String
  step : PlanStep
  inputs : List ArtifactRef
  parameters : BTreeMap String Value
  answers : List InputAnswer

/-- The command `take` makes of a claimed row. -/
def activity (x : Execution) (row : AttemptRow) : Option ActivityCommand :=
  (x.plan.step row.key.stepId).map fun step => {
    key := row.key
    commandId := row.commandId
    step := step
    inputs := x.resolvedInputs row.key.stepId
    parameters := x.input
    answers := ((x.step row.key.stepId).map StepState.answers).getD [] }

/-- The revision a source resolved to, when it has one. -/
def resolvedRevision : RuntimeBinding → Option String
  | .flowPhp spec | .dataFusion spec | .duckDb spec => spec.source.resolvedRevision
  | _ => none

/-- The parameters a step binds. -/
def parameterNames (step : PlanStep) : List String :=
  step.inputs.filterMap fun
    | .parameter name => some name
    | .step .. => none

/-- What running an attempt is a function of: the code, the input artifacts under their names,
the parameters of the step, of the run and of the bindings, the window and the revision of the
source, and the outputs to produce. -/
structure Given where
  kind : RuntimeKind
  code : List String
  inputs : List (String × String)
  parameters : BTreeMap String Value
  input : BTreeMap String Value
  bound : List (String × Option Value)
  window : Option ResolvedWindow
  revision : Option String
  outputs : List OutputDeclaration

namespace ActivityCommand

variable (command : ActivityCommand)

def given : Given where
  kind := command.step.runtime.kind
  code := code command.step.runtime
  inputs := command.inputs.map fun artifact => (artifact.name, artifact.digest)
  parameters := Caching.parameters command.step.runtime
  input := command.parameters
  bound := (parameterNames command.step).map fun name => (name, command.parameters[name]?)
  window := resolvedWindow command.step.runtime
  revision := resolvedRevision command.step.runtime
  outputs := command.step.outputs

end ActivityCommand

/-- The key some messages dispatch a step under. -/
def keyIn (stepId : String) (msgs : List WorkflowMessage) : Option String :=
  msgs.findSome? fun
    | .event (.stepScheduled id _ _ key) => if id = stepId then key else none
    | _ => none

/-- What the inputs of a step have come to in a state. -/
def reads (state : ExecutionState) (stepId : String) : List ArtifactRef :=
  match state.isActive with
  | none => []
  | some run => run.resolvedInputs stepId

/-- A step a decision of some run dispatched under a key, and the run when the attempt is taken:
`before` is the state of the decision, and `run` any state after it that still has the key. -/
structure Taken (d : Digests) (stepId key : String) (before : ExecutionState) (run : Execution) :
    Prop where
  dispatched : ∃ (past later : List Delivery) (i : Delivery) (out : Decision)
    (after : ExecutionState), (machine d).last .empty past = before ∧
      (machine d).step before i = some (out, after) ∧ keyIn stepId (contents out) = some key ∧
      (machine d).last after later = .active run
  recorded : (run.step stepId).bind StepState.cacheKey = some key

section Keys

variable {d : Digests} {x : Execution} {t key : String} {now : OffsetDateTime}

theorem exists_of_keyIn {msgs : List WorkflowMessage} (h : keyIn t msgs = some key) :
    ∃ n kind, .event (.stepScheduled t n kind (some key)) ∈ msgs := by
  obtain ⟨m, hm, hkey⟩ := exists_of_findSome?_eq_some h
  split at hkey
  · split at hkey
    · subst_vars
      exact ⟨_, _, hm⟩
    · cases hkey
  · cases hkey

variable {attempt n : UInt32} {id : String} {kind : RuntimeKind}

theorem key_of_mem_scheduleMessages
    (h : .event (.stepScheduled t n kind (some key)) ∈ scheduleMessages d x id attempt now) :
    ∃ p, x.plan.step t = some p ∧ d.cacheKey p (x.resolvedInputs t) = some key := by
  have hid : id = t := by simpa [WorkflowMessage.stepId?, WorkflowEvent.stepId?] using
    (stepId?_of_mem_scheduleMessages h).symm
  subst hid
  cases hp : x.plan.step id with
  | none => simp [scheduleMessages, hp] at h
  | some p =>
    refine ⟨p, rfl, ?_⟩
    rw [scheduleMessages_of_step hp] at h
    have hkey : scheduledCacheKey d x p id = some key := by
      unfold attemptMessages at h
      cases hq : p.runtime.question with
      | none =>
        simp only [hq, mem_cons, not_mem_nil, or_false, reduceCtorEq,
          WorkflowMessage.event.injEq, WorkflowEvent.stepScheduled.injEq] at h
        exact h.2.2.2.symm
      | some spec =>
        simp only [hq, mem_cons, not_mem_nil, or_false, reduceCtorEq,
          WorkflowMessage.event.injEq, WorkflowEvent.stepScheduled.injEq] at h
        exact h.2.2.2.symm
    unfold scheduledCacheKey at hkey
    split at hkey
    · exact hkey
    · cases hkey

theorem key_of_mem_dispatchMessages {n : UInt32}
    (h : .event (.stepScheduled t n kind (some key)) ∈ dispatchMessages d x now) :
    ∃ p, x.plan.step t = some p ∧ d.cacheKey p (x.resolvedInputs t) = some key := by
  unfold dispatchMessages at h
  split at h
  · obtain ⟨id, -, hmem⟩ := mem_flatMap.mp h
    exact key_of_mem_scheduleMessages hmem
  · cases h

theorem resolvedInputs_modifyStep (id : String) {f : StepState → StepState}
    (hf : ∀ s, (f s).outputs = s.outputs) :
    (x.modifyStep id f).resolvedInputs t = x.resolvedInputs t := by
  unfold Execution.resolvedInputs
  rw [plan_modifyStep]
  cases x.plan.step t with
  | none => rfl
  | some step =>
    refine filterMap_congr fun binding _ => ?_
    cases binding with
    | parameter name => rfl
    | step parent output =>
      dsimp only
      rw [step_modifyStep]
      split
      · cases x.step parent <;> simp [hf]
      · rfl

theorem key_of_mem_followMessages {n : UInt32}
    (h : .event (.stepScheduled t n kind (some key)) ∈ followMessages d x id now) :
    ∃ p, x.plan.step t = some p ∧ d.cacheKey p (x.resolvedInputs t) = some key := by
  rcases mem_append.mp h with hdispatch | hend
  · obtain ⟨p, hp, hkey⟩ := key_of_mem_dispatchMessages hdispatch
    have hsame : (completedAt x id).resolvedInputs t = x.resolvedInputs t :=
      resolvedInputs_modifyStep id fun _ => rfl
    exact ⟨p, hp, hsame ▸ hkey⟩
  · unfold completionEnd at hend
    split at hend
    · split at hend <;> simp at hend
    · split at hend <;> simp at hend

theorem key_of_mem_answerMessages {id answeredBy : String} {response : Value} (h : .event (.stepScheduled t n kind (some key)) ∈
      answerMessages d x id attempt answeredBy response now) :
    ∃ p, x.plan.step t = some p ∧ d.cacheKey p (x.resolvedInputs t) = some key := by
  unfold answerMessages at h
  split at h
  · rcases mem_cons.mp h with heq | hfollow
    · cases heq
    · exact key_of_mem_followMessages hfollow
  · split at h
    · cases h
    · obtain ⟨p, hp, hkey⟩ := key_of_mem_scheduleMessages h
      have hsame : (answeredAt x id attempt answeredBy response).resolvedInputs t =
          x.resolvedInputs t := resolvedInputs_modifyStep id fun _ => rfl
      exact ⟨p, hp, hsame ▸ hkey⟩

theorem not_scheduled_of_settle {error : StepError} :
    .event (.stepScheduled t n kind (some key)) ∉ settleMessages x id attempt error := by
  intro h
  rcases mem_append.mp h with hskip | hend
  · obtain ⟨found, -, hmem⟩ := mem_flatMap.mp hskip
    split at hmem <;> simp at hmem
  · unfold failureEnd at hend
    split at hend <;> simp at hend

theorem not_scheduled_of_cancel {n : UInt32} :
    .event (.stepScheduled t n kind (some key)) ∉ cancelMessages x := by
  intro h
  rcases mem_append.mp h with hskip | hend
  · obtain ⟨s, -, hmem⟩ := mem_flatMap.mp hskip
    unfold cancelStepMessages at hmem
    split at hmem <;> simp at hmem
  · split at hend <;> simp at hend

/-- **The key of a decision** is made of what the inputs of the step had come to before it. -/
theorem key_of_decided {input : WorkflowMessage} {msgs : List WorkflowMessage}
    (hdecided : Decided d x now input msgs) {n : UInt32}
    (h : .event (.stepScheduled t n kind (some key)) ∈ msgs) :
    ∃ p, x.plan.step t = some p ∧ d.cacheKey p (x.resolvedInputs t) = some key := by
  cases hdecided with
  | pausedAlready | cancellingAlready | repeated => cases h
  | paused | started | asked => simp at h
  | resumed =>
    rcases mem_cons.mp h with heq | hdispatch
    · cases heq
    · obtain ⟨p, hp, hkey⟩ := key_of_mem_dispatchMessages hdispatch
      exact ⟨p, hp, hkey⟩
  | cancelled =>
    rcases mem_cons.mp h with heq | hcancel
    · cases heq
    · exact absurd hcancel not_scheduled_of_cancel
  | retried => exact key_of_mem_scheduleMessages h
  | answered =>
    rcases mem_cons.mp h with heq | hanswer
    · cases heq
    · exact key_of_mem_answerMessages hanswer
  | finished _ hfinishes =>
    rcases mem_cons.mp h with heq | hfollow
    · cases hfinishes <;> cases heq
    · exact key_of_mem_followMessages hfollow
  | failedRetrying => simp [retryMessages] at h
  | failed =>
    rcases mem_cons.mp h with heq | hsettle
    · cases heq
    · exact absurd hsettle not_scheduled_of_settle

theorem resolvedInputs_of_opens {input : WorkflowMessage} (h : Opens input x) :
    x.resolvedInputs t = [] := by
  unfold Execution.resolvedInputs
  cases x.plan.step t with
  | none => rfl
  | some step =>
    rw [filterMap_eq_nil_iff]
    intro binding _
    cases binding with
    | parameter name => rfl
    | step parent output =>
      dsimp only
      cases hs : x.step parent with
      | none => rfl
      | some s =>
        obtain ⟨kind, rfl⟩ := fresh_of_opens h hs
        rfl

theorem plan_of_last {later : List Delivery} {run : Execution}
    (h : (machine d).last (.active x) later = .active run) : run.plan = x.plan := by
  have hinv := Machine.inv_last (M := machine d)
    (fun state => ∃ y, state = .active y ∧ y.plan = x.plan)
    (fun state i out state' hstate hstep => by
      obtain ⟨y, rfl, hplan⟩ := hstate
      rcases step_cases hstep with ⟨z, hempty, -⟩ | ⟨z, hz, -, rfl⟩
      · cases hempty
      · cases hz
        exact ⟨_, rfl, by rw [plan_record, hplan]⟩)
    ⟨x, rfl, rfl⟩ later
  obtain ⟨y, hy, hplan⟩ := hinv
  rw [h] at hy
  cases hy
  exact hplan

theorem Taken.keyed {before : ExecutionState} {run : Execution} (h : Taken d t key before run) :
    ∃ p, run.plan.step t = some p ∧ d.cacheKey p (reads before t) = some key := by
  obtain ⟨past, later, i, out, after, -, hstep, hkey, hlast⟩ := h.dispatched
  obtain ⟨n, kind, hmem⟩ := exists_of_keyIn hkey
  rcases step_cases hstep with ⟨x, rfl, hopens, hout, rfl⟩ | ⟨x, rfl, hdecided, rfl⟩
  · rw [hout] at hmem
    have hdispatch : .event (.stepScheduled t n kind (some key)) ∈ dispatchMessages d x i.now := by
      rcases mem_append.mp hmem with hopening | hdispatch
      · simp [openingFacts] at hopening
      · exact hdispatch
    obtain ⟨p, hp, hcache⟩ := key_of_mem_dispatchMessages hdispatch
    rw [resolvedInputs_of_opens hopens] at hcache
    exact ⟨p, by rw [plan_of_last hlast, plan_record, hp], hcache⟩
  · obtain ⟨p, hp, hcache⟩ := key_of_decided hdecided hmem
    exact ⟨p, by rw [plan_of_last hlast, plan_record, hp], hcache⟩

end Keys

/-! ## One key, one answer -/

/-- The decider with the keys of `cache.rs`. -/
def keyedBy (addressing : Addressing) (deriveUuid : String → String) : Digests :=
  ⟨deriveUuid, cacheKey addressing⟩

/-- What the executor of an attempt is given had come about, as far as it is addressed, before
the decision that dispatched it. -/
def ReadBefore (before : ExecutionState) (c : ActivityCommand) : Prop :=
  (reads before c.key.stepId).map (·.digest) = c.inputs.map (·.digest)

variable {d : Digests} {past : List Delivery} {row : AttemptRow} {run : Execution}

theorem Taken.covered {addressing : Addressing} {deriveUuid : String → String} {key : String}
    {before : ExecutionState} {c : ActivityCommand}
    (h : Taken (keyedBy addressing deriveUuid) row.key.stepId key before run)
    (hc : activity run row = some c) (hread : ReadBefore before c) :
    cacheKey addressing c.step (reads before c.key.stepId) = some key ∧
      Caching.covered c.step (reads before c.key.stepId) = Caching.covered c.step c.inputs := by
  obtain ⟨p, hp, hkey⟩ := h.keyed
  obtain ⟨step, hstep, rfl⟩ := map_eq_some_iff.mp hc
  rw [hp] at hstep
  cases hstep
  exact ⟨hkey, by simp only [Caching.covered, hread.symm]⟩

end Aiwatcher.Caching
