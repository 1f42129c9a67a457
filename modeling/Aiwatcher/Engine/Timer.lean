import Aiwatcher.Engine.Moves
import Aiwatcher.Library.Table
import Aiwatcher.Library.Text

/-!
# Aiwatcher.Engine.Timer

What one decision says about the run itself: `RunMove` beside the per-step `Move`.

The deadline of a question as a row of the timer table: what a decision writes there
(`handler.rs`), and what a tick does with a row that has come due (`hosted.rs`).
-/

namespace Aiwatcher.Engine

open List

/-- The facts about the run itself among some messages. -/
def runEvents (msgs : List WorkflowMessage) : List WorkflowEvent :=
  (events msgs).filter fun e => e.stepId? == none

@[simp] theorem runEvents_nil : runEvents [] = [] := rfl

@[simp] theorem runEvents_append (msgs msgs' : List WorkflowMessage) :
    runEvents (msgs ++ msgs') = runEvents msgs ++ runEvents msgs' := by
  rw [runEvents, events_append, filter_append]
  rfl

variable {input : WorkflowMessage} {msgs : List WorkflowMessage}

theorem runEvents_of_forall_step (h : ∀ m ∈ msgs, ∃ t, m.stepId? = some t) :
    runEvents msgs = [] := by
  refine filter_eq_nil_iff.mpr fun e he => ?_
  obtain ⟨m, hm, hev⟩ := mem_filterMap.mp he
  obtain ⟨t, ht⟩ := h m hm
  cases m with
  | event e' =>
    cases hev
    have : e.stepId? = some t := ht
    simp [this]
  | command _ => cases hev
  | hosted _ => cases hev

theorem mem_runEvents {e : WorkflowEvent} (hrun : e.stepId? = none) :
    e ∈ runEvents msgs ↔ .event e ∈ msgs := by
  unfold runEvents events
  rw [mem_filter, mem_filterMap]
  constructor
  · rintro ⟨⟨m, hm, hev⟩, -⟩
    cases m with
    | event e' => cases hev; exact hm
    | command _ => cases hev
    | hosted _ => cases hev
  · exact fun h => ⟨⟨_, h, rfl⟩, by simp [hrun]⟩

theorem state_record_of_runEvents (x : Execution) (msgs : List WorkflowMessage) :
    (x.record msgs).state =
      ((runEvents msgs).filterMap WorkflowEvent.runState?).getLast?.getD x.state := by
  rw [state_record, runState?]
  congr 2
  unfold runEvents
  induction events msgs with
  | nil => rfl
  | cons e es ih =>
    by_cases he : e.stepId? = none
    · rw [filter_cons_of_pos (by simp [he]), filterMap_cons, filterMap_cons, ih]
    · rw [filter_cons_of_neg (by simp [he]), filterMap_cons, ih]
      have hnone : e.runState? = none := by
        cases e <;> first | rfl | exact absurd rfl he
      rw [hnone]

theorem cancelling_record_of_runEvents (x : Execution) (msgs : List WorkflowMessage) :
    (x.record msgs).cancelling = (x.cancelling || (runEvents msgs).any WorkflowEvent.isCancelling) := by
  rw [cancelling_record]
  congr 1
  unfold runEvents
  induction events msgs with
  | nil => rfl
  | cons e es ih =>
    by_cases he : e.stepId? = none
    · rw [filter_cons_of_pos (by simp [he]), any_cons, any_cons, ih]
    · rw [filter_cons_of_neg (by simp [he]), any_cons, ih]
      have hno : e.isCancelling = false := by
        cases e <;> first | rfl | exact absurd rfl he
      rw [hno, Bool.false_or]

variable {d : Digests} {x : Execution} {now : OffsetDateTime}

theorem runEvents_dispatchMessages : runEvents (dispatchMessages d x now) = [] :=
  runEvents_of_forall_step fun _ hm => stepId?_of_mem_dispatchMessages hm

theorem runEvents_scheduleMessages (id : String) (n : UInt32) :
    runEvents (scheduleMessages d x id n now) = [] :=
  runEvents_of_forall_step fun _ hm => ⟨id, stepId?_of_mem_scheduleMessages hm⟩

theorem runEvents_skipMessages (id : String) : runEvents (skipMessages x id) = [] := by
  refine runEvents_of_forall_step fun m hm => ?_
  obtain ⟨found, -, hm⟩ := mem_flatMap.mp hm
  split at hm
  · rw [mem_singleton.mp hm]
    exact ⟨_, rfl⟩
  · cases hm

/-- An input that completes step `id`: a report, a lapse that passes it over, or an
answer to the question it is. -/
def Concludes (x : Execution) (now : OffsetDateTime) (id : String) (s : StepState)
    (input : WorkflowMessage) : Prop :=
  (∃ event, Finishes x id s input event) ∨
    ∃ answeredBy response, Answers x now id s input answeredBy response ∧
      x.plan.asksSomebody id = true

/-- Whether no step runs once `id` has completed. -/
def Execution.idleAfter (x : Execution) (id : String) : Bool :=
  (BTreeMap.values (completedAt x id).steps).all fun s => s.state.stateType != .running

/-- Whether every step has completed once `id` has. -/
def Execution.doneAfter (x : Execution) (id : String) : Bool :=
  (BTreeMap.values (completedAt x id).steps).all fun s => s.state.stateType == .completed

/-- What one decision may say about the run. -/
inductive RunMove (x : Execution) (now : OffsetDateTime) :
    WorkflowMessage → List WorkflowEvent → Prop where
  | quiet {input : WorkflowMessage} : RunMove x now input []
  | paused (hopen : x.state.stateType.isTerminal = false) (h : x.state.stateType ≠ .paused) :
      RunMove x now (.command .pauseExecution) [.executionPaused]
  | resumed (h : x.state.stateType = .paused) :
      RunMove x now (.command .resumeExecution) [.executionResumed]
  | cancelling {reason : String} (hopen : x.state.stateType.isTerminal = false)
      (hc : x.cancelling = false)
      (hflight : (BTreeMap.values x.steps).any StepState.inFlight = true) :
      RunMove x now (.command (.cancelExecution reason)) [.executionCancelling reason]
  | cancelled {reason : String} (hopen : x.state.stateType.isTerminal = false)
      (hc : x.cancelling = false)
      (hflight : (BTreeMap.values x.steps).any StepState.inFlight = false) :
      RunMove x now (.command (.cancelExecution reason))
        [.executionCancelling reason, .executionCancelled]
  | stopped {input : WorkflowMessage} {id : String} {s : StepState} (hs : x.step id = some s)
      (h : Concludes x now id s input) (hc : x.cancelling = true) (hidle : x.idleAfter id = true) :
      RunMove x now input [.executionCancelled]
  | completed {input : WorkflowMessage} {id : String} {s : StepState} (hs : x.step id = some s)
      (h : Concludes x now id s input) (hc : x.cancelling = false)
      (hdone : x.doneAfter id = true) :
      RunMove x now input [.executionCompleted]
  | failed {input : WorkflowMessage} {id : String} {s : StepState} {attempt : UInt32}
      {error : StepError} (hs : x.step id = some s) (h : Fails x id s input attempt error) :
      RunMove x now input [failureEnd x id error]

theorem runEvents_followMessages (id : String) :
    runEvents (followMessages d x id now) =
      if x.cancelling then (if x.idleAfter id then [.executionCancelled] else [])
      else if x.doneAfter id then [.executionCompleted] else [] := by
  unfold followMessages
  rw [runEvents_append, runEvents_dispatchMessages, nil_append]
  unfold completionEnd Execution.idleAfter Execution.doneAfter
  rw [cancelling_completedAt]
  split
  · split <;> rfl
  · split <;> rfl

theorem runMove_of_concludes {id : String} {s : StepState} (hs : x.step id = some s)
    (h : Concludes x now id s input) :
    RunMove x now input (runEvents (followMessages d x id now)) := by
  rw [runEvents_followMessages]
  split
  · rename_i hc
    split
    · rename_i hidle
      exact .stopped hs h hc hidle
    · exact .quiet
  · rename_i hc
    split
    · rename_i hdone
      exact .completed hs h (by simpa using hc) hdone
    · exact .quiet

/-- **Classification**: what a decision says about the run is one of its moves. -/
theorem runMove_of_decided (h : Decided d x now input msgs) :
    RunMove x now input (runEvents msgs) := by
  cases h with
  | pausedAlready _ => exact .quiet
  | paused hopen hp => exact .paused hopen hp
  | resumed hp =>
    have hrest := @runEvents_dispatchMessages d { x with state := .of .running } now
    show RunMove x now _ (.executionResumed :: runEvents (dispatchMessages d _ now))
    rw [hrest]
    exact .resumed hp
  | cancellingAlready _ _ => exact .quiet
  | cancelled hopen hc =>
    rename_i reason
    have hskips : runEvents ((BTreeMap.values x.steps).flatMap cancelStepMessages) = [] := by
      refine runEvents_of_forall_step fun m hm => ?_
      obtain ⟨s, -, hm⟩ := mem_flatMap.mp hm
      exact ⟨_, stepId?_of_mem_cancelStepMessages hm⟩
    show RunMove x now _ (.executionCancelling reason :: runEvents (cancelMessages x))
    rw [cancelMessages, runEvents_append, hskips, nil_append]
    cases hflight : (BTreeMap.values x.steps).any StepState.inFlight with
    | true => exact .cancelling hopen hc hflight
    | false => exact .cancelled hopen hc hflight
  | retried _ _ _ =>
    rw [runEvents_scheduleMessages]
    exact .quiet
  | answered hs hanswers =>
    rename_i id answeredBy s response
    show RunMove x now input (runEvents (answerMessages d x id s.currentAttempt answeredBy
      response now))
    unfold answerMessages
    split
    · rename_i hasks
      show RunMove x now input (runEvents (followMessages d x id now))
      exact runMove_of_concludes hs (Or.inr ⟨answeredBy, response, hanswers, hasks⟩)
    · split
      · exact .quiet
      · rw [runEvents_scheduleMessages]
        exact .quiet
  | started _ => exact .quiet
  | asked _ _ => exact .quiet
  | repeated _ _ _ => exact .quiet
  | finished hs hfin =>
    rename_i id s event
    have hhead : runEvents (.event event :: followMessages d x id now) =
        runEvents (followMessages d x id now) := by cases hfin <;> rfl
    rw [hhead]
    exact runMove_of_concludes hs (Or.inl ⟨event, hfin⟩)
  | failedRetrying _ _ _ _ => exact .quiet
  | failed hs hfails =>
    rename_i id s attempt error
    show RunMove x now input (runEvents (settleMessages x id attempt error))
    have hend : runEvents [.event (failureEnd x id error)] = [failureEnd x id error] := by
      unfold failureEnd
      split <;> rfl
    rw [settleMessages, runEvents_append, runEvents_skipMessages, hend, nil_append]
    exact .failed hs hfails

/-! ## The run states that go with a cancel -/

/-- A cancelled run was being cancelled, and a run being cancelled ends no other way. -/
structure Execution.SoundState (x : Execution) : Prop where
  cancelling_of_cancelled : x.state.stateType = .cancelled → x.cancelling = true
  open_or_cancelled : x.cancelling = true →
    x.state.stateType.isTerminal = false ∨ x.state.stateType = .cancelled

theorem soundState_of_runMove (hx : x.SoundState) (h : RunMove x now input (runEvents msgs)) :
    (x.record msgs).SoundState := by
  have hstate := state_record_of_runEvents x msgs
  have hcancelling := cancelling_record_of_runEvents x msgs
  generalize runEvents msgs = es at h hstate hcancelling
  -- the flag is never taken back, so it is enough to look at what was set
  have hmk : ∀ {r : RunState} {c : Bool}, (x.record msgs).state = r →
      (x.record msgs).cancelling = c → (r.stateType = .cancelled → c = true) →
      (c = true → r.stateType.isTerminal = false ∨ r.stateType = .cancelled) →
      (x.record msgs).SoundState := by
    rintro r c rfl rfl h₁ h₂
    exact ⟨h₁, h₂⟩
  cases h with
  | quiet =>
    refine hmk hstate (hcancelling.trans (Bool.or_false _)) ?_ ?_
    · exact hx.cancelling_of_cancelled
    · exact hx.open_or_cancelled
  | paused _ _ => exact hmk hstate hcancelling (fun h => by cases h) fun _ => Or.inl rfl
  | resumed _ => exact hmk hstate hcancelling (fun h => by cases h) fun _ => Or.inl rfl
  | cancelling _ _ _ => exact hmk hstate hcancelling (fun h => by cases h) fun _ => Or.inl rfl
  | cancelled _ _ _ =>
    refine hmk hstate hcancelling (fun _ => ?_) fun _ => Or.inr rfl
    simp [WorkflowEvent.isCancelling]
  | stopped _ _ hc _ =>
    refine hmk hstate hcancelling (fun _ => ?_) fun _ => Or.inr rfl
    rw [hc, Bool.true_or]
  | completed _ _ hc _ =>
    refine hmk hstate hcancelling (fun h => by cases h) fun h => ?_
    rw [hc] at h
    cases h
  | failed _ _ =>
    cases hc : x.cancelling with
    | true =>
      rw [failureEnd, if_pos hc] at hstate
      refine hmk hstate hcancelling (fun _ => ?_) fun _ => Or.inr rfl
      rw [hc, Bool.true_or]
    | false =>
      rw [failureEnd, if_neg (by simp [hc])] at hstate hcancelling
      refine hmk hstate hcancelling (fun h => by cases h) fun h => ?_
      rw [hc] at h
      cases h

open Library

/-! ## Timers -/

structure Timer where
  execution : String
  timerId : String
  dueAt : OffsetDateTime
  message : HostedMessage

def Timer.isDue (timer : Timer) (now : OffsetDateTime) : Bool := Decidable.decide (timer.dueAt ≤ now)

/-- What one decision does to the timer table. -/
inductive TimerWrite where
  | schedule (timer : Timer)
  | cancel (timerId : String)
  | fire (timerId : String)

/-- The timers of one execution, by their ids. -/
abbrev TimerTable := BTreeMap String Timer

/-- What the store makes of it. -/
def TimerWrite.write : TimerWrite → Write String Timer
  | .schedule timer => .put timer.timerId timer
  | .cancel timerId | .fire timerId => .drop timerId

/-- The timer table's part of an `append`. -/
def TimerTable.append (table : TimerTable) (rows : List TimerWrite) : TimerTable :=
  Write.applyAll table (rows.map TimerWrite.write)

/-- The message type a gate's deadline is stored under. -/
def deadlineTimerType : String := "input_deadline"

/-- The timer id a question's deadline is kept under. -/
def deadlineTimerId (stepId : String) (attempt : UInt32) : String :=
  s!"input/{stepId}/{attempt.toNat}"

/-- The row of a question's deadline. -/
def deadlineTimer (execution stepId : String) (attempt : UInt32) (dueAt : OffsetDateTime) :
    Timer where
  execution := execution
  timerId := deadlineTimerId stepId attempt
  dueAt := dueAt
  message := {
    messageType := deadlineTimerType
    metadata := .object
      [("step_id", .string stepId), ("attempt", .number (.posInt attempt.toUInt64))]
    payload := none }

theorem deadlineTimerId_inj {t u : String} {n m : UInt32}
    (h : deadlineTimerId t n = deadlineTimerId u m) : t = u ∧ n = m := by
  have hsplit : ∀ (s : String) (k : UInt32),
      deadlineTimerId s k = ("input/" ++ s) ++ "/" ++ k.toNat.repr := fun _ _ => rfl
  rw [hsplit, hsplit] at h
  obtain ⟨hfront, hnum⟩ := Text.append_repr_inj (c := '/') rfl rfl h
  refine ⟨?_, UInt32.toNat_inj.mp hnum⟩
  have := congrArg String.toList hfront
  simpa [String.toList_append, String.toList_inj] using this

/-! ## The timer table's side of one decision -/

/-- Whether a message is a step asking or being answered. -/
def WorkflowMessage.asksOrAnswers (stepId : String) : WorkflowMessage → Bool
  | .event (.inputRequested id ..) | .event (.inputProvided id ..) => id == stepId
  | _ => false

/-- Whether this decision saw a step asking or being answered. -/
def waitingHere (outputs : List PendingMessage) (stepId : String) : Bool :=
  outputs.any fun message => message.message.asksOrAnswers stepId

/-- Whether a step is a question the plan put a clock on. -/
def authoredDeadline (run : Execution) (stepId : String) : Bool :=
  match (run.plan.step stepId).map PlanStep.runtime with
  | some (.humanInput spec) => spec.timeoutSeconds.isSome
  | _ => false

/-- Whether a step can have a deadline for this decision to retire. -/
def hasDeadline (run : Execution) (outputs : List PendingMessage) (stepId : String) : Bool :=
  waitingHere outputs stepId || authoredDeadline run stepId

/-- What one message of a decision does to the timer table. -/
def deadlineRow (execution : String) (run : Execution) (outputs : List PendingMessage)
    (message : PendingMessage) : Option TimerWrite :=
  match message.message with
  | .event (.inputRequested stepId attempt request) =>
    request.deadline.map fun dueAt => .schedule (deadlineTimer execution stepId attempt dueAt)
  | .event (.inputProvided stepId attempt ..) | .event (.stepCompleted stepId attempt ..)
  | .event (.stepFailed stepId attempt _) =>
    if hasDeadline run outputs stepId then some (.cancel (deadlineTimerId stepId attempt))
    else none
  | _ => none

/-- The timer table's share of one decision. -/
def deadlineRows (execution : String) (after : ExecutionState) (outputs : List PendingMessage) :
    List TimerWrite :=
  match after.isActive with
  | none => []
  | some run => outputs.filterMap (deadlineRow execution run outputs)

/-! ## A run, its timers and its inbox -/

/-- A run beside its timers, the ids of the messages recorded in its stream, and those of
the inputs among them. -/
structure TimedRun where
  run : ExecutionState
  timers : TimerTable
  stream : List String
  seen : List String

/-- An empty stream and an empty table. -/
def TimedRun.start : TimedRun := ⟨.empty, ∅, [], []⟩

/-- What may happen to them: an input arrives, or a tick finds a row due. -/
inductive TimedInput where
  | deliver (delivery : Delivery)
  | fire (timerId : String) (now : OffsetDateTime)

/-- `append`: everything lands, unless this input already has. -/
def TimedRun.append (before : TimedRun) (inputId : String) (after : ExecutionState)
    (outputs : List PendingMessage) (timers : List TimerWrite) : TimedRun :=
  if before.seen.contains inputId then before
  else {
    run := after
    timers := TimerTable.append before.timers timers
    stream := before.stream ++ inputId :: outputs.map (·.metadata.messageId)
    seen := before.seen ++ [inputId] }

/-- `decide_and_append`: a redelivery is answered from the stream, `none` is a refusal. -/
def TimedRun.deliver (d : Digests) (execution : String) (before : TimedRun) (i : Delivery) :
    Option (List PendingMessage × TimedRun) :=
  if before.stream.contains i.cause then some ([], before)
  else ((machine d).step before.run i).map fun decided =>
    (decided.1, before.append i.cause decided.2 decided.1
      (deadlineRows execution decided.2 decided.1))

/-- The id a fired timer is recorded under. -/
def Timer.firedId (d : Digests) (timer : Timer) : String :=
  d.deriveUuid s!"hosted-timer/{timer.execution}/{timer.timerId}"

/-- The id a deadline whose question is over is recorded under. -/
def Timer.lapsedId (d : Digests) (timer : Timer) : String :=
  d.deriveUuid s!"input-deadline-lapsed/{timer.execution}/{timer.timerId}"

/-- `retire`: a timer whose question is over goes, and the stream says so. -/
def TimedRun.retire (d : Digests) (before : TimedRun) (timer : Timer) : TimedRun :=
  before.append (timer.lapsedId d) before.run [] [.fire timer.timerId]

/-- The attempt a deadline row is about. -/
def Timer.question (timer : Timer) : Option (String × UInt32) :=
  match (timer.message.metadata.get "step_id").bind Value.asStr,
    (timer.message.metadata.get "attempt").bind Value.asU64 with
  | some stepId, some attempt => some (stepId, attempt.toUInt32)
  | _, _ => none

/-- `fire_deadline`: a question whose deadline ran out, handed to the decider. -/
def TimedRun.fireDeadline (d : Digests) (execution : String) (before : TimedRun) (timer : Timer)
    (now : OffsetDateTime) : List PendingMessage × TimedRun :=
  match timer.question with
  | none => ([], before.retire d timer)
  | some (stepId, attempt) =>
    (before.deliver d execution
      ⟨.command (.timeoutInput stepId attempt), timer.firedId d, now⟩).getD
        ([], before.retire d timer)

/-- Inputs arrive, and a tick fires the rows it finds due. -/
def timedMachine (d : Digests) (execution : String) :
    Machine TimedRun TimedInput PendingMessage where
  step before
    | .deliver i => before.deliver d execution i
    | .fire timerId now =>
      before.timers[timerId]?.bind fun timer =>
        if timer.isDue now then some (before.fireDeadline d execution timer now) else none

end Aiwatcher.Engine
