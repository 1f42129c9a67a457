import Aiwatcher.Engine.Timer

/-!
# Aiwatcher.Engine.Cancelling

A run that is being cancelled: what it may still dispatch, and when it says that it
has been cancelled.
-/

namespace Aiwatcher.Engine

open Library List Execution

/-! ## Dispatches -/

/-- A message that puts work in front of somebody. -/
def WorkflowMessage.isDispatch : WorkflowMessage → Bool
  | .event (.stepScheduled ..) | .event (.stepRetryScheduled ..) | .command (.executeStep ..) => true
  | _ => false

/-- What happens to the question `id` has open when nobody answers it. -/
def Execution.openPolicy (x : Execution) (id : String) : Option OnTimeout :=
  (x.step id).bind fun s => s.awaiting.bind (timeoutPolicy x id)

def OnTimeout.isAnswer : OnTimeout → Bool
  | .answer _ => true
  | _ => false

/-- Whether an answer to `id` is work for a new attempt: a gate is completed by it,
and a hosted run's worker chooses what follows. -/
def Execution.answerReschedules (x : Execution) (id : String) : Bool :=
  !x.plan.asksSomebody id && x.mode == .compiled

/-- Whether an input brings such an answer, from a person or from a deadline. -/
def Execution.resumesBy (x : Execution) : WorkflowMessage → Bool
  | .command (.provideInput id ..) => x.answerReschedules id
  | .command (.timeoutInput id _) => x.answerReschedules id && (x.openPolicy id).any OnTimeout.isAnswer
  | _ => false

variable {id : String} {input : WorkflowMessage} {msgs : List WorkflowMessage} {s : StepState}

theorem openPolicy_of_step {x : Execution} {request : InputRequest} (hs : x.step id = some s)
    (hopen : s.awaiting = some request) : x.openPolicy id = timeoutPolicy x id request := by
  rw [openPolicy, hs, Option.bind_some, hopen, Option.bind_some]

theorem exists_isDispatch_of_attemptMessages {e id : String} {n : UInt32} {p : PlanStep}
    {key : Option String} {now : OffsetDateTime} :
    ∃ m ∈ attemptMessages e id n p key now, m.isDispatch = true :=
  ⟨_, mem_cons_self, rfl⟩

variable {d : Digests} {x : Execution} {now : OffsetDateTime}

theorem resumesBy_of_answers {id answeredBy : String} {response : Value} (hs : x.step id = some s)
    (h : Answers x now id s input answeredBy response) :
    x.resumesBy input = x.answerReschedules id := by
  cases h with
  | provided _ _ _ => rfl
  | lapsed hopen hpolicy =>
    simp [resumesBy, openPolicy_of_step hs hopen, hpolicy, OnTimeout.isAnswer]

/-- A run that is being cancelled dispatches on the answers to its workers' questions
and on nothing else. -/
theorem isDispatch_iff_of_cancelling (hx : x.WellFormed) (h : Decided d x now input msgs)
    (hc : x.cancelling = true) : (∃ m ∈ msgs, m.isDispatch = true) ↔ x.resumesBy input = true := by
  constructor
  · rintro ⟨m, hm, hdispatch⟩
    have hsubject : ∃ t, m.stepId? = some t := by
      cases m with
      | event e => cases e <;> simp_all [WorkflowMessage.isDispatch, WorkflowMessage.stepId?,
          WorkflowEvent.stepId?]
      | command c => cases c <;> simp_all [WorkflowMessage.isDispatch, WorkflowMessage.stepId?]
      | hosted m => cases hdispatch
    obtain ⟨t, ht⟩ := hsubject
    obtain ⟨s, hs, hmove, hm⟩ := exists_move hx h hm ht
    generalize aboutStep t msgs = about at hmove hm
    cases hmove with
    | untouched => cases hm
    | dispatched _ _ _ hno _ _ => rw [hc] at hno; cases hno
    | skippedByCancel _ _ => rw [mem_singleton.mp hm] at hdispatch; cases hdispatch
    | skippedBelow _ _ _ _ _ => rw [mem_singleton.mp hm] at hdispatch; cases hdispatch
    | retried _ _ _ hno => rw [hc] at hno; cases hno
    | answered _ _ =>
      simp only [mem_cons, not_mem_nil, or_false] at hm
      rcases hm with rfl | rfl <;> cases hdispatch
    | answeredHosted _ _ _ => rw [mem_singleton.mp hm] at hdispatch; cases hdispatch
    | answeredWorker hanswers hasks hmode _ =>
      rw [resumesBy_of_answers hs hanswers, answerReschedules, hasks, hmode]
      rfl
    | started _ => rw [mem_singleton.mp hm] at hdispatch; cases hdispatch
    | asked _ _ => rw [mem_singleton.mp hm] at hdispatch; cases hdispatch
    | finished hfin =>
      rw [mem_singleton.mp hm] at hdispatch
      cases hfin <;> cases hdispatch
    | failedRetrying _ _ _ hretry =>
      rw [mayRetry, hc] at hretry
      simp at hretry
    | failed _ => rw [mem_singleton.mp hm] at hdispatch; cases hdispatch
  · intro hresumes
    cases h with
    | answered hs hanswers =>
      rename_i id answeredBy s response
      rw [resumesBy_of_answers hs hanswers] at hresumes
      obtain ⟨hasks, hmode⟩ : x.plan.asksSomebody id = false ∧ x.mode = .compiled := by
        simpa [answerReschedules] using hresumes
      obtain ⟨p, hp⟩ := mem_ids_of_step hx hs
      have hp' : (answeredAt x id s.currentAttempt answeredBy response).plan.step id = some p :=
        hp
      obtain ⟨m, hm, hdispatch⟩ := @exists_isDispatch_of_attemptMessages
        (answeredAt x id s.currentAttempt answeredBy response).executionId id
        (s.currentAttempt + 1) p
        (scheduledCacheKey d (answeredAt x id s.currentAttempt answeredBy response) p id) now
      refine ⟨m, mem_cons_of_mem _ ?_, hdispatch⟩
      rw [answerMessages, hasks, hmode, if_neg (by simp), if_neg (by decide),
        scheduleMessages_of_step hp']
      exact hm
    | finished hs hfin =>
      cases hfin with
      | completed _ => cases hresumes
      | cacheHit _ => cases hresumes
      | skipped hopen hpolicy =>
        simp [resumesBy, openPolicy_of_step hs hopen, hpolicy, OnTimeout.isAnswer] at hresumes
    | failed hs hfails =>
      cases hfails with
      | reported _ _ _ => cases hresumes
      | lapsed hopen hpolicy =>
        simp [resumesBy, openPolicy_of_step hs hopen, hpolicy, OnTimeout.isAnswer] at hresumes
    | repeated _ hin _ =>
      unfold WorkflowMessage.completes? at hin
      split at hin
      · cases hresumes
      · cases hresumes
      · cases hin
    | _ => cases hresumes

/-- **Cancellation stops work, but for the answers to workers' questions**: a run
dispatches nothing after its cancel was accepted exactly when no answer that
reschedules a step arrives after it. -/
theorem cancelling_run_dispatches_nothing_iff (d : Digests) (is : List Delivery) :
    (∀ st ∈ (machine d).run .empty is, ∀ x, st.before = .active x → x.cancelling = true →
        ∀ m ∈ contents st.out, m.isDispatch = false) ↔
      ∀ st ∈ (machine d).run .empty is, ∀ x, st.before = .active x → x.cancelling = true →
        x.resumesBy st.input.input = false := by
  refine forall_congr' fun st => forall_congr' fun hst => forall_congr' fun x =>
    forall_congr' fun hx => forall_congr' fun hc => ?_
  obtain ⟨hwf, hdecided, -⟩ := decided_of_mem_run hst hx
  have hiff := isDispatch_iff_of_cancelling hwf hdecided hc
  constructor
  · intro hquiet
    rw [← Bool.not_eq_true, ← hiff]
    rintro ⟨m, hm, hdispatch⟩
    rw [hquiet m hm] at hdispatch
    cases hdispatch
  · intro hno m hm
    rw [← Bool.not_eq_true]
    intro hdispatch
    rw [hiff.mp ⟨m, hm, hdispatch⟩] at hno
    cases hno

/-- A worker's attempt stops to ask, the run is cancelled, and somebody answers. -/
def answeredAfterCancel : List Delivery :=
  toldInOrder [startOf (planOf [workerStep "work"] []),
    .event (.stepStarted "work" 1),
    .event (.inputRequested "work" 1 ⟨"go on?", "reviewer", [], none, none⟩),
    .command (.cancelExecution "no longer wanted"),
    .command (.provideInput "work" 1 "somebody" (.string "yes"))]

/-- That answer dispatches a second attempt. -/
theorem answer_dispatches_after_cancel :
    ∃ st ∈ (machine plainDigests).run .empty answeredAfterCancel,
      ∃ x, st.before = .active x ∧ x.cancelling = true ∧
        ∃ m ∈ contents st.out, m.isDispatch = true := by
  have hrun : ((machine plainDigests).run .empty answeredAfterCancel).any (fun st =>
      st.before.isActive.any fun x => x.cancelling && (contents st.out).any (·.isDispatch)) =
      true := by
    decide +kernel
  obtain ⟨st, hst, x, hbefore, hboth⟩ := exists_active_of_any hrun
  rw [Bool.and_eq_true, List.any_eq_true] at hboth
  exact ⟨st, hst, x, hbefore, hboth⟩

/-! ## Saying that it has been cancelled -/

def WorkflowMessage.saysCancelled : WorkflowMessage → Bool
  | .event .executionCancelled => true
  | _ => false

/-- Whether a property holds of every step but `id`. -/
def Execution.others (x : Execution) (id : String) (p : String → StepState → Bool) : Bool :=
  x.plan.ids.all fun t => t == id || (x.step t).all (p t)

/-- Whether the run may say it is cancelled when `id` has completed: either it has to
wait for another running step, or nothing is left waiting and it has not said so yet. -/
def Execution.stopsCleanly (x : Execution) (id : String) : Bool :=
  !x.others id (fun _ s => s.state.stateType != .running) ||
    (x.state.stateType != .cancelled && x.others id fun _ s => s.state.stateType != .awaitingInput)

/-- Whether the run may say it is cancelled when `id` has failed: nothing but its
descendants is left in flight, and it has not said so yet. -/
def Execution.failsCleanly (x : Execution) (id : String) : Bool :=
  x.state.stateType != .cancelled &&
    x.others id fun t s => (x.plan.downstreamOf id).contains t || !s.inFlight

/-- Whether the step an input ends is the last one in flight. -/
def Execution.endsLast (x : Execution) : WorkflowMessage → Bool
  | .event (.stepFailed id ..) => x.failsCleanly id
  | .event (.stepCompleted id ..) | .event (.stepCacheHit id ..) =>
    (x.step id).any (·.state.stateType == .completed) || x.stopsCleanly id
  | .command (.provideInput id ..) => !x.plan.asksSomebody id || x.stopsCleanly id
  | .command (.timeoutInput id _) =>
    match x.openPolicy id with
    | some .fail => x.failsCleanly id
    | some .skip => x.stopsCleanly id
    | _ => !x.plan.asksSomebody id || x.stopsCleanly id
  | _ => true

/-- Whether a run that is being cancelled settles cleanly on an input. -/
def Execution.settlesCleanly (x : Execution) (input : WorkflowMessage) : Bool :=
  !x.cancelling || x.endsLast input

theorem others_iff (hx : x.WellFormed) {p : String → StepState → Bool} :
    x.others id p = true ↔ ∀ t s, t ≠ id → x.step t = some s → p t s = true := by
  simp only [others, all_eq_true, Bool.or_eq_true, beq_iff_eq]
  constructor
  · intro h t s hne hs
    have hmem : t ∈ x.plan.ids := (hx.planned t).mp (by simp [hs])
    have := (h t hmem).resolve_left hne
    rwa [hs, Option.all_some] at this
  · intro h t _
    by_cases hne : t = id
    · exact Or.inl hne
    · refine Or.inr ?_
      cases hs : x.step t with
      | none => rfl
      | some s => exact h t s hne hs

theorem idleAfter_iff (hx : x.WellFormed) :
    x.idleAfter id = true ↔ x.others id (fun _ s => s.state.stateType != .running) = true := by
  rw [others_iff hx, idleAfter, all_eq_true]
  constructor
  · intro h t s hne hs
    refine h s (mem_values_steps.mpr ⟨t, ?_⟩)
    rw [step_completedAt, if_neg (Ne.symm hne), hs]
  · intro h s hs
    obtain ⟨t, ht⟩ := mem_values_steps.mp hs
    rw [step_completedAt] at ht
    split at ht
    · obtain ⟨s', -, rfl⟩ := Option.map_eq_some_iff.mp ht
      rfl
    · rename_i hne
      exact h t s (Ne.symm hne) ht

/-- In a run being cancelled a completion says nothing but the end, when that is due. -/
theorem followMessages_of_cancelling (hc : x.cancelling = true) (id : String) :
    followMessages d x id now = if x.idleAfter id then [.event .executionCancelled] else [] := by
  have hno : dispatchMessages d (completedAt x id) now = [] := by
    simp [dispatchMessages, dispatches, hc]
  unfold followMessages completionEnd idleAfter
  rw [hno, cancelling_completedAt, hc, if_pos rfl, nil_append]

/-- Nothing is in flight in the state the run reached. -/
def Execution.NothingInFlight (x : Execution) : Prop :=
  ∀ t s, x.step t = some s → s.inFlight = false

theorem nothingInFlight_of_follow (hx : x.WellFormed) (hc : x.cancelling = true)
    (hs : x.step id = some s) {head : List WorkflowMessage}
    (hhead : ∀ m ∈ head, m.stepId? = some id) (hdone : (s.record head).state.stateType = .completed)
    (hclean : x.stopsCleanly id = true)
    (hsaid : .event .executionCancelled ∈ head ++ followMessages d x id now) :
    x.state.stateType ≠ .cancelled ∧
      (x.record (head ++ followMessages d x id now)).NothingInFlight := by
  have hend : .event .executionCancelled ∉ head := fun h => by cases hhead _ h
  rw [followMessages_of_cancelling hc] at hsaid ⊢
  have hidle : x.idleAfter id = true := by
    by_contra hno
    rw [if_neg hno, append_nil] at hsaid
    exact hend hsaid
  rw [if_pos hidle]
  have hothers := (idleAfter_iff hx).mp hidle
  obtain ⟨hfirst, hasking⟩ : x.state.stateType ≠ .cancelled ∧
      x.others id (fun _ s => s.state.stateType != .awaitingInput) = true := by
    simpa [stopsCleanly, hothers] using hclean
  refine ⟨hfirst, ?_⟩
  intro t s' hs'
  obtain ⟨st, hst, rfl⟩ := exists_step_of_record hs'
  rw [aboutStep_append, aboutStep_cons_of_ne (by simp [WorkflowMessage.stepId?,
    WorkflowEvent.stepId?]), aboutStep_nil, append_nil]
  by_cases hne : t = id
  · subst hne
    cases hs.symm.trans hst
    rw [aboutStep_of_forall_eq hhead, StepState.inFlight, hdone]
  · rw [aboutStep_of_forall_ne fun m hm => by rw [hhead m hm]; simpa using Ne.symm hne]
    have hrun := (others_iff hx).mp hothers t st hne hst
    have hask := (others_iff hx).mp hasking t st hne hst
    unfold StepState.inFlight
    rw [StepState.record_nil]
    cases hstate : st.state.stateType <;> simp_all

theorem nothingInFlight_of_settle (hx : x.WellFormed) (hs : x.step id = some s) {attempt : UInt32}
    {error : StepError} (hclean : x.failsCleanly id = true) :
    x.state.stateType ≠ .cancelled ∧
      (x.record (.event (.stepFailed id attempt error) ::
        settleMessages x id attempt error)).NothingInFlight := by
  obtain ⟨hfirst, hothers⟩ : x.state.stateType ≠ .cancelled ∧
      x.others id (fun t s => (x.plan.downstreamOf id).contains t || !s.inFlight) = true := by
    simpa [failsCleanly] using hclean
  refine ⟨hfirst, ?_⟩
  intro t s' hs'
  obtain ⟨st, hst, rfl⟩ := exists_step_of_record hs'
  unfold settleMessages
  by_cases hne : t = id
  · subst hne
    cases hs.symm.trans hst
    rw [aboutStep_cons_of_eq rfl, aboutStep_append, aboutStep_failureEnd, append_nil]
    rcases @aboutStep_skipMessages (settledAt x t attempt error) t t with
      ⟨-, hnil⟩ | ⟨_, ⟨-, ho⟩, -⟩
    · rw [hnil, StepState.inFlight, StepState.record_cons_event, StepState.record_nil]
      cases hclass : error.failureClass <;>
        simp [StepState.apply, hclass, FailureClass.attemptState]
    · rw [hasOpen_settledAt_self] at ho
      cases ho
  · have hside := (others_iff hx).mp hothers t st hne hst
    have hhead : (WorkflowMessage.event (.stepFailed id attempt error)).stepId? ≠ some t := by
      simpa [WorkflowMessage.stepId?, WorkflowEvent.stepId?] using Ne.symm hne
    rw [aboutStep_cons_of_ne hhead, aboutStep_append, aboutStep_failureEnd, append_nil]
    rcases @aboutStep_skipMessages (settledAt x id attempt error) id t with
      ⟨hno, hnil⟩ | ⟨_, -, hsome⟩
    · rw [hnil, StepState.record_nil]
      -- a descendant that is not skipped had ended
      rw [hasOpen_settledAt_of_ne (Ne.symm hne), hasOpen_of_step hst] at hno
      unfold StepState.inFlight at hside ⊢
      cases hstate : st.state.stateType <;>
        simp_all [StateType.isTerminal, settledAt, setAttemptState]
    · rw [hsome]
      rfl

theorem nothingInFlight_of_cancel (hx : x.WellFormed)
    (hflight : (BTreeMap.values x.steps).any StepState.inFlight = false) {reason : String} :
    (x.record (.event (.executionCancelling reason) :: cancelMessages x)).NothingInFlight := by
  intro t s' hs'
  obtain ⟨s, hs, rfl⟩ := exists_step_of_record hs'
  rw [aboutStep_cons_of_ne (by simp [WorkflowMessage.stepId?, WorkflowEvent.stepId?]),
    aboutStep_cancelMessages hx hs]
  have hidle := any_eq_false.mp hflight s (mem_values_steps.mpr ⟨t, hs⟩)
  unfold cancelStepMessages
  cases hstate : s.state.stateType <;>
    simp_all [StepState.inFlight, StepState.apply]

/-- Whoever says the run is cancelled was asked to, or stops a run being cancelled. -/
theorem cancelling_of_saysCancelled (h : Decided d x now input msgs)
    (hsaid : .event .executionCancelled ∈ msgs) :
    x.cancelling = true ∨ ∃ reason, input = .command (.cancelExecution reason) := by
  have hmem := (mem_runEvents rfl).mpr hsaid
  have hmove := runMove_of_decided h
  generalize runEvents msgs = es at hmem hmove
  cases hmove with
  | cancelled _ _ _ => exact Or.inr ⟨_, rfl⟩
  | stopped _ _ hc _ => exact Or.inl hc
  | failed _ _ =>
    refine Or.inl ?_
    by_contra hc
    rw [failureEnd, if_neg hc] at hmem
    simp at hmem
  | _ => simp at hmem

theorem nothingInFlight_of_saysCancelled (hx : x.WellFormed) (h : Decided d x now input msgs)
    (hclean : x.settlesCleanly input = true) (hsaid : .event .executionCancelled ∈ msgs) :
    x.state.stateType ≠ .cancelled ∧ (x.record msgs).NothingInFlight := by
  rcases cancelling_of_saysCancelled h hsaid with hc | ⟨reason, rfl⟩
  · rw [settlesCleanly, hc, Bool.not_true, Bool.false_or] at hclean
    cases h with
    | cancelled _ hno => rw [hc] at hno; cases hno
    | answered hs hanswers =>
      rename_i id answeredBy s response
      by_cases hasks : x.plan.asksSomebody id = true
      · have hstops : x.stopsCleanly id = true := by
          cases hanswers with
          | provided _ _ _ => simpa [endsLast, hasks] using hclean
          | lapsed hopen hpolicy =>
            simpa [endsLast, openPolicy_of_step hs hopen, hpolicy, hasks] using hclean
        rw [answerMessages, if_pos hasks] at hsaid ⊢
        have hsubject : ∀ m ∈ [WorkflowMessage.event
            (.inputProvided id s.currentAttempt answeredBy response),
            .event (.stepCompleted id s.currentAttempt [] (some response))],
            m.stepId? = some id := by
          intro m hm
          simp only [mem_cons, not_mem_nil, or_false] at hm
          rcases hm with rfl | rfl <;> rfl
        exact nothingInFlight_of_follow hx hc hs hsubject rfl hstops hsaid
      · -- an answer to a worker's step says nothing about the run
        rw [answerMessages, if_neg hasks] at hsaid
        have hstep : ∀ m ∈ (if x.mode == .hosted then [] else scheduleMessages d
            (answeredAt x id s.currentAttempt answeredBy response) id (s.currentAttempt + 1)
            now), m.stepId? = some id := by
          intro m hm
          split at hm
          · cases hm
          · exact stepId?_of_mem_scheduleMessages hm
        rcases mem_cons.mp hsaid with hsaid | hsaid
        · cases hsaid
        · cases hstep _ hsaid
    | finished hs hfin =>
      rename_i id s event
      have hstops : x.stopsCleanly id = true := by
        cases hfin with
        | completed hopen => simpa [endsLast, hs, hopen] using hclean
        | cacheHit hopen => simpa [endsLast, hs, hopen] using hclean
        | skipped hopen hpolicy =>
          simpa [endsLast, openPolicy_of_step hs hopen, hpolicy] using hclean
      have hdone : (s.record [.event event]).state.stateType = .completed := by
        cases hfin <;> rfl
      have hsubject : ∀ m ∈ [WorkflowMessage.event event], m.stepId? = some id := by
        intro m hm
        rw [mem_singleton.mp hm]
        cases hfin <;> rfl
      exact nothingInFlight_of_follow hx hc hs hsubject hdone hstops hsaid
    | failed hs hfails =>
      rename_i id s attempt error
      have hfailsCleanly : x.failsCleanly id = true := by
        cases hfails with
        | reported _ _ _ => exact hclean
        | lapsed hopen hpolicy =>
          simpa [endsLast, openPolicy_of_step hs hopen, hpolicy] using hclean
      exact nothingInFlight_of_settle hx hs hfailsCleanly
    | failedRetrying _ _ _ _ => simp [retryMessages] at hsaid
    | retried _ _ hno => rw [hc] at hno; cases hno
    | resumed _ =>
      rcases mem_cons.mp hsaid with hsaid | hsaid
      · cases hsaid
      · obtain ⟨t, ht⟩ := stepId?_of_mem_dispatchMessages hsaid
        cases ht
    | _ => simp at hsaid
  · cases h with
    | cancellingAlready _ _ => cases hsaid
    | cancelled hopen hc =>
      have hfirst : x.state.stateType ≠ .cancelled := by
        intro hst
        rw [hst] at hopen
        cases hopen
      refine ⟨hfirst, nothingInFlight_of_cancel hx ?_⟩
      by_contra hflight
      rw [cancelMessages, if_pos (by simpa using hflight), append_nil] at hsaid
      rcases mem_cons.mp hsaid with hsaid | hsaid
      · cases hsaid
      · obtain ⟨s, -, hsaid⟩ := mem_flatMap.mp hsaid
        cases stepId?_of_mem_cancelStepMessages hsaid
    | answered _ hanswers => cases hanswers
    | finished _ hfin => cases hfin
    | failed _ hfails => cases hfails
    | repeated _ hin _ => cases hin

theorem countP_saysCancelled (msgs : List WorkflowMessage) :
    msgs.countP (·.saysCancelled) = (runEvents msgs).countP fun e => (WorkflowMessage.event e).saysCancelled := by
  induction msgs with
  | nil => rfl
  | cons m ms ih =>
    cases m with
    | command _ => exact ih
    | hosted _ => exact ih
    | event e =>
      have hsplit : runEvents (.event e :: ms) = runEvents [.event e] ++ runEvents ms :=
        runEvents_append [.event e] ms
      rw [hsplit, countP_append, ← ih, countP_cons, Nat.add_comm]
      congr 1
      cases e <;> rfl

/-- What the history of a run says of its state: it says it is cancelled once when it
is, and not before. -/
structure CancelledOnce (said : List WorkflowMessage) (x : Execution) : Prop where
  wellFormed : x.WellFormed
  sound : x.SoundState
  count : said.countP (·.saysCancelled) = if x.state.stateType = .cancelled then 1 else 0

theorem cancelledOnce_record {said msgs : List WorkflowMessage} (hx : CancelledOnce said x)
    (h : RunMove x now input (runEvents msgs))
    (hfirst : .event .executionCancelled ∈ msgs → x.state.stateType ≠ .cancelled) :
    CancelledOnce (said ++ msgs) (x.record msgs) := by
  refine ⟨wellFormed_record hx.wellFormed msgs, soundState_of_runMove hx.sound h, ?_⟩
  rw [countP_append, hx.count, countP_saysCancelled, state_record_of_runEvents]
  rw [← mem_runEvents rfl] at hfirst
  generalize runEvents msgs = es at h hfirst ⊢
  -- only the open states are left towards something that is no end
  have hopen : x.state.stateType.isTerminal = false → x.state.stateType ≠ .cancelled := by
    intro hopen hst
    rw [hst] at hopen
    cases hopen
  cases h with
  | quiet => rfl
  | paused hterm _ => rw [if_neg (hopen hterm)]; rfl
  | resumed hp => rw [hp]; rfl
  | cancelling hterm _ _ => rw [if_neg (hopen hterm)]; rfl
  | cancelled hterm _ _ => rw [if_neg (hopen hterm)]; rfl
  | stopped _ _ _ _ => rw [if_neg (hfirst mem_cons_self)]; rfl
  | completed _ _ hc _ =>
    have hnot : x.state.stateType ≠ .cancelled := by
      intro hst
      rw [hx.sound.cancelling_of_cancelled hst] at hc
      cases hc
    rw [if_neg hnot]
    rfl
  | failed _ _ =>
    unfold failureEnd at hfirst ⊢
    split at hfirst
    · rename_i hc
      rw [if_neg (hfirst mem_cons_self), if_pos hc]
      rfl
    · rename_i hc
      have hnot : x.state.stateType ≠ .cancelled := fun hst =>
        hc (hx.sound.cancelling_of_cancelled hst)
      rw [if_neg hnot, if_neg hc]
      rfl

/-- The same of a run's history, from before it exists. -/
def CancelledOnceSoFar (said : List PendingMessage) : ExecutionState → Prop
  | .empty => said = []
  | .active x => CancelledOnce (contents said) x

theorem cancelledOnce_of_opens (h : Opens input x) :
    CancelledOnce (openingFacts x ++ dispatchMessages d x now)
      (x.record (dispatchMessages d x now)) := by
  have hquiet : RunMove x now input (runEvents (dispatchMessages d x now)) := by
    rw [runEvents_dispatchMessages]
    exact .quiet
  have hfacts : CancelledOnce (openingFacts x) x := by
    refine ⟨wellFormed_of_opens h, ?_, ?_⟩
    · cases h
      exact ⟨(fun h => by cases h), (fun h => by cases h)⟩
    · cases h
      rfl
  refine cancelledOnce_record hfacts hquiet fun hmem => ?_
  obtain ⟨t, ht⟩ := stepId?_of_mem_dispatchMessages hmem
  cases ht

/-- **A run says it is cancelled once, when nothing is in flight**, as long as every
input that ends a step of a run being cancelled settles it cleanly. -/
theorem cancelled_once_with_nothing_in_flight (d : Digests) (is : List Delivery)
    (h : ∀ st ∈ (machine d).run .empty is, ∀ x, st.before = .active x →
      x.settlesCleanly st.input.input = true) :
    (contents ((machine d).emitted .empty is)).countP (·.saysCancelled) ≤ 1 ∧
      ∀ st ∈ (machine d).run .empty is, .event .executionCancelled ∈ contents st.out →
        ∀ y, st.after = .active y → ∀ t s, y.step t = some s →
          s.state.stateType ≠ .running ∧ s.state.stateType ≠ .awaitingInput := by
  constructor
  · have hrun := Machine.accum_run (M := machine d) CancelledOnceSoFar
      (fun state i => ∀ x, state = .active x → x.settlesCleanly i.input = true)
      (by
        intro said state i out state' hP hclean hstep
        rcases step_cases hstep with ⟨x, rfl, hopens, hout, rfl⟩ | ⟨x, rfl, hdecided, rfl⟩
        · have hsaid : said = [] := hP
          show CancelledOnce (contents (said ++ out)) _
          rw [hsaid, List.nil_append, hout]
          exact cancelledOnce_of_opens hopens
        · have hx : CancelledOnce (contents said) x := hP
          show CancelledOnce (contents (said ++ out)) _
          rw [contents, List.map_append]
          refine cancelledOnce_record hx (runMove_of_decided hdecided) fun hmem => ?_
          exact (nothingInFlight_of_saysCancelled hx.wellFormed hdecided (hclean x rfl) hmem).1)
      (h := []) (s := .empty) rfl h
    rw [List.nil_append] at hrun
    cases hlast : (machine d).last .empty is with
    | empty =>
      rw [hlast] at hrun
      have hnone : (machine d).emitted .empty is = [] := hrun
      rw [hnone]
      exact Nat.zero_le _
    | active x =>
      rw [hlast] at hrun
      have honce : CancelledOnce (contents ((machine d).emitted .empty is)) x := hrun
      rw [honce.count]
      split <;> omega
  · intro st hst hsaid y hy t s hs
    cases hbefore : st.before with
    | empty =>
      -- opening a run says nothing about cancelling it
      rcases step_cases (Machine.step_of_mem_run hst) with
        ⟨x, -, hopens, hout, -⟩ | ⟨x, hx, -⟩
      · rw [hout] at hsaid
        rcases List.mem_append.mp hsaid with hsaid | hsaid
        · simp [openingFacts] at hsaid
        · obtain ⟨t, ht⟩ := stepId?_of_mem_dispatchMessages hsaid
          cases ht
      · rw [hbefore] at hx
        cases hx
    | active x =>
      obtain ⟨hwf, hdecided, hafter⟩ := decided_of_mem_run hst hbefore
      cases hy.symm.trans hafter
      have hidle := (nothingInFlight_of_saysCancelled hwf hdecided (h st hst x hbefore) hsaid).2
        t s hs
      unfold StepState.inFlight at hidle
      constructor
      · intro hrun
        rw [hrun] at hidle
        cases hidle
      · intro hask
        rw [hask] at hidle
        cases hidle

/-- Two running steps, a cancel, and both stop. -/
def cancelledInOrder : List Delivery :=
  toldInOrder [startOf (planOf [workerStep "left", workerStep "right"] []),
    .event (.stepStarted "left" 1),
    .event (.stepStarted "right" 1),
    .command (.cancelExecution "no longer wanted"),
    .event (.stepCompleted "left" 1 [] none),
    .event (.stepFailed "right" 1 ⟨.policy, "cancelled"⟩)]

theorem cancelledInOrder_settles :
    (contents ((machine plainDigests).emitted .empty cancelledInOrder)).countP
        (·.saysCancelled) ≤ 1 ∧
      ∀ st ∈ (machine plainDigests).run .empty cancelledInOrder,
        .event .executionCancelled ∈ contents st.out →
        ∀ y, st.after = .active y → ∀ t s, y.step t = some s →
          s.state.stateType ≠ .running ∧ s.state.stateType ≠ .awaitingInput := by
  refine cancelled_once_with_nothing_in_flight plainDigests cancelledInOrder ?_
  have hrun : ((machine plainDigests).run .empty cancelledInOrder).all (fun st =>
      st.before.isActive.all fun x => x.settlesCleanly st.input.input) = true := by
    decide +kernel
  intro st hst x hx
  have hone := List.all_eq_true.mp hrun st hst
  rw [hx] at hone
  exact hone

/-- The left step fails while the right one still runs. -/
def failedWhileRunning : List Delivery :=
  toldInOrder [startOf (planOf [workerStep "left", workerStep "right"] []),
    .event (.stepStarted "left" 1),
    .event (.stepStarted "right" 1),
    .command (.cancelExecution "no longer wanted"),
    .event (.stepFailed "left" 1 ⟨.policy, "cancelled"⟩),
    .event (.stepFailed "right" 1 ⟨.policy, "cancelled"⟩)]

/-- The run says twice that it is cancelled, the first time with a step running. -/
theorem cancelled_twice_with_a_step_running :
    (contents ((machine plainDigests).emitted .empty failedWhileRunning)).countP
        (·.saysCancelled) = 2 ∧
      ((machine plainDigests).run .empty failedWhileRunning).any (fun st =>
        (contents st.out).any (·.saysCancelled) && st.after.isActive.any fun y =>
          (y.step "right").any (·.state.stateType == .running)) = true := by
  decide +kernel

end Aiwatcher.Engine
