import Aiwatcher.Engine.Agreement

/-!
# Aiwatcher.Engine.Settling

A run that is being cancelled can settle: some step in flight still has a party that
can report on it, the holder of its row or somebody asked.
-/

namespace Aiwatcher.Engine

open Library List Execution

/-! ## Who can still report -/

/-- Whether somebody can still report on a step: its current attempt has a row, or a
question is open. -/
def attended (execution : String) (claims : ClaimTable) (t : String) (s : StepState) : Bool :=
  claims[AttemptKey.mk execution t s.currentAttempt]?.isSome || s.awaiting.isSome

/-- Whether an answer to `id` leaves a run that is being cancelled with a step in flight
that somebody attends to. -/
def Execution.answerSettles (x : Execution) (id : String) : Bool :=
  x.plan.asksSomebody id ||
    match x.mode with
    | .hosted => !(x.step id).any StepState.inFlight
    | .compiled => !x.cancelling || !x.others id fun _ s => !s.inFlight

/-- Whether an input leaves everything in flight attended. -/
def Execution.keepsAttended (x : Execution) (execution : String) (claims : ClaimTable) :
    WorkflowMessage → Bool
  | .event (.stepStarted id _) => (x.step id).any (attended execution claims id)
  | .command (.provideInput id ..) => x.answerSettles id
  | .command (.timeoutInput id _) =>
    !(x.openPolicy id).any OnTimeout.isAnswer || x.answerSettles id
  | _ => true

/-- Whether an input leaves a run able to settle: an ended run has nothing to settle. -/
def Execution.keepsSettling (x : Execution) (execution : String) (claims : ClaimTable)
    (input : WorkflowMessage) : Bool :=
  x.state.stateType.isTerminal || x.keepsAttended execution claims input

/-- What lets a run settle: whatever is in flight is attended, and while the run is being
cancelled something is in flight. -/
structure Settling (execution : String) (x : Execution) (claims : ClaimTable) : Prop where
  attended : ∀ t s, x.step t = some s → s.inFlight = true → attended execution claims t s = true
  inFlight : x.cancelling = true → ∃ t s, x.step t = some s ∧ s.inFlight = true

variable {d : Digests} {x y : Execution} {now : OffsetDateTime} {input : WorkflowMessage}
  {t execution : String} {s : StepState} {before after : ClaimTable}

theorem answerSettles_of_answers (hs : x.step t = some s) {answeredBy : String} {response : Value}
    (h : Answers x now t s input answeredBy response)
    (hkeeps : x.keepsAttended execution before input = true) : x.answerSettles t = true := by
  cases h with
  | provided _ _ _ => exact hkeeps
  | lapsed hopen hpolicy =>
    simpa [keepsAttended, openPolicy_of_step hs hopen, hpolicy, OnTimeout.isAnswer]
      using hkeeps

/-! ## One step of the run -/

theorem awaiting_of_attemptMessages (s : StepState) (e t : String) (n : UInt32) (p : PlanStep)
    (key : Option String) (now : OffsetDateTime)
    (h : (s.record (attemptMessages e t n p key now)).inFlight = true) :
    (s.record (attemptMessages e t n p key now)).awaiting.isSome = true := by
  unfold attemptMessages at h ⊢
  cases hq : p.runtime.question with
  | none =>
    rw [hq] at h
    cases h
  | some spec => rfl

/-- **One decision** leaves a step in flight only where somebody attends to it. -/
theorem attended_of_move {about : List WorkflowMessage} (hs : x.step t = some s)
    (h : Move x now input t s about) (hkeeps : x.keepsAttended execution before input = true)
    (hrow : ∀ n, after[AttemptKey.mk execution t n]?.isSome =
      about.foldl (rowAfter y t n) before[AttemptKey.mk execution t n]?.isSome)
    (hattended : s.inFlight = true → attended execution before t s = true)
    (hflight : (s.record about).inFlight = true) :
    attended execution after t (s.record about) = true := by
  -- a question is enough
  have hasked : (s.record about).awaiting.isSome = true →
      attended execution after t (s.record about) = true := by
    intro hopen
    rw [attended, hopen, Bool.or_true]
  cases h with
  | untouched =>
    have hattended := hattended hflight
    rw [attended, hrow]
    exact hattended
  | dispatched _ _ _ _ _ _ =>
    refine hasked ?_
    rw [replicate_succ', flatten_append, flatten_singleton, StepState.record_append] at hflight ⊢
    exact awaiting_of_attemptMessages _ _ _ _ _ _ _ hflight
  | skippedByCancel _ _ => cases hflight
  | skippedBelow _ _ _ _ _ => cases hflight
  | retried _ _ _ _ => exact hasked (awaiting_of_attemptMessages _ _ _ _ _ _ _ hflight)
  | answered _ _ => cases hflight
  | answeredHosted hanswers hasks hmode =>
    have hno := answerSettles_of_answers hs hanswers hkeeps
    rw [answerSettles, hasks, hmode, hs] at hno
    have hidle : s.inFlight = false := by simpa using hno
    have hflight : s.inFlight = true := hflight
    rw [hidle] at hflight
    cases hflight
  | answeredWorker _ _ _ _ =>
    exact hasked (awaiting_of_attemptMessages _ _ _ _ _ _ _ hflight)
  | started hinput =>
    rw [hinput, keepsAttended, hs, Option.any_some] at hkeeps
    have hsame : ∀ there, rowAfter y t s.currentAttempt there
        (.event (.stepStarted t s.currentAttempt)) = there := by
      intro there
      simp [rowAfter, settled]
    have hcurrent : (s.record [.event (.stepStarted t s.currentAttempt)]).currentAttempt =
        s.currentAttempt := rfl
    rw [attended, hrow, hcurrent, foldl_cons, hsame]
    exact hkeeps
  | asked _ _ => exact hasked rfl
  | finished hfin => cases hfin <;> cases hflight
  | failedRetrying _ _ _ _ => cases hflight
  | @failed attempt error _ =>
    exfalso
    cases hc : error.failureClass <;>
      simp [StepState.apply, StepState.inFlight, hc, FailureClass.attemptState] at hflight

/-! ## The run -/

variable {i : Delivery} {msgs : List WorkflowMessage}

theorem inFlight_of_untouched (hs : x.step t = some s) (hflight : s.inFlight = true)
    (h : aboutStep t msgs = []) : ∃ t s, (x.record msgs).step t = some s ∧ s.inFlight = true := by
  refine ⟨t, s, ?_, hflight⟩
  rw [step_record_of_some hs, h]
  rfl

/-- An ended run says nothing that opens it again. -/
theorem terminal_of_runMove (h : RunMove x now input (runEvents msgs))
    (hend : x.state.stateType.isTerminal = true) :
    (x.record msgs).state.stateType.isTerminal = true := by
  rw [state_record_of_runEvents]
  generalize runEvents msgs = es at h
  cases h with
  | quiet => exact hend
  | paused hopen _ => rw [hend] at hopen; cases hopen
  | resumed hp => rw [hp] at hend; cases hend
  | cancelling hopen _ _ => rw [hend] at hopen; cases hopen
  | cancelled hopen _ _ => rw [hend] at hopen; cases hopen
  | stopped _ _ _ _ => rfl
  | completed _ _ _ _ => rfl
  | failed _ _ =>
    unfold failureEnd
    split <;> rfl

/-- A completion in a run being cancelled ends the run or leaves another step running. -/
theorem inFlight_of_follow (hx : x.WellFormed) (hc : x.cancelling = true) {id : String}
    {head : List WorkflowMessage} (hhead : ∀ m ∈ head, m.stepId? = some id)
    (hopen : (x.record (head ++ followMessages d x id now)).state.stateType.isTerminal = false) :
    ∃ t s, (x.record (head ++ followMessages d x id now)).step t = some s ∧ s.inFlight = true := by
  rw [followMessages_of_cancelling hc] at hopen ⊢
  by_cases hidle : x.idleAfter id = true
  · rw [if_pos hidle, record_append] at hopen
    cases hopen
  · rw [if_neg hidle, append_nil]
    rw [idleAfter_iff hx, others_iff hx] at hidle
    push Not at hidle
    obtain ⟨t, s, hne, hs, hrun⟩ := hidle
    have hflight : s.inFlight = true := by
      have hrun : s.state.stateType = .running := by simpa using hrun
      rw [StepState.inFlight, hrun]
    exact inFlight_of_untouched hs hflight
      (aboutStep_of_forall_ne fun m hm => by rw [hhead m hm]; simpa using Ne.symm hne)

/-- A run is being cancelled once it was asked to, and from then on. -/
theorem cancelling_or_cancel (h : Decided d x now input msgs)
    (hc : (x.record msgs).cancelling = true) :
    x.cancelling = true ∨ ∃ reason, input = .command (.cancelExecution reason) := by
  rw [cancelling_record_of_runEvents, Bool.or_eq_true] at hc
  refine hc.imp_right fun hsaid => ?_
  have hmove := runMove_of_decided h
  generalize runEvents msgs = es at hmove hsaid
  cases hmove with
  | cancelling _ _ _ => exact ⟨_, rfl⟩
  | cancelled _ _ _ => exact ⟨_, rfl⟩
  | failed _ _ =>
    unfold failureEnd at hsaid
    split at hsaid <;> simp [WorkflowEvent.isCancelling] at hsaid
  | _ => simp [WorkflowEvent.isCancelling] at hsaid

/-- **One decision** in a run being cancelled ends it or leaves something in flight. -/
theorem inFlight_of_decided (hx : x.WellFormed) (h : Decided d x now input msgs)
    (hkeeps : x.keepsAttended execution before input = true)
    (hflight : x.cancelling = true → ∃ t s, x.step t = some s ∧ s.inFlight = true)
    (hc : (x.record msgs).cancelling = true)
    (hopen : (x.record msgs).state.stateType.isTerminal = false) :
    ∃ t s, (x.record msgs).step t = some s ∧ s.inFlight = true := by
  have hasked := cancelling_or_cancel h hc
  -- an input that is no cancel found the run being cancelled
  have hbefore : (∀ reason, input ≠ .command (.cancelExecution reason)) → x.cancelling = true :=
    fun hno => hasked.resolve_right fun ⟨reason, hinput⟩ => hno reason hinput
  have hreported : ∀ u n, input.attempt? = some (u, n) → x.cancelling = true := by
    intro u n hattempt
    refine hbefore fun reason hinput => ?_
    rw [hinput] at hattempt
    cases hattempt
  have hquiet : x.cancelling = true → (∀ t, aboutStep t msgs = []) →
      ∃ t s, (x.record msgs).step t = some s ∧ s.inFlight = true := by
    intro hbefore hnil
    obtain ⟨t, s, hs, hout⟩ := hflight hbefore
    exact inFlight_of_untouched hs hout (hnil t)
  cases h with
  | pausedAlready _ => exact hquiet (hbefore (by simp)) fun _ => rfl
  | paused _ _ => exact hquiet (hbefore (by simp)) fun _ => rfl
  | cancellingAlready _ hwas => exact hquiet hwas fun _ => rfl
  | repeated _ hin _ =>
    refine hquiet (hbefore ?_) fun _ => rfl
    rintro reason rfl
    cases hin
  | resumed _ =>
    have hbefore := hbefore (by simp)
    have hnone : dispatchMessages d { x with state := .of .running } now = [] := by
      simp [dispatchMessages, dispatches, hbefore]
    refine hquiet hbefore fun t => ?_
    rw [hnone]
    rfl
  | @cancelled reason _ _ =>
    by_cases hany : (BTreeMap.values x.steps).any StepState.inFlight = true
    · obtain ⟨s, hmem, hout⟩ := any_eq_true.mp hany
      obtain ⟨t, hs⟩ := mem_values_steps.mp hmem
      refine inFlight_of_untouched hs hout ?_
      rw [aboutStep_cons_of_ne (by simp [WorkflowMessage.stepId?, WorkflowEvent.stepId?]),
        aboutStep_cancelMessages hx hs]
      unfold StepState.inFlight at hout
      unfold cancelStepMessages
      cases hst : s.state.stateType <;> simp_all
    · -- nothing was in flight, so the cancel ended the run
      rw [cancelMessages, if_neg hany, ← cons_append, record_append] at hopen
      cases hopen
  | retried _ _ hno =>
    have hbefore := hbefore (by simp)
    rw [hno] at hbefore
    cases hbefore
  | @answered input id answeredBy s response hs hanswers =>
    have hbefore := hreported _ _ (attempt?_of_answers hanswers)
    have hsettles := answerSettles_of_answers hs hanswers hkeeps
    by_cases hasks : x.plan.asksSomebody id = true
    · rw [answerMessages, if_pos hasks] at hopen ⊢
      have hsubject : ∀ m ∈ [WorkflowMessage.event
          (.inputProvided id s.currentAttempt answeredBy response),
          .event (.stepCompleted id s.currentAttempt [] (some response))],
          m.stepId? = some id := by
        intro m hm
        simp only [mem_cons, not_mem_nil, or_false] at hm
        rcases hm with rfl | rfl <;> rfl
      exact inFlight_of_follow hx hbefore hsubject hopen
    · -- the step that was asked is done waiting, so another one has to be in flight
      have habout : ∀ t, t ≠ id → aboutStep t (.event (.inputProvided id s.currentAttempt
          answeredBy response) :: answerMessages d x id s.currentAttempt answeredBy response
          now) = [] := by
        intro t hne
        rw [aboutStep_cons_of_ne (by
          simpa [WorkflowMessage.stepId?, WorkflowEvent.stepId?] using Ne.symm hne)]
        rw [answerMessages, if_neg hasks]
        split
        · rfl
        · rw [aboutStep_scheduleMessages, if_neg (Ne.symm hne)]
      have hanother : ∃ t u, t ≠ id ∧ x.step t = some u ∧ u.inFlight = true := by
        have hno : x.plan.asksSomebody id = false := by simpa using hasks
        rw [answerSettles, hno, Bool.false_or] at hsettles
        cases hmode : x.mode with
        | hosted =>
          rw [hmode, hs] at hsettles
          have hidle : s.inFlight = false := by simpa using hsettles
          obtain ⟨t, u, hu, hout⟩ := hflight hbefore
          refine ⟨t, u, ?_, hu, hout⟩
          rintro rfl
          cases hs.symm.trans hu
          rw [hidle] at hout
          cases hout
        | compiled =>
          simp only [hmode, hbefore, Bool.not_true, Bool.false_or, Bool.not_eq_true'] at hsettles
          have hothers : ¬ (x.others id fun _ s => !s.inFlight) = true := by simp [hsettles]
          rw [others_iff hx] at hothers
          push Not at hothers
          obtain ⟨t, u, hne, hu, hout⟩ := hothers
          exact ⟨t, u, hne, hu, by simpa using hout⟩
      obtain ⟨t, u, hne, hu, hout⟩ := hanother
      exact inFlight_of_untouched hu hout (habout t hne)
  | @started id s hs =>
    refine ⟨id, _, step_record_of_some hs _, ?_⟩
    rw [aboutStep_cons_of_eq rfl]
    rfl
  | @asked id s request hs _ =>
    refine ⟨id, _, step_record_of_some hs _, ?_⟩
    rw [aboutStep_cons_of_eq rfl]
    rfl
  | @finished input id s event hs hfin =>
    have hbefore := hreported _ _ (attempt?_of_finishes hfin)
    have hsubject : ∀ m ∈ [WorkflowMessage.event event], m.stepId? = some id := by
      intro m hm
      rw [mem_singleton.mp hm]
      cases hfin <;> rfl
    exact inFlight_of_follow hx hbefore hsubject hopen
  | @failedRetrying id s p attempt error hs _ _ hretry =>
    have hbefore := hreported id attempt rfl
    simp [mayRetry, hbefore] at hretry
  | @failed input id s attempt error hs _ =>
    rw [settleMessages, ← cons_append, record_append] at hopen
    unfold failureEnd at hopen
    split at hopen <;> cases hopen

/-! ## Over a run -/

/-- A run has ended, or is able to settle. -/
def EndedOrSettling (execution : String) (x : Execution) (claims : ClaimTable) : Prop :=
  x.state.stateType.isTerminal = true ∨ Settling execution x claims

theorem attended_of_appended
    (h : Appended execution x i msgs before after)
    (hkeeps : x.keepsAttended execution before i.input = true)
    (hattended : ∀ t s, x.step t = some s → s.inFlight = true →
      attended execution before t s = true) :
    ∀ t s, (x.record msgs).step t = some s → s.inFlight = true →
      attended execution after t s = true := by
  intro t s' hs' hflight
  obtain ⟨s, hs, rfl⟩ := exists_step_of_record hs'
  exact attended_of_move hs (h.moves t s hs) hkeeps (fun n => h.rows t n) (hattended t s hs) hflight

theorem settling_of_opens (h : Opens i.input x)
    (happ : Appended execution x i (dispatchMessages d x i.now) before after) :
    Settling execution (x.record (dispatchMessages d x i.now)) after := by
  constructor
  · refine attended_of_appended happ ?_ ?_
    · generalize i.input = input at h
      cases h
      rfl
    · intro t s hs hflight
      obtain ⟨kind, rfl⟩ := fresh_of_opens h hs
      cases hflight
  · intro hc
    rw [cancelling_record_of_runEvents, runEvents_dispatchMessages] at hc
    generalize i.input = input at h
    cases h
    cases hc

theorem endedOrSettling_of_decided (h : EndedOrSettling execution x before)
    (hkeeps : x.keepsSettling execution before i.input = true)
    (hdecided : Decided d x i.now i.input msgs) (happ : Appended execution x i msgs before after) :
    EndedOrSettling execution (x.record msgs) after := by
  rcases h with hend | hsettling
  · exact Or.inl (terminal_of_runMove (runMove_of_decided hdecided) hend)
  · cases hend : x.state.stateType.isTerminal with
    | true => exact Or.inl (terminal_of_runMove (runMove_of_decided hdecided) hend)
    | false =>
      rw [keepsSettling, hend, Bool.false_or] at hkeeps
      cases hopen : (x.record msgs).state.stateType.isTerminal with
      | true => exact Or.inl hopen
      | false =>
        exact Or.inr ⟨attended_of_appended happ hkeeps hsettling.attended, fun hc =>
          inFlight_of_decided happ.wellFormed hdecided hkeeps hsettling.inFlight hc hopen⟩

theorem attended_congr (hrows : ∀ k : AttemptKey, after[k]?.isSome = before[k]?.isSome) (t : String)
    (s : StepState) : attended execution after t s = attended execution before t s := by
  rw [attended, hrows]
  rfl

/-- **A run being cancelled can always settle**, over every run whose inputs keep it so: until it
ends, a step in flight has a row for its current attempt or a question open. -/
theorem cancelling_run_can_settle (d : Digests) (execution : String) (is : List ClaimedInput)
    (h : ∀ st ∈ (claimMachine d execution).run .start is, ∀ x i, st.before.run = .active x →
      st.input = .deliver i → x.keepsSettling execution st.before.claims i.input = true) :
    ∀ st ∈ (claimMachine d execution).run .start is, ∀ y, st.after.run = .active y →
      y.cancelling = true → y.state.stateType.isTerminal = false →
        ∃ t s, y.step t = some s ∧
          (s.state.stateType = .running ∨ s.state.stateType = .awaitingInput) ∧
          (st.after.claims[AttemptKey.mk execution t s.currentAttempt]?.isSome = true ∨
            s.awaiting.isSome = true) := by
  have hsettling := claim_run_rule (P := EndedOrSettling execution)
    (fun state input => ∀ x i, state.run = .active x → input = .deliver i →
      x.keepsSettling execution state.claims i.input = true)
    (fun i x before after _ hopens happ => Or.inr (settling_of_opens hopens happ))
    (fun i x msgs before after hP hkeeps hdecided happ =>
      endedOrSettling_of_decided hP (hkeeps x i rfl rfl) hdecided happ)
    (fun x before after hP hrows => hP.imp_right fun hs =>
      ⟨fun t s hstep hflight => (attended_congr hrows t s).trans (hs.attended t s hstep hflight),
        hs.inFlight⟩) h
  intro st hst y hy hc hopen
  rcases ((ClaimedRun.holds_active hy).mp (hsettling st hst).2).2 with hend | hsettled
  · rw [hopen] at hend
    cases hend
  · obtain ⟨t, s, hs, hflight⟩ := hsettled.inFlight hc
    have hreport := hsettled.attended t s hs hflight
    rw [attended, Bool.or_eq_true] at hreport
    refine ⟨t, s, hs, ?_, hreport⟩
    unfold StepState.inFlight at hflight
    cases hst : s.state.stateType <;> simp_all

/-- Two steps claimed, one of them started when the cancel arrives, and its report. -/
def cancelledWhileClaimed : List ClaimedInput :=
  [.deliver ⟨startOf (planOf [workerStep "left", workerStep "right"] []), "start", 0⟩,
    .claim ⟨none, [], ["default"], ["task@1"]⟩ "first worker" 1,
    .claim ⟨none, [], ["default"], ["task@1"]⟩ "second worker" 2,
    .deliver ⟨.event (.stepStarted "left" 1), "left started", 3⟩,
    .deliver ⟨.command (.cancelExecution "no longer wanted"), "cancel", 4⟩,
    .heartbeat ⟨"run", "left", 1⟩ "first worker" 5,
    .deliver ⟨.event (.stepCompleted "left" 1 [] none), "left completed", 6⟩]

theorem cancelledWhileClaimed_settles :
    (claimMachine plainDigests "run").accepts .start cancelledWhileClaimed = true ∧
      ∀ st ∈ (claimMachine plainDigests "run").run .start cancelledWhileClaimed,
      ∀ y, st.after.run = .active y → y.cancelling = true →
        y.state.stateType.isTerminal = false →
        ∃ t s, y.step t = some s ∧
          (s.state.stateType = .running ∨ s.state.stateType = .awaitingInput) ∧
          (st.after.claims[AttemptKey.mk "run" t s.currentAttempt]?.isSome = true ∨
            s.awaiting.isSome = true) :=
  ⟨by decide +kernel, cancelling_run_can_settle plainDigests "run" cancelledWhileClaimed
    (forall_delivery_of_all (f := fun claims x input => x.keepsSettling "run" claims input)
      (by decide +kernel))⟩

/-- The second worker starts what the cancel had skipped, and the first one completes. -/
def startedAfterTheCancel : List ClaimedInput :=
  [.deliver ⟨startOf (planOf [workerStep "left", workerStep "right"] []), "start", 0⟩,
    .claim ⟨none, [], ["default"], ["task@1"]⟩ "first worker" 1,
    .claim ⟨none, [], ["default"], ["task@1"]⟩ "second worker" 2,
    .deliver ⟨.event (.stepStarted "left" 1), "left started", 3⟩,
    .deliver ⟨.command (.cancelExecution "no longer wanted"), "cancel", 4⟩,
    .deliver ⟨.event (.stepStarted "right" 1), "right started", 5⟩,
    .deliver ⟨.event (.stepCompleted "left" 1 [] none), "left completed", 6⟩]

/-- The run is still being cancelled, and nobody can report on what is in flight. -/
theorem late_start_leaves_nobody_to_report :
    ∃ st ∈ (claimMachine plainDigests "run").run .start startedAfterTheCancel, ∃ y,
      st.after.run = .active y ∧ y.cancelling = true ∧ y.state.stateType.isTerminal = false ∧
        ∀ t s, y.step t = some s → s.inFlight = true →
          st.after.claims[AttemptKey.mk "run" t s.currentAttempt]?.isSome = false ∧
            s.awaiting.isSome = false := by
  have hrun : ((claimMachine plainDigests "run").run .start startedAfterTheCancel).any (fun st =>
      st.after.run.isActive.any fun y => (y.cancelling && !y.state.stateType.isTerminal) &&
        y.steps.toList.all fun step =>
          !step.2.inFlight || !attended "run" st.after.claims step.1 step.2) = true := by
    decide +kernel
  obtain ⟨st, hst, hafter⟩ := List.any_eq_true.mp hrun
  obtain ⟨y, hy, hboth⟩ := active_of_any hafter
  simp only [Bool.and_eq_true, Bool.not_eq_true'] at hboth
  obtain ⟨⟨hc, hopen⟩, hall⟩ := hboth
  refine ⟨st, hst, y, hy, hc, hopen, fun t s hs hflight => ?_⟩
  have hmem : (t, s) ∈ y.steps.toList := Std.ExtTreeMap.mem_toList_iff_getElem?_eq_some.mpr hs
  have hone := List.all_eq_true.mp hall (t, s) hmem
  rw [hflight] at hone
  simpa [attended] using hone

end Aiwatcher.Engine
