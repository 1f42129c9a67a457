import Aiwatcher.Engine.Ahead

/-!
# Aiwatcher.Engine.Pausing

One input in a run that may be paused and in the run it would be otherwise: whatever both
accept, each step of the plan is `Kept`.  A report about one step says the same in both;
a completion dispatches in the second what the pause of the first holds back; and an input
that ends a pause finds nothing held back.
-/

namespace Aiwatcher.Engine

open Library List Execution

variable {d : Digests} {x y : Execution} {now : OffsetDateTime}

/-! ## Decisions that say the same in both runs -/

theorem kept_of_alike {msgs msgs' : List WorkflowMessage} (hnone : ∀ t, x.holds t = false)
    (hnone' : ∀ t, (x.record msgs).holds t = false)
    (halike : ∀ t s, x.step t = some s → Alike (aboutStep t msgs) (aboutStep t msgs')) :
    ∀ t s, x.step t = some s →
      Kept d x (x.record msgs) t (aboutStep t msgs) (aboutStep t msgs') :=
  fun t s hs => .same (hnone t) (hnone' t) (halike t s hs)

theorem kept_of_silent : ∀ t s, x.step t = some s →
    Kept d x (x.record []) t (aboutStep t []) (aboutStep t []) := by
  intro t s _
  cases hholds : x.holds t with
  | false => exact .same hholds hholds rfl
  | true => exact .held hholds hholds

variable {id : String} {msgs : List WorkflowMessage}

theorem hasCompleted_record_of_untouched {t : String} (h : aboutStep t msgs = []) :
    (x.record msgs).hasCompleted t = x.hasCompleted t := by
  rw [hasCompleted, step_record, h]
  exact congrArg _ Option.map_id'

/-- What is held back stays so when only one step is spoken of, unless a parent of a step
held back is no longer completed. -/
theorem holds_record_of_local
    (hall : ∀ m ∈ msgs, m.stepId? = some id)
    (hdone : (x.record msgs).hasCompleted id = x.hasCompleted id ∨
      ((x.record msgs).hasCompleted id = false ∧
        ∀ t, x.holds t = true → id ∉ x.plan.parentsOf t))
    {t : String} (ht : id ≠ t) : (x.record msgs).holds t = x.holds t := by
  have hrun : runEvents msgs = [] := runEvents_of_forall_step fun m hm => ⟨id, hall m hm⟩
  have hstate : (x.record msgs).state = x.state := by
    rw [state_record_of_runEvents, hrun]
    rfl
  have hcancelling : (x.record msgs).cancelling = x.cancelling := by
    rw [cancelling_record_of_runEvents, hrun]
    exact Bool.or_false _
  have hother : ∀ u, id ≠ u → aboutStep u msgs = [] := fun u hu =>
    aboutStep_of_forall_ne fun m hm => by simpa [hall m hm] using hu
  have hstep : (x.record msgs).step t = x.step t := by
    rw [step_record, hother t ht]
    exact Option.map_id'
  unfold holds
  rw [hstate, hcancelling, mode_record]
  cases hpause : (x.state.stateType == .paused && x.mode == .compiled && !x.cancelling) with
  | false => rfl
  | true =>
    rw [Bool.true_and, Bool.true_and]
    unfold isReady
    rw [hstep, plan_record]
    cases hst : (x.step t).any (fun s => s.state.stateType == .scheduled) with
    | false => rfl
    | true =>
      rw [Bool.true_and, Bool.true_and]
      show (x.plan.parentsOf t).all (x.record msgs).hasCompleted =
        (x.plan.parentsOf t).all x.hasCompleted
      have hsame : ∀ p, id ≠ p → (x.record msgs).hasCompleted p = x.hasCompleted p :=
        fun p hp => hasCompleted_record_of_untouched (hother p hp)
      rcases hdone with hdone | ⟨hdone, hfree⟩
      · congr 1
        funext p
        by_cases hp : id = p
        · exact hp ▸ hdone
        · exact hsame p hp
      · by_cases hmem : id ∈ x.plan.parentsOf t
        · have hbefore : (x.plan.parentsOf t).all x.hasCompleted = false := by
            by_contra hready
            rw [Bool.not_eq_false] at hready
            refine hfree t ?_ hmem
            rw [holds, hpause, isReady, hst]
            exact hready
          rw [hbefore]
          exact all_eq_false.mpr ⟨id, hmem, by simp [hdone]⟩
        · rw [Bool.eq_iff_iff, all_eq_true, all_eq_true]
          refine forall_congr' fun p => forall_congr' fun hp => ?_
          rw [hsame p fun hid => hmem (hid ▸ hp)]

theorem kept_of_local {msgs msgs' : List WorkflowMessage}
    (hid : x.holds id = false) (hid' : (x.record msgs).holds id = false)
    (hall : ∀ m ∈ msgs, m.stepId? = some id) (hall' : ∀ m ∈ msgs', m.stepId? = some id)
    (halike : Alike msgs msgs')
    (hdone : (x.record msgs).hasCompleted id = x.hasCompleted id ∨
      ((x.record msgs).hasCompleted id = false ∧
        ∀ t, x.holds t = true → id ∉ x.plan.parentsOf t)) :
    ∀ t s, x.step t = some s →
      Kept d x (x.record msgs) t (aboutStep t msgs) (aboutStep t msgs') := by
  intro t s _
  by_cases ht : id = t
  · subst ht
    rw [aboutStep_of_forall_eq hall, aboutStep_of_forall_eq hall']
    exact .same hid hid' halike
  · have hafter := holds_record_of_local hall hdone ht
    rw [aboutStep_of_forall_ne fun m hm => by simpa [hall m hm],
      aboutStep_of_forall_ne fun m hm => by simpa [hall' m hm]]
    cases hholds : x.holds t with
    | false => exact .same hholds (hafter.trans hholds) rfl
    | true => exact .held hholds (hafter.trans hholds)

/-! ## Completions -/

section follow

variable {id : String} {s s' : StepState} {front front' : List WorkflowMessage}

theorem aboutStep_followMessages (hs : x.step id = some s) (t : String) :
    aboutStep t (followMessages d x id now) =
      if x.dispatches ∧ x.waitsOnlyFor id t then (completedAt x id).firstDispatch d t now else [] := by
  rw [followMessages, aboutStep_append, aboutStep_completionEnd, append_nil,
    aboutStep_dispatchMessages, isReady_completedAt hs]
  rfl

theorem alike_followMessages (h : Ahead d x y) (hs : x.step id = some s)
    (hs' : y.step id = some s') (hpaused : x.state.stateType ≠ .paused) (t : String) :
    Alike (aboutStep t (followMessages d x id now)) (aboutStep t (followMessages d y id now)) := by
  have hdispatches : y.dispatches = x.dispatches := by
    rw [dispatches, dispatches, h.sameRun.mode, h.cancelling,
      bne_iff_ne.mpr hpaused, bne_iff_ne.mpr h.unpaused]
  have hsame : SameRun (completedAt x id) (completedAt y id) :=
    ⟨h.sameRun.plan, h.sameRun.executionId, h.sameRun.mode⟩
  rw [aboutStep_followMessages hs, aboutStep_followMessages hs', hdispatches, h.waitsOnlyFor_eq,
    holds_eq_false_of_unpaused hpaused, Bool.not_false, Bool.and_true]
  split
  · exact alike_firstDispatch hsame t now now
  · rfl

theorem aboutStep_front_self (hs : x.step id = some s) (hfront : ∀ m ∈ front, m.stepId? = some id) :
    aboutStep id (front ++ followMessages d x id now) = front := by
  rw [aboutStep_append, aboutStep_of_forall_eq hfront, aboutStep_followMessages hs, if_neg,
    append_nil]
  simp [waitsOnlyFor]

section

variable (hfront : ∀ m ∈ front, m.stepId? = some id)

include hfront

theorem aboutStep_front_of_ne {t : String} (ht : id ≠ t) :
    aboutStep t (front ++ followMessages d x id now) =
      aboutStep t (followMessages d x id now) := by
  rw [aboutStep_append, aboutStep_of_forall_ne fun m hm => by simpa [hfront m hm], nil_append]

theorem runEvents_front :
    runEvents (front ++ followMessages d x id now) = runEvents (followMessages d x id now) := by
  rw [runEvents_append, runEvents_of_forall_step fun m hm => ⟨id, hfront m hm⟩, nil_append]

/-- A completion does not pause a run, and ends one it leaves nothing to do in. -/
theorem unpaused_front
    (h : x.state.stateType ≠ .paused ∨ (x.cancelling = false ∧ x.doneAfter id = true)) :
    (x.record (front ++ followMessages d x id now)).state.stateType ≠ .paused := by
  rw [state_record_of_runEvents, runEvents_front hfront, runEvents_followMessages]
  rcases h with h | ⟨hc, hend⟩
  · split
    · split
      · simp [WorkflowEvent.runState?]
      · exact h
    · split
      · simp [WorkflowEvent.runState?]
      · exact h
  · rw [hc, hend]
    simp [WorkflowEvent.runState?]

end

theorem holds_front (hs : x.step id = some s) (hpaused : x.state.stateType = .paused)
    (hmode : x.mode = .compiled) (hc : x.cancelling = false)
    (hfront : ∀ m ∈ front, m.stepId? = some id)
    (hdone : (s.record front).state.stateType = .completed) (hopen : x.doneAfter id = false)
    {t : String} (ht : id ≠ t) :
    (x.record (front ++ followMessages d x id now)).holds t = x.waitsOnlyFor id t := by
  have hrun : runEvents (front ++ followMessages d x id now) = [] := by
    rw [runEvents_front hfront, runEvents_followMessages, hc, hopen]
    rfl
  have hother : ∀ u, id ≠ u → aboutStep u (front ++ followMessages d x id now) = [] := by
    intro u hu
    rw [aboutStep_front_of_ne hfront hu, aboutStep_followMessages hs, if_neg]
    simp [dispatches, hpaused]
  have hparent : (x.record (front ++ followMessages d x id now)).hasCompleted =
      x.completedWith id := by
    funext p
    by_cases hp : id = p
    · subst hp
      rw [hasCompleted, step_record_of_some hs, aboutStep_front_self hs hfront]
      simp [completedWith, hdone]
    · rw [hasCompleted_record_of_untouched (hother p hp), completedWith,
        beq_false_of_ne (Ne.symm hp), Bool.false_or]
      rfl
  have hready : isReady (x.record (front ++ followMessages d x id now)) t = x.waitsOnlyFor id t := by
    rw [isReady, waitsOnlyFor, step_record, hother t ht, plan_record,
      bne_iff_ne.mpr (Ne.symm ht), Bool.true_and, ← hparent]
    congr 1
    cases x.step t <;> rfl
  rw [holds, hready, state_record_of_runEvents, cancelling_record_of_runEvents, hrun,
    mode_record, hmode, hc]
  simp [hpaused]

/-- A completion in a run that is not paused goes on as in the other; a paused run holds
back what the other dispatches, unless the completion ends it. -/
theorem kept_of_follow (h : Ahead d x y) (hs : x.step id = some s) (hs' : y.step id = some s')
    (hid : x.holds id = false) (hfront : ∀ m ∈ front, m.stepId? = some id)
    (hfront' : ∀ m ∈ front', m.stepId? = some id) (halike : Alike front front')
    (hdone : (s.record front).state.stateType = .completed) :
    ∀ t s, x.step t = some s →
      Kept d x (x.record (front ++ followMessages d x id now)) t
        (aboutStep t (front ++ followMessages d x id now))
        (aboutStep t (front' ++ followMessages d y id now)) := by
  intro t st hst
  by_cases ht : id = t
  · subst ht
    rw [aboutStep_front_self hs hfront, aboutStep_front_self hs' hfront']
    refine .same hid ?_ halike
    have hafter := @step_record_of_some x s id hs (front ++ followMessages d x id now)
    rw [aboutStep_front_self hs hfront] at hafter
    exact Ahead.not_holds_of_state hafter (by simp [hdone])
  rw [aboutStep_front_of_ne hfront ht, aboutStep_front_of_ne hfront' ht]
  by_cases hpaused : x.state.stateType = .paused
  swap
  · refine .same (holds_eq_false_of_unpaused hpaused t) (holds_eq_false_of_unpaused ?_ t)
      (alike_followMessages h hs hs' hpaused t)
    exact unpaused_front hfront (Or.inl hpaused)
  have hnil : aboutStep t (followMessages d x id now) = [] := by
    rw [aboutStep_followMessages hs, if_neg]
    simp [dispatches, hpaused]
  rw [hnil, aboutStep_followMessages hs', h.waitsOnlyFor_eq]
  by_cases hmode : x.mode = .compiled ∧ x.cancelling = false
  swap
  · -- neither run dispatches, so nothing is held back
    have hd : y.dispatches = false := by
      rw [dispatches, h.sameRun.mode, h.cancelling]
      cases hm : x.mode <;> cases hc : x.cancelling <;> simp_all
    have hnone : ∀ z : Execution, z.mode = x.mode → (x.cancelling = true → z.cancelling = true) →
        z.holds t = false := by
      intro z hzm hzc
      unfold holds
      cases hm : x.mode <;> cases hc : x.cancelling <;> simp_all
    rw [hd, if_neg fun h => Bool.false_ne_true h.1]
    refine .same (hnone x rfl fun h => h) (hnone _ (mode_record ..) ?_) rfl
    intro hc
    rw [cancelling_record, hc]
    rfl
  have hd : y.dispatches = true := by
    rw [dispatches, h.sameRun.mode, h.cancelling, hmode.1, hmode.2, bne_iff_ne.mpr h.unpaused]
    rfl
  rw [hd]
  cases hend : x.doneAfter id with
  | true =>
    -- every step has completed: nothing waits any more
    have hmem : st ∈ BTreeMap.values (completedAt x id).steps :=
      mem_values_steps.mpr ⟨t, by rw [step_completedAt, if_neg ht, hst]⟩
    have hstate : st.state.stateType = .completed := by
      simpa using all_eq_true.mp hend st hmem
    have hwaits : x.waitsOnlyFor id t = false := by
      simp [waitsOnlyFor, hst, hstate]
    rw [hwaits, if_neg (by simp)]
    refine .same (Ahead.not_holds_of_state hst (by simp [hstate]))
      (holds_eq_false_of_unpaused ?_ t) rfl
    exact unpaused_front hfront (Or.inr ⟨hmode.2, hend⟩)
  | false =>
    have hafter := @holds_front d x now id s front hs hpaused hmode.1 hmode.2 hfront hdone hend t ht
    cases hholds : x.holds t with
    | true =>
      obtain ⟨hfresh, hparents⟩ := Bool.and_eq_true_iff.mp (isReady_of_holds hholds)
      have hwaits : x.waitsOnlyFor id t = true := by
        rw [waitsOnlyFor, bne_iff_ne.mpr (Ne.symm ht), hfresh]
        refine all_eq_true.mpr fun p hp => Bool.or_eq_true_iff.mpr (Or.inr ?_)
        exact all_eq_true.mp hparents p hp
      rw [hwaits, if_neg (by simp)]
      exact .held hholds (hafter.trans hwaits)
    | false =>
      cases hwaits : x.waitsOnlyFor id t with
      | false =>
        rw [if_neg (by simp)]
        exact .same hholds (hafter.trans hwaits) rfl
      | true =>
        rw [if_pos (by simp)]
        refine .taken hholds (hafter.trans hwaits) (alike_firstDispatch ?_ t 0 now)
        exact ⟨h.sameRun.plan, h.sameRun.executionId, h.sameRun.mode⟩

theorem runEvents_follow_eq (h : Ahead d x y) (hs : x.step id = some s)
    (hs' : y.step id = some s') :
    runEvents (followMessages d y id now) = runEvents (followMessages d x id now) := by
  have hwf := wellFormed_completedAt h.wellFormed id
  have hwf' := wellFormed_completedAt h.wellFormed' id
  have hdone : y.doneAfter id = x.doneAfter id := by
    unfold doneAfter
    rw [all_values_steps hwf', all_values_steps hwf, plan_completedAt, plan_completedAt,
      h.sameRun.plan]
    congr 1
    funext t
    rw [any_step_completedAt hs t (· == .completed), any_step_completedAt hs' t (· == .completed)]
    exact if_congr Iff.rfl rfl (h.hasCompleted_eq t)
  have hidle : x.cancelling = true → y.idleAfter id = x.idleAfter id := by
    intro hc
    unfold idleAfter
    rw [all_values_steps hwf', all_values_steps hwf, plan_completedAt, plan_completedAt,
      h.sameRun.plan]
    congr 1
    funext t
    rw [any_step_completedAt hs t (· != .running), any_step_completedAt hs' t (· != .running)]
    refine if_congr Iff.rfl rfl (h.any_state_eq (t := t) ?_ (· != .running))
    simp [holds, hc]
  rw [runEvents_followMessages, runEvents_followMessages, h.cancelling, hdone]
  cases hc : x.cancelling with
  | true => rw [hidle hc]
  | false => rfl

end follow

/-! ## Cancels and failures -/

theorem alike_cancelMessages (h : Ahead d x y) (hnone : ∀ t, x.holds t = false) (reason : String) :
    (∀ t s, x.step t = some s →
        Alike (aboutStep t (.event (.executionCancelling reason) :: cancelMessages x))
          (aboutStep t (.event (.executionCancelling reason) :: cancelMessages y))) ∧
      runEvents (.event (.executionCancelling reason) :: cancelMessages y) =
        runEvents (.event (.executionCancelling reason) :: cancelMessages x) := by
  constructor
  · intro t s hs
    obtain ⟨s', hs'⟩ := h.exists_step hs
    have hsame := h.same t s s' (hnone t) hs hs'
    rw [aboutStep_cons_of_ne (by simp [WorkflowMessage.stepId?, WorkflowEvent.stepId?]),
      aboutStep_cons_of_ne (by simp [WorkflowMessage.stepId?, WorkflowEvent.stepId?]),
      aboutStep_cancelMessages h.wellFormed hs, aboutStep_cancelMessages h.wellFormed' hs',
      cancelStepMessages, cancelStepMessages, state_of_timeless hsame, stepId_of_timeless hsame]
    exact .refl _
  · have hflight : (BTreeMap.values y.steps).any StepState.inFlight =
        (BTreeMap.values x.steps).any StepState.inFlight := by
      rw [any_eq_not_all_not, any_eq_not_all_not, all_values_steps h.wellFormed',
        all_values_steps h.wellFormed, h.sameRun.plan]
      congr 2
      funext t
      have hinFlight : ∀ s : StepState,
          s.inFlight = (s.state.stateType == .running || s.state.stateType == .awaitingInput) := by
        intro s
        unfold StepState.inFlight
        cases s.state.stateType <;> rfl
      simp only [hinFlight]
      exact h.any_state_eq (hnone t) fun st => !(st == .running || st == .awaitingInput)
    have hskips : ∀ z : Execution,
        runEvents ((BTreeMap.values z.steps).flatMap cancelStepMessages) = [] := by
      intro z
      refine runEvents_of_forall_step fun m hm => ?_
      obtain ⟨s, -, hm⟩ := mem_flatMap.mp hm
      exact ⟨_, stepId?_of_mem_cancelStepMessages hm⟩
    show .executionCancelling reason :: runEvents (cancelMessages y) =
      .executionCancelling reason :: runEvents (cancelMessages x)
    rw [cancelMessages, cancelMessages, runEvents_append, runEvents_append, hskips, hskips, hflight]

theorem settleMessages_eq (h : Ahead d x y) (hnone : ∀ t, x.holds t = false) (id : String)
    (n : UInt32) (error : StepError) : settleMessages y id n error = settleMessages x id n error := by
  have hopen : ∀ t, (settledAt y id n error).hasOpen t = (settledAt x id n error).hasOpen t := by
    intro t
    by_cases ht : id = t
    · subst ht
      rw [hasOpen_settledAt_self, hasOpen_settledAt_self]
    · rw [hasOpen_settledAt_of_ne ht, hasOpen_settledAt_of_ne ht]
      exact h.any_state_eq (hnone t) fun st => !st.isTerminal
  have hplan : (settledAt y id n error).plan = (settledAt x id n error).plan := h.sameRun.plan
  unfold settleMessages skipMessages failureEnd
  rw [hplan, h.cancelling]
  simp only [hopen]

/-! ## Every decision -/

def WorkflowMessage.isPauseOrResume : WorkflowMessage → Bool
  | .command .pauseExecution | .command .resumeExecution => true
  | _ => false

/-- Whether an input that reaches a paused run dispatches nothing and leaves what is held
back ready: no failure that is retried, no retry, no answer to a worker's question, and no
start of a completed step that a step held back waited for. -/
def Execution.pausesCleanly (x : Execution) : WorkflowMessage → Bool
  | .event (.stepFailed id _ error) => !x.retriesFailure id error
  | .event (.stepStarted id _) =>
    !(x.hasCompleted id &&
      x.plan.ids.any fun t => x.holds t && (x.plan.parentsOf t).contains id)
  | .command (.retryStep id) => x.plan.asksSomebody id
  | input => !x.resumesBy input

theorem unpaused_of_decided {input : WorkflowMessage} (h : Decided d x now input msgs)
    (hin : input.isPauseOrResume = false) (hpaused : x.state.stateType ≠ .paused) :
    (x.record msgs).state.stateType ≠ .paused := by
  rw [state_record_of_runEvents]
  have hrun := runMove_of_decided h
  generalize runEvents msgs = es at hrun ⊢
  cases hrun with
  | quiet => exact hpaused
  | paused _ _ => cases hin
  | resumed _ => cases hin
  | failed _ _ =>
    unfold failureEnd
    split <;> simp [WorkflowEvent.runState?]
  | _ => simp [WorkflowEvent.runState?]

theorem runEvents_of_paused {input : WorkflowMessage} (h : Decided d x now input msgs)
    (hin : input.isPauseOrResume = false) (hpaused : (x.record msgs).state.stateType = .paused) :
    runEvents msgs = [] := by
  rw [state_record_of_runEvents] at hpaused
  have hrun := runMove_of_decided h
  generalize runEvents msgs = es at hrun hpaused ⊢
  cases hrun with
  | quiet => rfl
  | paused _ _ => cases hin
  | resumed _ => cases hin
  | failed _ _ =>
    unfold failureEnd at hpaused
    split at hpaused <;> simp [WorkflowEvent.runState?] at hpaused
  | _ => simp [WorkflowEvent.runState?] at hpaused

/-- The runs agree on how a question lapses, -/
theorem timeoutPolicy_eq (h : Ahead d x y) {s s' : StepState} {request request' : InputRequest}
    (hs : x.step id = some s) (hs' : y.step id = some s') (hopen : s.awaiting = some request)
    (hopen' : s'.awaiting = some request') :
    timeoutPolicy y id request' = timeoutPolicy x id request := by
  have hholds := h.not_holds_of_open hs (by simp [hopen])
  have hawaiting := awaiting_of_timeless (h.same id s s' hholds hs hs')
  rw [hopen, hopen', Option.map_some, Option.map_some, Option.some.injEq] at hawaiting
  have hpolicy := congrArg InputRequest.onTimeout hawaiting
  have hpolicy : request'.onTimeout = request.onTimeout := hpolicy
  rw [timeoutPolicy, timeoutPolicy, hpolicy, h.sameRun.plan]

theorem mayRetry_eq (h : Ahead d x y) {s s' : StepState} (hs : x.step id = some s)
    (hs' : y.step id = some s') (hholds : x.holds id = false) (p : PlanStep) (error : StepError) :
    mayRetry y p s' error = mayRetry x p s error := by
  have hattempts := attempts_of_timeless (h.same id s s' hholds hs hs')
  rw [mayRetry, mayRetry, attemptsSpent, attemptsSpent, hattempts, h.cancelling]

section decision

variable {msgs msgs' : List WorkflowMessage} {id : String} {s s' : StepState}

theorem none_held (hresumes : ∀ t, x.holds t = true → (x.record msgs).state.stateType = .paused)
    (hleaves : (x.record msgs).state.stateType ≠ .paused) :
    (∀ t, x.holds t = false) ∧ ∀ t, (x.record msgs).holds t = false :=
  ⟨fun t => Bool.not_eq_true _ ▸ fun hholds => hleaves (hresumes t hholds),
    holds_eq_false_of_unpaused hleaves⟩

theorem kept_of_report (hs : x.step id = some s) (hid : x.holds id = false)
    (hall : ∀ m ∈ msgs, m.stepId? = some id) (hall' : ∀ m ∈ msgs', m.stepId? = some id)
    (halike : Alike msgs msgs') (hst : (s.record msgs).state.stateType ≠ .scheduled)
    (hdone : x.state.stateType = .paused →
      (x.record msgs).hasCompleted id = x.hasCompleted id ∨
        ((x.record msgs).hasCompleted id = false ∧
          ∀ t, x.holds t = true → id ∉ x.plan.parentsOf t)) :
    (∀ t s, x.step t = some s →
        Kept d x (x.record msgs) t (aboutStep t msgs) (aboutStep t msgs')) ∧
      runEvents msgs' = runEvents msgs := by
  have hrun : runEvents msgs = [] := runEvents_of_forall_step fun m hm => ⟨id, hall m hm⟩
  have hrun' : runEvents msgs' = [] := runEvents_of_forall_step fun m hm => ⟨id, hall' m hm⟩
  refine ⟨?_, hrun'.trans hrun.symm⟩
  by_cases hpaused : x.state.stateType = .paused
  · have hafter := step_record_of_some hs msgs
    rw [aboutStep_of_forall_eq hall] at hafter
    exact kept_of_local hid (Ahead.not_holds_of_state hafter hst) hall hall' halike (hdone hpaused)
  · have hstate : (x.record msgs).state = x.state := by
      rw [state_record_of_runEvents, hrun]
      rfl
    refine kept_of_alike (holds_eq_false_of_unpaused hpaused)
      (holds_eq_false_of_unpaused (by rwa [hstate])) fun t _ _ => ?_
    by_cases ht : id = t
    · subst ht
      rwa [aboutStep_of_forall_eq hall, aboutStep_of_forall_eq hall']
    · rw [aboutStep_of_forall_ne fun m hm => by simpa [hall m hm],
        aboutStep_of_forall_ne fun m hm => by simpa [hall' m hm]]
      exact .refl _

theorem kept_of_completion (h : Ahead d x y) (hs : x.step id = some s) (hs' : y.step id = some s')
    (hid : x.holds id = false) {front : List WorkflowMessage}
    (hfront : ∀ m ∈ front, m.stepId? = some id)
    (hdone : (s.record front).state.stateType = .completed) :
    (∀ t s, x.step t = some s →
        Kept d x (x.record (front ++ followMessages d x id now)) t
          (aboutStep t (front ++ followMessages d x id now))
          (aboutStep t (front ++ followMessages d y id now))) ∧
      runEvents (front ++ followMessages d y id now) =
        runEvents (front ++ followMessages d x id now) := by
  refine ⟨kept_of_follow h hs hs' hid hfront hfront (.refl _) hdone, ?_⟩
  rw [runEvents_front hfront, runEvents_front hfront]
  exact runEvents_follow_eq h hs hs'

/-- An answer, whoever gave it. -/
theorem kept_of_answer (h : Ahead d x y) (hs : x.step id = some s) (hs' : y.step id = some s')
    (hopen : s.awaiting ≠ none) {n : UInt32} {answeredBy : String} {response : Value}
    (hclean : x.state.stateType = .paused → x.answerReschedules id = false) :
    (∀ t s, x.step t = some s →
        Kept d x (x.record (.event (.inputProvided id n answeredBy response) ::
            answerMessages d x id n answeredBy response now)) t
          (aboutStep t (.event (.inputProvided id n answeredBy response) ::
            answerMessages d x id n answeredBy response now))
          (aboutStep t (.event (.inputProvided id n answeredBy response) ::
            answerMessages d y id n answeredBy response now))) ∧
      runEvents (.event (.inputProvided id n answeredBy response) ::
          answerMessages d y id n answeredBy response now) =
        runEvents (.event (.inputProvided id n answeredBy response) ::
          answerMessages d x id n answeredBy response now) := by
  have hid := h.not_holds_of_open hs hopen
  have hnot : s.state.stateType ≠ .scheduled := fun hst => hopen (h.unscheduled id s hs hst).2
  unfold answerMessages
  rw [h.sameRun.plan, h.sameRun.mode]
  cases hasks : x.plan.asksSomebody id with
  | true =>
    refine @kept_of_completion d x y now id s s' h hs hs' hid [.event (.inputProvided id n
      answeredBy response), .event (.stepCompleted id n [] (some response))] ?_ rfl
    intro m hm
    simp only [mem_cons, not_mem_nil, or_false] at hm
    rcases hm with rfl | rfl <;> rfl
  | false =>
    cases hmode : x.mode with
    | hosted =>
      have hall : ∀ m ∈ [WorkflowMessage.event (.inputProvided id n answeredBy response)],
          m.stepId? = some id := by
        intro m hm
        rw [mem_singleton.mp hm]
        rfl
      refine @kept_of_report d x [.event (.inputProvided id n answeredBy response)]
        [.event (.inputProvided id n answeredBy response)] id s hs hid hall hall (.refl _) hnot
        fun _ => Or.inl ?_
      rw [hasCompleted, step_record_of_some hs, aboutStep_of_forall_eq hall, hasCompleted, hs]
      rfl
    | compiled =>
      have hsame : SameRun (answeredAt x id n answeredBy response)
          (answeredAt y id n answeredBy response) :=
        ⟨h.sameRun.plan, h.sameRun.executionId, h.sameRun.mode⟩
      have hall : ∀ z : Execution, ∀ m ∈ WorkflowMessage.event
          (.inputProvided id n answeredBy response) ::
            scheduleMessages d (answeredAt z id n answeredBy response) id (n + 1) now,
          m.stepId? = some id := by
        intro z m hm
        rcases mem_cons.mp hm with rfl | hm
        · rfl
        · exact stepId?_of_mem_scheduleMessages hm
      obtain ⟨p, hp⟩ := mem_ids_of_step h.wellFormed hs
      have hp' : (answeredAt x id n answeredBy response).plan.step id = some p := hp
      refine kept_of_report hs hid (hall x) (hall y)
        (.cons _ (alike_scheduleMessages hsame id (n + 1) now now)) ?_ fun hpaused => ?_
      · rw [StepState.record_cons_event, scheduleMessages_of_step hp']
        exact not_scheduled_of_mem mem_cons_self
      · have hno := hclean hpaused
        rw [answerReschedules, hasks, hmode] at hno
        cases hno

theorem kept_of_settle (h : Ahead d x y) (n : UInt32) (error : StepError)
    (hresumes : ∀ t, x.holds t = true → (x.record (.event (.stepFailed id n error) ::
      settleMessages x id n error)).state.stateType = .paused) :
    (∀ t, x.holds t = false) ∧
      (∀ t s, x.step t = some s →
        Kept d x (x.record (.event (.stepFailed id n error) :: settleMessages x id n error)) t
          (aboutStep t (.event (.stepFailed id n error) :: settleMessages x id n error))
          (aboutStep t (.event (.stepFailed id n error) :: settleMessages y id n error))) ∧
      runEvents (.event (.stepFailed id n error) :: settleMessages y id n error) =
        runEvents (.event (.stepFailed id n error) :: settleMessages x id n error) := by
  have hleaves : (x.record (.event (.stepFailed id n error) ::
      settleMessages x id n error)).state.stateType ≠ .paused := by
    have hrun : runEvents (.event (.stepFailed id n error) :: settleMessages x id n error) =
        [failureEnd x id error] := by
      have hend : runEvents [.event (failureEnd x id error)] = [failureEnd x id error] := by
        unfold failureEnd
        split <;> rfl
      show runEvents (settleMessages x id n error) = _
      rw [settleMessages, runEvents_append, runEvents_skipMessages, hend, nil_append]
    rw [state_record_of_runEvents, hrun]
    unfold failureEnd
    split <;> simp [WorkflowEvent.runState?]
  obtain ⟨hnone, hnone'⟩ := none_held hresumes hleaves
  rw [settleMessages_eq h hnone]
  exact ⟨hnone, kept_of_alike hnone hnone' fun _ _ _ => .refl _, rfl⟩

/-- **One input, both runs**: what each run says about a step keeps the one the run the
other would be. -/
theorem kept_of_decided (h : Ahead d x y) {input : WorkflowMessage}
    (hin : input.isPauseOrResume = false) (hx : Decided d x now input msgs)
    (hy : Decided d y now input msgs')
    (hclean : x.state.stateType = .paused → x.pausesCleanly input = true)
    (hresumes : ∀ t, x.holds t = true → (x.record msgs).state.stateType = .paused) :
    (∀ t s, x.step t = some s →
        Kept d x (x.record msgs) t (aboutStep t msgs) (aboutStep t msgs')) ∧
      runEvents msgs' = runEvents msgs := by
  cases hx with
  | pausedAlready _ => cases hin
  | paused _ _ => cases hin
  | resumed _ => cases hin
  | cancellingAlready _ hc =>
    rw [decided_cancelExecution hy, h.cancelling, hc, if_pos rfl]
    exact ⟨kept_of_silent, rfl⟩
  | @cancelled reason hopen hc =>
    rw [decided_cancelExecution hy, h.cancelling, hc, if_neg Bool.false_ne_true]
    have hleaves : (x.record (.event (.executionCancelling reason) ::
        cancelMessages x)).state.stateType ≠ .paused := by
      intro hpaused
      have hcancelled := @Decided.cancelled d x now reason hopen hc
      cases runEvents_of_paused hcancelled hin hpaused
    obtain ⟨hnone, hnone'⟩ := none_held hresumes hleaves
    obtain ⟨halike, hrun⟩ := alike_cancelMessages h hnone reason
    exact ⟨kept_of_alike hnone hnone' halike, hrun⟩
  | @retried id s hs hfailed _ =>
    obtain ⟨s', hs', -, rfl⟩ := decided_retryStep hy
    have hnot : s.state.stateType ≠ .scheduled := by
      rcases hfailed with hst | hst <;> simp [hst]
    have hid := Ahead.not_holds_of_state hs hnot
    rw [currentAttempt_of_timeless (h.same id s s' hid hs hs')]
    obtain ⟨p, hp⟩ := mem_ids_of_step h.wellFormed hs
    refine kept_of_report hs hid (fun m hm => stepId?_of_mem_scheduleMessages hm)
      (fun m hm => stepId?_of_mem_scheduleMessages hm)
      (alike_scheduleMessages h.sameRun id _ now now) ?_ fun _ => Or.inl ?_
    · rw [scheduleMessages_of_step hp]
      exact not_scheduled_of_mem mem_cons_self
    · rw [hasCompleted, step_record_of_some hs, aboutStep_of_forall_eq fun m hm =>
        stepId?_of_mem_scheduleMessages hm, hasCompleted, hs, scheduleMessages_of_step hp]
      rcases hfailed with hst | hst <;>
        rcases @state_record_attemptMessages s x.executionId id (s.currentAttempt + 1) p
          (scheduledCacheKey d x p id) now with hout | hout <;> simp [hst, hout]
  | answered hs hanswers =>
    rename_i id answeredBy s response
    cases hanswers with
    | provided hopen _ _ =>
      obtain ⟨s', request', hs', -, -, rfl⟩ := decided_provideInput hy
      refine kept_of_answer h hs hs' (by simp [hopen]) fun hpaused => ?_
      simpa [pausesCleanly, resumesBy] using hclean hpaused
    | lapsed hopen hpolicy =>
      obtain ⟨s', request', policy', hs', hopen', -, hpolicy', rfl⟩ := decided_timeoutInput hy
      rw [timeoutPolicy_eq h hs hs' hopen hopen', hpolicy] at hpolicy'
      cases hpolicy'
      refine kept_of_answer h hs hs' (by simp [hopen]) fun hpaused => ?_
      simpa [pausesCleanly, resumesBy, openPolicy_of_step hs hopen, hpolicy,
        OnTimeout.isAnswer] using hclean hpaused
  | @started id s hs =>
    obtain ⟨s', hs', hcurrent, rfl⟩ := decided_stepStarted hy
    have hall : ∀ m ∈ [WorkflowMessage.event (.stepStarted id s.currentAttempt)],
        m.stepId? = some id := fun m hm => mem_singleton.mp hm ▸ rfl
    have hafter : (x.record [.event (.stepStarted id s.currentAttempt)]).hasCompleted id =
        false := by
      rw [hasCompleted, step_record_of_some hs, aboutStep_of_forall_eq hall]
      rfl
    refine kept_of_report hs (h.not_holds_of_current hs hs' hcurrent.symm) hall hall (.refl _)
      (by simp [StepState.apply]) fun hpaused => ?_
    cases hdone : x.hasCompleted id with
    | false => exact Or.inl hafter
    | true =>
      -- no step held back waited for this one
      refine Or.inr ⟨hafter, fun t hholds hmem => ?_⟩
      have hclean := hclean hpaused
      rw [pausesCleanly, hdone, Bool.true_and, Bool.not_eq_true', any_eq_false] at hclean
      have hplanned : t ∈ x.plan.ids := by
        by_contra hnot
        have hnone : x.step t = none := by
          simpa using mt (h.wellFormed.planned t).mp hnot
        simp [isReady, hnone, holds] at hholds
      exact hclean t hplanned (by simp [hholds, hmem])
  | @asked id s request hs hopen =>
    obtain ⟨s', hs', hcurrent, rfl⟩ := decided_inputRequested hy
    have hall : ∀ m ∈ [WorkflowMessage.event (.inputRequested id s.currentAttempt request)],
        m.stepId? = some id := fun m hm => mem_singleton.mp hm ▸ rfl
    refine kept_of_report hs (h.not_holds_of_current hs hs' hcurrent.symm) hall hall (.refl _)
      (by simp [StepState.apply]) fun _ => Or.inl ?_
    have hnot : s.state.stateType ≠ .completed := by
      rintro hdone
      rw [hdone] at hopen
      cases hopen
    rw [hasCompleted, step_record_of_some hs, aboutStep_of_forall_eq hall, hasCompleted, hs]
    simp [StepState.apply, hnot]
  | @repeated _ id s hs hin' hdone =>
    have hid : x.holds id = false := Ahead.not_holds_of_state hs (by simp [hdone])
    have hnil : msgs' = [] := by
      have hagain : ∀ s', y.step id = some s' → s'.state.stateType = .completed := fun s' hs' =>
        state_of_timeless (h.same id s s' hid hs hs') ▸ hdone
      unfold WorkflowMessage.completes? at hin'
      split at hin'
      · cases hin'
        obtain ⟨s', hs', ⟨-, hnil⟩ | ⟨hnot, -, -⟩⟩ := decided_stepCompleted hy
        · exact hnil
        · exact absurd (hagain s' hs') hnot
      · cases hin'
        obtain ⟨s', hs', ⟨-, hnil⟩ | ⟨hnot, -, -⟩⟩ := decided_stepCacheHit hy
        · exact hnil
        · exact absurd (hagain s' hs') hnot
      · cases hin'
    subst hnil
    exact ⟨kept_of_silent, rfl⟩
  | @finished _ id s event hs hfin =>
    -- a step not completed here is not completed there
    have hagain : s.state.stateType ≠ .completed → ∀ s', y.step id = some s' →
        s'.state.stateType ≠ .completed := by
      intro hnot s' hs' hdone
      have heq := h.hasCompleted_eq id
      rw [hasCompleted, hasCompleted, hs, hs', Option.any_some, Option.any_some, hdone] at heq
      exact hnot (by simpa using heq.symm)
    cases hfin with
    | @completed outputs result hopen =>
      obtain ⟨s', hs', ⟨hdone, -⟩ | ⟨-, hcurrent, rfl⟩⟩ := decided_stepCompleted hy
      · exact absurd hdone (hagain hopen s' hs')
      · exact @kept_of_completion d x y now id s s' h hs hs'
          (h.not_holds_of_current hs hs' hcurrent.symm)
          [.event (.stepCompleted id s.currentAttempt outputs result)]
          (fun m hm => mem_singleton.mp hm ▸ rfl) rfl
    | @cacheHit key outputs hopen =>
      obtain ⟨s', hs', ⟨hdone, -⟩ | ⟨-, hcurrent, rfl⟩⟩ := decided_stepCacheHit hy
      · exact absurd hdone (hagain hopen s' hs')
      · exact @kept_of_completion d x y now id s s' h hs hs'
          (h.not_holds_of_current hs hs' hcurrent.symm)
          [.event (.stepCacheHit id s.currentAttempt key outputs)]
          (fun m hm => mem_singleton.mp hm ▸ rfl) rfl
    | skipped hopen hpolicy =>
      obtain ⟨s', request', policy', hs', hopen', -, hpolicy', rfl⟩ := decided_timeoutInput hy
      rw [timeoutPolicy_eq h hs hs' hopen hopen', hpolicy] at hpolicy'
      cases hpolicy'
      exact @kept_of_completion d x y now id s s' h hs hs'
        (h.not_holds_of_open hs (by simp [hopen]))
        [.event (.stepCompleted id s.currentAttempt [] none)]
        (fun m hm => mem_singleton.mp hm ▸ rfl) rfl
  | @failedRetrying id s p attempt error hs hp _ hretry =>
    -- a paused run accepts no failure that is retried
    have hpaused : x.state.stateType ≠ .paused := by
      intro hpaused
      have hclean := hclean hpaused
      simp [pausesCleanly, retriesFailure, hs, hp, hretry] at hclean
    have hid := holds_eq_false_of_unpaused hpaused id
    obtain ⟨s', p', hs', hp', rfl⟩ := decided_stepFailed hy
    rw [h.sameRun.plan] at hp'
    cases hp.symm.trans hp'
    rw [mayRetry_eq h hs hs' hid p error, if_pos hretry]
    have hsame : retryMessages y p id attempt error now = retryMessages x p id attempt error now := by
      rw [retryMessages, retryMessages, h.sameRun.executionId]
    have hall : ∀ m ∈ retryMessages x p id attempt error now, m.stepId? = some id :=
      fun m hm => stepId?_of_mem_retryMessages hm
    rw [hsame]
    refine kept_of_report hs hid hall hall (.refl _) ?_ fun h => absurd h hpaused
    simp [retryMessages, StepState.apply, StepState.pushAttempt]
  | @failed _ id s attempt error hs hfails =>
    obtain ⟨hnone, hkept, hrun⟩ := kept_of_settle h attempt error hresumes
    have hsame : msgs' = .event (.stepFailed id attempt error) ::
        settleMessages y id attempt error := by
      cases hfails with
      | reported hp _ hspent =>
        obtain ⟨s', p', hs', hp', rfl⟩ := decided_stepFailed hy
        rw [h.sameRun.plan] at hp'
        cases hp.symm.trans hp'
        rw [mayRetry_eq h hs hs' (hnone id), hspent, if_neg Bool.false_ne_true]
      | lapsed hopen hpolicy =>
        obtain ⟨s', request', policy', hs', hopen', -, hpolicy', rfl⟩ := decided_timeoutInput hy
        rw [timeoutPolicy_eq h hs hs' hopen hopen', hpolicy] at hpolicy'
        cases hpolicy'
        rfl
    subst hsame
    exact ⟨hkept, hrun⟩

end decision

end Aiwatcher.Engine
