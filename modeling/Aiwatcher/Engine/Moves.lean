import Aiwatcher.Engine.Runs

/-!
# Aiwatcher.Engine.Moves

What one decision says about one step.  `Move` lists the possibilities with what the
decider had checked, and `move_of_decided` says there are no others: the per-step
invariants are cases on it.
-/

namespace Aiwatcher.Engine

open List Std WorkflowEvent

/-! ## Messages about one step -/

variable {input : WorkflowMessage} {m : WorkflowMessage} {msgs : List WorkflowMessage}
  {s : StepState} {t : String}

theorem aboutStep_of_forall_eq (h : ∀ m ∈ msgs, m.stepId? = some t) : aboutStep t msgs = msgs :=
  filter_eq_self.mpr fun m hm => by simp [h m hm]

theorem aboutStep_of_forall_ne (h : ∀ m ∈ msgs, m.stepId? ≠ some t) : aboutStep t msgs = [] :=
  filter_eq_nil_iff.mpr fun m hm => by simp [h m hm]

theorem stepId?_of_mem_attemptMessages {executionId id : String} {attempt : UInt32} {p : PlanStep}
    {key : Option String} {now : OffsetDateTime}
    (h : m ∈ attemptMessages executionId id attempt p key now) : m.stepId? = some id := by
  unfold attemptMessages at h
  cases hq : p.runtime.question with
  | none =>
    simp only [hq, mem_cons, not_mem_nil, or_false] at h
    rcases h with rfl | rfl <;> rfl
  | some spec =>
    simp only [hq, mem_cons, not_mem_nil, or_false] at h
    rcases h with rfl | rfl | rfl <;> rfl

variable {d : Digests} {x : Execution} {now : OffsetDateTime}

theorem stepId?_of_mem_scheduleMessages {id : String} {attempt : UInt32}
    (h : m ∈ scheduleMessages d x id attempt now) : m.stepId? = some id := by
  unfold scheduleMessages at h
  cases hp : x.plan.step id with
  | none => simp [hp] at h
  | some p =>
    rw [hp] at h
    exact stepId?_of_mem_attemptMessages h

theorem scheduleMessages_of_step {id : String} {p : PlanStep} (hp : x.plan.step id = some p)
    (attempt : UInt32) :
    scheduleMessages d x id attempt now =
      attemptMessages x.executionId id attempt p (scheduledCacheKey d x p id) now := by
  unfold scheduleMessages
  rw [hp]

theorem aboutStep_scheduleMessages (t id : String) (attempt : UInt32) :
    aboutStep t (scheduleMessages d x id attempt now) =
      if id = t then scheduleMessages d x id attempt now else [] := by
  split
  · rename_i h
    subst h
    exact aboutStep_of_forall_eq fun m hm => stepId?_of_mem_scheduleMessages hm
  · rename_i h
    refine aboutStep_of_forall_ne fun m hm => ?_
    rw [stepId?_of_mem_scheduleMessages hm]
    simpa using h

theorem aboutStep_flatMap_of_self {f : String → List WorkflowMessage}
    (hf : ∀ id, aboutStep t (f id) = if id = t then f id else []) (ids : List String) :
    aboutStep t (ids.flatMap f) = (List.replicate (ids.count t) (f t)).flatten := by
  induction ids with
  | nil => rfl
  | cons id ids ih =>
    rw [flatMap_cons, aboutStep_append, ih, hf]
    by_cases h : id = t
    · subst h
      rw [if_pos rfl, count_cons_self, replicate_succ, flatten_cons]
    · rw [if_neg h, count_cons_of_ne h, nil_append]

theorem aboutStep_dispatchMessages (t : String) :
    aboutStep t (dispatchMessages d x now) =
      if x.dispatches ∧ isReady x t then
        (List.replicate (x.plan.ids.count t) (scheduleMessages d x t 1 now)).flatten
      else [] := by
  unfold dispatchMessages
  by_cases hd : x.dispatches = true
  · rw [if_pos hd, aboutStep_flatMap_of_self (fun id => aboutStep_scheduleMessages t id 1)]
    by_cases hr : isReady x t = true
    · rw [if_pos ⟨hd, hr⟩, count_filter hr]
    · have hnone : ((x.plan.ids.filter (isReady x)).count t) = 0 :=
        count_eq_zero.mpr fun h => hr (mem_filter.mp h).2
      rw [if_neg fun h => hr h.2, hnone, replicate_zero, flatten_nil]
  · rw [if_neg hd, if_neg fun h => hd h.1, aboutStep_nil]

theorem stepId?_of_mem_dispatchMessages (h : m ∈ dispatchMessages d x now) :
    ∃ id, m.stepId? = some id := by
  unfold dispatchMessages at h
  split at h
  · obtain ⟨id, -, hm⟩ := mem_flatMap.mp h
    exact ⟨id, stepId?_of_mem_scheduleMessages hm⟩
  · cases h

theorem aboutStep_skipMessages (u t : String) :
    (¬ (t ∈ x.plan.downstreamOf u ∧ x.hasOpen t = true) ∧ aboutStep t (skipMessages x u) = []) ∨
      ∃ reason, (t ∈ x.plan.downstreamOf u ∧ x.hasOpen t = true) ∧
        aboutStep t (skipMessages x u) = [.event (.stepSkipped t reason)] := by
  have hnodup := x.plan.nodup_downstreamOf u
  unfold ExecutionPlan.downstreamOf at hnodup ⊢
  unfold skipMessages
  generalize x.plan.descent u = found at hnodup ⊢
  induction found with
  | nil => exact Or.inl ⟨by simp, rfl⟩
  | cons p ps ih =>
    obtain ⟨via, c⟩ := p
    rw [map_cons, nodup_cons] at hnodup
    have ih := ih hnodup.2
    simp only [map_cons, mem_cons, flatMap_cons, aboutStep_append]
    by_cases hct : c = t
    · subst hct
      -- the rest does not name this child again
      have hrest : aboutStep c (ps.flatMap fun found => if x.hasOpen found.2 then
          [.event (.stepSkipped found.2 s!"{found.1} did not succeed")] else []) = [] := by
        rcases ih with ⟨-, hnil⟩ | ⟨_, ⟨hmem, -⟩, -⟩
        · exact hnil
        · exact absurd hmem hnodup.1
      rw [hrest]
      by_cases ho : x.hasOpen c = true
      · exact Or.inr ⟨_, ⟨Or.inl rfl, ho⟩, by
          rw [if_pos ho, aboutStep_cons_of_eq rfl, aboutStep_nil, append_nil]⟩
      · exact Or.inl ⟨fun h => ho h.2, by rw [if_neg ho, aboutStep_nil, append_nil]⟩
    · have hhead : aboutStep t (if x.hasOpen c then
          [.event (.stepSkipped c s!"{via} did not succeed")] else []) = [] := by
        split
        · exact aboutStep_cons_of_ne (by simpa [WorkflowMessage.stepId?, stepId?]) []
        · rfl
      rw [hhead, nil_append]
      rcases ih with ⟨hno, hnil⟩ | ⟨reason, ⟨hmem, ho⟩, hsome⟩
      · refine Or.inl ⟨?_, hnil⟩
        rintro ⟨rfl | hmem, ho⟩
        · exact hct rfl
        · exact hno ⟨hmem, ho⟩
      · exact Or.inr ⟨reason, ⟨Or.inr hmem, ho⟩, hsome⟩

theorem aboutStep_flatMap_values (hx : x.WellFormed) {f : StepState → List WorkflowMessage}
    (hf : ∀ s, ∀ m ∈ f s, m.stepId? = some s.stepId) (hs : x.step t = some s) :
    aboutStep t ((BTreeMap.values x.steps).flatMap f) = f s := by
  have hentry : ∀ kv ∈ x.steps.toList, kv.2.stepId = kv.1 := fun kv hkv =>
    hx.stepId kv.1 kv.2 (ExtTreeMap.mem_toList_iff_getElem?_eq_some.mp hkv)
  have hdistinct := x.steps.distinct_keys_toList
  have hmem : (t, s) ∈ x.steps.toList := ExtTreeMap.mem_toList_iff_getElem?_eq_some.mpr hs
  unfold BTreeMap.values
  rw [flatMap_map]
  obtain ⟨l, r, hsplit⟩ := append_of_mem hmem
  rw [hsplit] at hentry hdistinct ⊢
  rw [pairwise_append, pairwise_cons] at hdistinct
  have hother : ∀ kvs : List (String × StepState), (∀ kv ∈ kvs, kv.2.stepId = kv.1 ∧ kv.1 ≠ t) →
      aboutStep t (kvs.flatMap fun kv => f kv.2) = [] := by
    intro kvs hkvs
    refine aboutStep_of_forall_ne fun m hm => ?_
    obtain ⟨kv, hkv, hm⟩ := mem_flatMap.mp hm
    rw [hf kv.2 m hm, (hkvs kv hkv).1]
    simpa using (hkvs kv hkv).2
  have hl := hother l fun kv hkv => ⟨hentry kv (mem_append_left _ hkv), by
    have := hdistinct.2.2 kv hkv (t, s) mem_cons_self
    simpa using this⟩
  have hr := hother r fun kv hkv =>
    ⟨hentry kv (mem_append_right _ (mem_cons_of_mem _ hkv)), by
      have := hdistinct.2.1.1 kv hkv
      intro he
      exact this (by simp [he])⟩
  rw [flatMap_append, flatMap_cons, aboutStep_append, aboutStep_append, hl, hr,
    nil_append, append_nil]
  refine aboutStep_of_forall_eq fun m hm => ?_
  rw [hf s m hm]
  exact congrArg some (hentry (t, s) (mem_append_right _ mem_cons_self))

theorem stepId?_of_mem_cancelStepMessages (h : m ∈ cancelStepMessages s) :
    m.stepId? = some s.stepId := by
  unfold cancelStepMessages at h
  split at h
  · rw [mem_singleton.mp h]
    rfl
  · rw [mem_singleton.mp h]
    rfl
  · cases h

theorem aboutStep_cancelMessages (hx : x.WellFormed) (hs : x.step t = some s) :
    aboutStep t (cancelMessages x) = cancelStepMessages s := by
  unfold cancelMessages
  rw [aboutStep_append,
    aboutStep_flatMap_values hx (fun _ _ hm => stepId?_of_mem_cancelStepMessages hm) hs]
  have hend : aboutStep t (if (BTreeMap.values x.steps).any StepState.inFlight then []
      else [.event .executionCancelled]) = [] := by
    split <;> rfl
  rw [hend, append_nil]

theorem aboutStep_completionEnd (after : Execution) (t : String) :
    aboutStep t (completionEnd after) = [] := by
  unfold completionEnd
  split
  · split <;> rfl
  · split <;> rfl

theorem aboutStep_failureEnd (u t : String) (error : StepError) :
    aboutStep t [.event (failureEnd x u error)] = [] := by
  unfold failureEnd
  split <;> rfl

/-! ## The states a decision reasons from -/

theorem step_completedAt (u t : String) :
    (completedAt x u).step t = if u = t then
      (x.step t).map (fun s => { s with state := .of .completed, awaiting := none })
      else x.step t :=
  step_modifyStep ..

theorem step_settledAt_of_ne {u t : String} (h : u ≠ t) (attempt : UInt32) (error : StepError) :
    (settledAt x u attempt error).step t = x.step t := by
  unfold settledAt Execution.setAttemptState
  rw [step_modifyStep, if_neg h, step_modifyStep, if_neg h]

theorem isTerminal_attemptState (c : FailureClass) : c.attemptState.isTerminal = true := by
  cases c <;> rfl

/-- The step that failed is not open any more, so its own failure never skips it. -/
theorem hasOpen_settledAt_self (u : String) (attempt : UInt32) (error : StepError) :
    (settledAt x u attempt error).hasOpen u = false := by
  unfold Execution.hasOpen settledAt
  rw [step_modifyStep, if_pos rfl]
  cases ((x.setAttemptState u attempt (.of error.failureClass.attemptState)).step u) with
  | none => rfl
  | some s => simp [isTerminal_attemptState]

theorem hasOpen_settledAt_of_ne {u t : String} (h : u ≠ t) (attempt : UInt32)
    (error : StepError) : (settledAt x u attempt error).hasOpen t = x.hasOpen t := by
  unfold Execution.hasOpen
  rw [step_settledAt_of_ne h]

theorem hasOpen_of_step (h : x.step t = some s) : x.hasOpen t = !s.state.stateType.isTerminal := by
  unfold Execution.hasOpen
  rw [h, Option.any_some]

/-! ## What a decision says about a step -/

/-- What one decision may say about step `t`, found in state `s`. -/
inductive Move (x : Execution) (now : OffsetDateTime) (input : WorkflowMessage) (t : String)
    (s : StepState) : List WorkflowMessage → Prop where
  | untouched : Move x now input t s []
  | dispatched {p : PlanStep} {key : Option String} {again : Nat} (hp : x.plan.step t = some p)
      (hfresh : s.state.stateType = .scheduled) (hmode : x.mode = .compiled)
      (hc : x.cancelling = false)
      (hpaused : x.state.stateType = .paused → input = .command .resumeExecution)
      (hagain : x.plan.ids.Nodup → again = 0) :
      Move x now input t s
        (List.replicate (again + 1) (attemptMessages x.executionId t 1 p key now)).flatten
  | skippedByCancel {reason text : String} (hinput : input = .command (.cancelExecution text))
      (hopen : s.state.stateType = .scheduled ∨ s.state.stateType = .pending) :
      Move x now input t s [.event (.stepSkipped t reason)]
  | skippedBelow {u reason : String} {su : StepState} {attempt : UInt32} {error : StepError}
      (hu : x.step u = some su) (hfails : Fails x u su input attempt error)
      (hbelow : t ∈ x.plan.downstreamOf u) (hne : u ≠ t)
      (hopen : s.state.stateType.isTerminal = false) :
      Move x now input t s [.event (.stepSkipped t reason)]
  | retried {p : PlanStep} {key : Option String} (hinput : input = .command (.retryStep t))
      (hp : x.plan.step t = some p)
      (hfailed : s.state.stateType = .failed ∨ s.state.stateType = .crashed)
      (hc : x.cancelling = false) :
      Move x now input t s (attemptMessages x.executionId t (s.currentAttempt + 1) p key now)
  | answered {answeredBy : String} {response : Value}
      (h : Answers x now t s input answeredBy response) (hasks : x.plan.asksSomebody t = true) :
      Move x now input t s
        [.event (.inputProvided t s.currentAttempt answeredBy response),
          .event (.stepCompleted t s.currentAttempt [] (some response))]
  | answeredHosted {answeredBy : String} {response : Value}
      (h : Answers x now t s input answeredBy response) (hasks : x.plan.asksSomebody t = false)
      (hmode : x.mode = .hosted) :
      Move x now input t s [.event (.inputProvided t s.currentAttempt answeredBy response)]
  | answeredWorker {answeredBy : String} {response : Value} {p : PlanStep} {key : Option String}
      (h : Answers x now t s input answeredBy response) (hasks : x.plan.asksSomebody t = false)
      (hmode : x.mode = .compiled) (hp : x.plan.step t = some p) :
      Move x now input t s
        (.event (.inputProvided t s.currentAttempt answeredBy response) ::
          attemptMessages x.executionId t (s.currentAttempt + 1) p key now)
  | started (hinput : input = .event (.stepStarted t s.currentAttempt)) :
      Move x now input t s [.event (.stepStarted t s.currentAttempt)]
  | asked {request : InputRequest}
      (hinput : input = .event (.inputRequested t s.currentAttempt request))
      (hopen : s.state.stateType.isTerminal = false) :
      Move x now input t s [.event (.inputRequested t s.currentAttempt request)]
  | finished {event : WorkflowEvent} (h : Finishes x t s input event) :
      Move x now input t s [.event event]
  | failedRetrying {p : PlanStep} {attempt : UInt32} {error : StepError}
      (hinput : input = .event (.stepFailed t attempt error)) (hp : x.plan.step t = some p)
      (hcurrent : s.state.stateType.isTerminal = true → s.currentAttempt = attempt)
      (hretry : mayRetry x p s error = true) :
      Move x now input t s (retryMessages x p t attempt error now)
  | failed {attempt : UInt32} {error : StepError} (h : Fails x t s input attempt error) :
      Move x now input t s [.event (.stepFailed t attempt error)]

theorem stepId?_of_mem_retryMessages {p : PlanStep} {id : String} {n : UInt32} {error : StepError}
    (h : m ∈ retryMessages x p id n error now) : m.stepId? = some id := by
  simp only [retryMessages, mem_cons, not_mem_nil, or_false] at h
  rcases h with rfl | rfl | rfl <;> rfl

/-- Settling a failure says nothing more about the step that failed. -/
theorem aboutStep_settleMessages_self (id : String) (n : UInt32) (error : StepError) :
    aboutStep id (settleMessages x id n error) = [] := by
  rw [settleMessages, aboutStep_append, aboutStep_failureEnd, append_nil]
  rcases aboutStep_skipMessages (x := settledAt x id n error) id id with
    ⟨-, hnil⟩ | ⟨_, ⟨-, ho⟩, -⟩
  · exact hnil
  · rw [hasOpen_settledAt_self] at ho
    cases ho

theorem mode_of_not_hosted (h : ¬ (x.mode == .hosted) = true) : x.mode = .compiled := by
  cases hm : x.mode with
  | compiled => rfl
  | hosted => simp [hm] at h

theorem mode_of_dispatches (h : x.dispatches = true) :
    x.mode = .compiled ∧ x.state.stateType ≠ .paused ∧ x.cancelling = false := by
  simpa [Execution.dispatches, and_assoc] using h

theorem mem_ids_of_step (hx : x.WellFormed) (hs : x.step t = some s) :
    ∃ p, x.plan.step t = some p :=
  ExecutionPlan.mem_ids_iff_step.mp ((hx.planned t).mp (by simp [hs]))

/-- Whether a step has completed, as `dispatch_ready` asks of a parent. -/
def Execution.hasCompleted (x : Execution) (t : String) : Bool :=
  (x.step t).any (·.state.stateType == .completed)

theorem isReady_iff (hs : x.step t = some s) :
    isReady x t = true ↔ s.state.stateType = .scheduled ∧
      ∀ p ∈ x.plan.parentsOf t, ∃ sp, x.step p = some sp ∧ sp.state.stateType = .completed := by
  simp only [isReady, hs, Option.any_some, Bool.and_eq_true, beq_iff_eq, all_eq_true,
    Option.any_eq_true_iff_get]
  refine and_congr Iff.rfl (forall_congr' fun p => forall_congr' fun _ => ?_)
  constructor
  · rintro ⟨hsome, hdone⟩
    exact ⟨_, (Option.some_get hsome).symm, hdone⟩
  · rintro ⟨sp, hsp, hdone⟩
    exact ⟨by simp [hsp], by simpa [hsp] using hdone⟩

/-- What a dispatch from `y` says about a step, where `y` has the run of `x` and
leaves this step alone. -/
theorem move_of_dispatch {y : Execution}
    (hx : x.WellFormed) (hs : x.step t = some s) (hplan : y.plan = x.plan)
    (hid : y.executionId = x.executionId) (hmode : y.mode = x.mode)
    (hc : y.cancelling = x.cancelling)
    (hpaused : y.state.stateType ≠ .paused → x.state.stateType = .paused →
      input = .command .resumeExecution)
    (hstep : ∀ sy, y.step t = some sy → sy.state.stateType = .scheduled →
      s.state.stateType = .scheduled) :
    Move x now input t s (aboutStep t (dispatchMessages d y now)) := by
  rw [aboutStep_dispatchMessages]
  split
  · rename_i h
    obtain ⟨hm, hp, hcy⟩ := mode_of_dispatches h.1
    obtain ⟨p, hpt⟩ := mem_ids_of_step hx hs
    have hpy : y.plan.step t = some p := by rw [hplan]; exact hpt
    have hmem : t ∈ y.plan.ids := ExecutionPlan.mem_ids_iff_step.mpr ⟨p, hpy⟩
    have hfresh : s.state.stateType = .scheduled := by
      have hready := h.2
      cases hy : y.step t with
      | none => simp [isReady, hy] at hready
      | some sy => exact hstep sy hy ((isReady_iff hy).mp hready).1
    obtain ⟨again, hagain⟩ := Nat.exists_eq_add_of_lt (count_pos_iff.mpr hmem)
    rw [Nat.zero_add] at hagain
    rw [hagain, scheduleMessages_of_step hpy, hid]
    refine .dispatched hpt hfresh (hmode ▸ hm) (hc ▸ hcy) (hpaused hp) ?_
    intro hnodup
    have := nodup_iff_count_le_one.mp hnodup t
    rw [← hplan, hagain] at this
    omega
  · exact .untouched

/-- **Classification**: what a decision says about a step is one of its moves. -/
theorem move_of_decided (hx : x.WellFormed) (h : Decided d x now input msgs)
    (hs : x.step t = some s) : Move x now input t s (aboutStep t msgs) := by
  -- what follows a completion of `u`: the completed step itself is never dispatched
  have hfollow : ∀ u, Move x now input t s (aboutStep t (followMessages d x u now)) ∧
      (u = t → aboutStep t (followMessages d x u now) = []) := by
    intro u
    unfold followMessages
    rw [aboutStep_append, aboutStep_completionEnd, append_nil]
    constructor
    · refine move_of_dispatch hx hs rfl rfl rfl rfl (fun hp hp' => absurd hp' hp) ?_
      intro sy hsy hfresh
      rw [step_completedAt, hs] at hsy
      split at hsy
      · cases hsy
        simp at hfresh
      · cases hsy
        exact hfresh
    · rintro rfl
      rw [aboutStep_dispatchMessages, if_neg]
      rintro ⟨-, hready⟩
      have hdone : (completedAt x u).step u =
          some { s with state := .of .completed, awaiting := none } := by
        rw [step_completedAt, if_pos rfl, hs]
        rfl
      have := ((isReady_iff hdone).mp hready).1
      simp at this
  cases h with
  | pausedAlready _ => exact .untouched
  | paused _ _ => exact .untouched
  | resumed _ =>
    rw [aboutStep_cons_of_ne (by simp [WorkflowMessage.stepId?, stepId?])]
    refine move_of_dispatch hx hs rfl rfl rfl rfl (fun _ _ => rfl) ?_
    intro sy hsy hfresh
    have : sy = s := Option.some.inj (hsy.symm.trans hs)
    exact this ▸ hfresh
  | cancellingAlready _ _ => exact .untouched
  | cancelled _ _ =>
    rw [aboutStep_cons_of_ne (by simp [WorkflowMessage.stepId?, stepId?]),
      aboutStep_cancelMessages hx hs]
    have hid := hx.stepId t s hs
    unfold cancelStepMessages
    split
    · rename_i hst
      rw [hid]
      exact .skippedByCancel rfl (Or.inl hst)
    · rename_i hst
      rw [hid]
      exact .skippedByCancel rfl (Or.inr hst)
    · exact .untouched
  | retried hsu hfailed hc =>
    rename_i u su
    rw [aboutStep_scheduleMessages]
    split
    · rename_i hut
      subst hut
      cases Option.some.inj (hsu.symm.trans hs)
      obtain ⟨p, hp⟩ := mem_ids_of_step hx hs
      rw [scheduleMessages_of_step hp]
      exact .retried rfl hp hfailed hc
    · exact .untouched
  | answered hsu hanswers =>
    rename_i u answeredBy su response
    by_cases hut : u = t
    · subst hut
      cases Option.some.inj (hsu.symm.trans hs)
      rw [aboutStep_cons_of_eq rfl]
      unfold answerMessages
      split
      · rename_i hasks
        rw [aboutStep_cons_of_eq rfl, (hfollow u).2 rfl]
        exact .answered hanswers hasks
      · rename_i hasks
        have hno : x.plan.asksSomebody u = false := by simpa using hasks
        split
        · rename_i hmode
          exact .answeredHosted hanswers hno (by simpa using hmode)
        · rename_i hmode
          obtain ⟨p, hp⟩ := mem_ids_of_step hx hs
          rw [aboutStep_scheduleMessages, if_pos rfl]
          have hp' : (answeredAt x u s.currentAttempt answeredBy response).plan.step u =
              some p := hp
          rw [scheduleMessages_of_step hp']
          exact .answeredWorker hanswers hno (mode_of_not_hosted hmode) hp
    · rw [aboutStep_cons_of_ne (by simpa [WorkflowMessage.stepId?, stepId?])]
      unfold answerMessages
      split
      · rw [aboutStep_cons_of_ne (by simpa [WorkflowMessage.stepId?, stepId?])]
        exact (hfollow u).1
      · split
        · exact .untouched
        · rw [aboutStep_scheduleMessages, if_neg hut]
          exact .untouched
  | started hsu =>
    rename_i u su
    by_cases hut : u = t
    · subst hut
      cases Option.some.inj (hsu.symm.trans hs)
      rw [aboutStep_cons_of_eq rfl]
      exact .started rfl
    · rw [aboutStep_cons_of_ne (by simpa [WorkflowMessage.stepId?, stepId?])]
      exact .untouched
  | asked hsu hopen =>
    rename_i u su request
    by_cases hut : u = t
    · subst hut
      cases Option.some.inj (hsu.symm.trans hs)
      rw [aboutStep_cons_of_eq rfl]
      exact .asked rfl hopen
    · rw [aboutStep_cons_of_ne (by simpa [WorkflowMessage.stepId?, stepId?])]
      exact .untouched
  | repeated _ _ _ => exact .untouched
  | finished hsu hfin =>
    rename_i u su event
    have hevent : (WorkflowMessage.event event).stepId? = some u := by cases hfin <;> rfl
    by_cases hut : u = t
    · subst hut
      cases Option.some.inj (hsu.symm.trans hs)
      rw [aboutStep_cons_of_eq hevent, (hfollow u).2 rfl]
      exact .finished hfin
    · rw [aboutStep_cons_of_ne (by simpa [hevent])]
      exact (hfollow u).1
  | failedRetrying hsu hp hcurrent hretry =>
    rename_i u su p attempt error
    by_cases hut : u = t
    · subst hut
      cases Option.some.inj (hsu.symm.trans hs)
      rw [aboutStep_of_forall_eq fun m hm => stepId?_of_mem_retryMessages hm]
      exact .failedRetrying rfl hp hcurrent hretry
    · rw [aboutStep_of_forall_ne fun m hm => by simpa [stepId?_of_mem_retryMessages hm]]
      exact .untouched
  | failed hsu hfails =>
    rename_i u su attempt error
    by_cases hut : u = t
    · subst hut
      cases Option.some.inj (hsu.symm.trans hs)
      rw [aboutStep_cons_of_eq rfl, aboutStep_settleMessages_self]
      exact .failed hfails
    · unfold settleMessages
      rw [aboutStep_cons_of_ne (by simpa [WorkflowMessage.stepId?, stepId?]),
        aboutStep_append, aboutStep_failureEnd, append_nil]
      rcases aboutStep_skipMessages (x := settledAt x u attempt error) u t with
        ⟨-, hnil⟩ | ⟨reason, ⟨hbelow, ho⟩, hsome⟩
      · rw [hnil]
        exact .untouched
      · rw [hsome]
        rw [hasOpen_settledAt_of_ne hut, hasOpen_of_step hs] at ho
        exact .skippedBelow hsu hfails hbelow hut (by simpa using ho)

theorem exists_step_of_mem_dispatchMessages (hm : m ∈ dispatchMessages d x now)
    (ht : m.stepId? = some t) : ∃ s, x.step t = some s := by
  unfold dispatchMessages at hm
  split at hm
  · obtain ⟨id, hid, hm⟩ := mem_flatMap.mp hm
    rw [stepId?_of_mem_scheduleMessages hm] at ht
    cases ht
    have hready := (mem_filter.mp hid).2
    cases hstep : x.step t with
    | none => simp [isReady, hstep] at hready
    | some s => exact ⟨s, rfl⟩
  · cases hm

theorem exists_step_of_mem (hx : x.WellFormed) (h : Decided d x now input msgs) (hm : m ∈ msgs)
    (ht : m.stepId? = some t) : ∃ s, x.step t = some s := by
  have hready : ∀ y : Execution, (∀ t, (y.step t).isSome → (x.step t).isSome) →
      m ∈ dispatchMessages d y now → ∃ s, x.step t = some s := by
    intro y hy hm
    obtain ⟨s, hs⟩ := exists_step_of_mem_dispatchMessages hm ht
    exact Option.isSome_iff_exists.mp (hy t (by simp [hs]))
  have hsame : ∀ u, (∀ t, ((completedAt x u).step t).isSome → (x.step t).isSome) := by
    intro u t hsome
    rw [step_completedAt] at hsome
    split at hsome
    · simpa using hsome
    · exact hsome
  have hfollow : ∀ u, m ∈ followMessages d x u now → ∃ s, x.step t = some s := by
    intro u hm
    rcases mem_append.mp hm with hm | hm
    · exact hready _ (hsame u) hm
    · have := mem_aboutStep.mpr ⟨hm, ht⟩
      rw [aboutStep_completionEnd] at this
      cases this
  cases h with
  | pausedAlready _ => cases hm
  | paused _ _ =>
    rw [mem_singleton.mp hm] at ht
    cases ht
  | resumed _ =>
    rcases mem_cons.mp hm with rfl | hm
    · cases ht
    · exact hready { x with state := .of .running } (fun _ h => h) hm
  | cancellingAlready _ _ => cases hm
  | cancelled _ _ =>
    rcases mem_cons.mp hm with rfl | hm
    · cases ht
    · rcases mem_append.mp hm with hm | hm
      · obtain ⟨s, hs, hm⟩ := mem_flatMap.mp hm
        obtain ⟨u, hu⟩ := mem_values_steps.mp hs
        rw [stepId?_of_mem_cancelStepMessages hm, hx.stepId u s hu] at ht
        cases ht
        exact ⟨s, hu⟩
      · split at hm
        · cases hm
        · rw [mem_singleton.mp hm] at ht
          cases ht
  | retried hs _ _ =>
    rw [stepId?_of_mem_scheduleMessages hm] at ht
    cases ht
    exact ⟨_, hs⟩
  | answered hs _ =>
    rcases mem_cons.mp hm with rfl | hm
    · cases ht
      exact ⟨_, hs⟩
    · unfold answerMessages at hm
      split at hm
      · rcases mem_cons.mp hm with rfl | hm
        · cases ht
          exact ⟨_, hs⟩
        · exact hfollow _ hm
      · split at hm
        · cases hm
        · rw [stepId?_of_mem_scheduleMessages hm] at ht
          cases ht
          exact ⟨_, hs⟩
  | started hs =>
    rw [mem_singleton.mp hm] at ht
    cases ht
    exact ⟨_, hs⟩
  | asked hs _ =>
    rw [mem_singleton.mp hm] at ht
    cases ht
    exact ⟨_, hs⟩
  | repeated _ _ _ => cases hm
  | finished hs hfin =>
    rcases mem_cons.mp hm with rfl | hm
    · cases hfin <;> cases ht <;> exact ⟨_, hs⟩
    · exact hfollow _ hm
  | failedRetrying hs _ _ _ =>
    cases (stepId?_of_mem_retryMessages hm).symm.trans ht
    exact ⟨_, hs⟩
  | failed hs hfails =>
    rename_i u _ attempt error
    rcases mem_cons.mp hm with rfl | hm
    · cases ht
      exact ⟨_, hs⟩
    · rcases mem_append.mp hm with hm | hm
      · obtain ⟨found, -, hm⟩ := mem_flatMap.mp hm
        split at hm
        · rename_i ho
          rw [mem_singleton.mp hm] at ht
          cases ht
          by_cases hne : u = found.2
          · rw [← hne, hasOpen_settledAt_self] at ho
            cases ho
          · rw [hasOpen_settledAt_of_ne hne] at ho
            cases hstep : x.step found.2 with
            | none => simp [Execution.hasOpen, hstep] at ho
            | some s => exact ⟨s, rfl⟩
        · cases hm
      · have := mem_aboutStep.mpr ⟨hm, ht⟩
        rw [aboutStep_failureEnd] at this
        cases this

theorem exists_move (hx : x.WellFormed) (h : Decided d x now input msgs) (hm : m ∈ msgs)
    (ht : m.stepId? = some t) :
    ∃ s, x.step t = some s ∧ Move x now input t s (aboutStep t msgs) ∧ m ∈ aboutStep t msgs := by
  obtain ⟨s, hs⟩ := exists_step_of_mem hx h hm ht
  exact ⟨s, hs, move_of_decided hx h hs, mem_aboutStep.mpr ⟨hm, ht⟩⟩

theorem move_of_opens {input : WorkflowMessage} (h : Opens input x) {t : String} {s : StepState}
    (hs : x.step t = some s) : Move x now input t s (aboutStep t (dispatchMessages d x now)) := by
  refine move_of_dispatch (wellFormed_of_opens h) hs rfl rfl rfl rfl
    (fun hp hp' => absurd hp' hp) ?_
  intro sy hsy hfresh
  exact Option.some.inj (hsy.symm.trans hs) ▸ hfresh

end Aiwatcher.Engine
