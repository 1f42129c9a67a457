import Aiwatcher.Engine.Attempts
import Aiwatcher.Engine.Ended
import Aiwatcher.Engine.Inputs

/-!
# Aiwatcher.Engine.Ready

Steps that wait.  A step nobody has scheduled is untouched (`Execution.Unscheduled`), and
a run that dispatches leaves no step waiting whose parents have all completed
(`Execution.Eager`): the decision that completes the last parent dispatches it.
-/

namespace Aiwatcher.Engine

open Library List

variable {d : Digests} {x : Execution} {now : OffsetDateTime}

/-! ## Untouched steps -/

variable {input : WorkflowMessage} {msgs : List WorkflowMessage} {s : StepState} {t : String}

theorem scheduled_of_record (h : (s.record msgs).state.stateType = .scheduled) :
    s.state.stateType = .scheduled := by
  unfold StepState.record at h
  generalize events msgs = es at h
  induction es generalizing s with
  | nil => exact h
  | cons e es ih => exact scheduled_of_apply (ih h)

/-- A step that some message schedules does not wait any more. -/
theorem not_scheduled_of_mem {id : String} {n : UInt32} {kind : RuntimeKind} {key : Option String}
    (h : .event (.stepScheduled id n kind key) ∈ msgs) :
    (s.record msgs).state.stateType ≠ .scheduled := by
  obtain ⟨l, r, rfl⟩ := append_of_mem h
  intro hst
  rw [StepState.record_append] at hst
  have hhead := scheduled_of_record (s := (s.record l).apply (.stepScheduled id n kind key)) hst
  cases hhead

/-- A step with no question open that still waits was not part of the decision. -/
theorem untouched_of_move {about : List WorkflowMessage} (h : Move x now input t s about)
    (hopen : s.awaiting = none) (hst : (s.record about).state.stateType = .scheduled) :
    about = [] := by
  have hanswers : ∀ {answeredBy response}, ¬ Answers x now t s input answeredBy response := by
    intro answeredBy response hanswers
    cases hanswers with
    | provided hsome _ _ => rw [hopen] at hsome; cases hsome
    | lapsed hsome _ => rw [hopen] at hsome; cases hsome
  cases h with
  | untouched => rfl
  | dispatched hp _ _ _ _ _ =>
    exact absurd hst (not_scheduled_of_mem (mem_flatten.mpr
      ⟨_, mem_replicate.mpr ⟨Nat.succ_ne_zero _, rfl⟩, mem_cons_self⟩))
  | skippedByCancel _ _ => cases hst
  | skippedBelow _ _ _ _ _ => cases hst
  | retried _ _ _ _ => exact absurd hst (not_scheduled_of_mem mem_cons_self)
  | answered h _ => exact absurd h hanswers
  | answeredHosted h _ _ => exact absurd h hanswers
  | answeredWorker h _ _ _ => exact absurd h hanswers
  | started _ => cases hst
  | asked _ _ => cases hst
  | finished hfin => cases hfin <;> cases hst
  | failedRetrying _ _ _ _ => cases hst
  | failed hfails =>
    rename_i attempt error
    have hfailed : error.failureClass.attemptState = .scheduled := hst
    unfold FailureClass.attemptState at hfailed
    split at hfailed <;> cases hfailed

/-- A step nobody has scheduled has no attempt and no question. -/
def Execution.Unscheduled (x : Execution) : Prop :=
  ∀ t s, x.step t = some s → s.state.stateType = .scheduled →
    s.currentAttempt = 0 ∧ s.awaiting = none

theorem unscheduled_record (hx : x.Unscheduled)
    (hmove : ∀ t s, x.step t = some s → Move x now input t s (aboutStep t msgs)) :
    (x.record msgs).Unscheduled := by
  intro t s' hs' hst
  obtain ⟨s, hs, rfl⟩ := exists_step_of_record hs'
  have hbefore := hx t s hs (scheduled_of_record hst)
  have hnil := untouched_of_move (hmove t s hs) hbefore.2 hst
  rw [hnil]
  exact hbefore

theorem unscheduled_of_opens (h : Opens input x) : x.Unscheduled := by
  intro t s hs _
  obtain ⟨kind, rfl⟩ := fresh_of_opens h hs
  exact ⟨rfl, rfl⟩

/-! ## Completions -/

theorem state_record_attemptMessages {s : StepState} {e t : String} {n : UInt32} {p : PlanStep}
    {key : Option String} {now : OffsetDateTime} :
    (s.record (attemptMessages e t n p key now)).state.stateType = .pending ∨
      (s.record (attemptMessages e t n p key now)).state.stateType = .awaitingInput := by
  unfold attemptMessages
  cases p.runtime.question with
  | none => exact Or.inl rfl
  | some spec => exact Or.inr rfl

theorem flatten_replicate_succ (n : Nat) (ms : List WorkflowMessage) :
    (List.replicate (n + 1) ms).flatten = (List.replicate n ms).flatten ++ ms := by
  rw [replicate_succ', flatten_append, flatten_singleton]

theorem concludes_of_move {about : List WorkflowMessage} (h : Move x now input t s about)
    (hnot : s.state.stateType ≠ .completed) (hdone : (s.record about).state.stateType = .completed)
    : Concludes x now t s input := by
  have hattempt : ∀ {s : StepState} {n : UInt32} {p : PlanStep} {key : Option String},
      (s.record (attemptMessages x.executionId t n p key now)).state.stateType ≠ .completed := by
    intro s n p key hdone
    rcases @state_record_attemptMessages s x.executionId t n p key now with h | h <;>
      rw [h] at hdone <;> cases hdone
  cases h with
  | untouched => exact absurd hdone hnot
  | dispatched _ _ _ _ _ _ =>
    rw [flatten_replicate_succ, StepState.record_append] at hdone
    exact absurd hdone hattempt
  | skippedByCancel _ _ => cases hdone
  | skippedBelow _ _ _ _ _ => cases hdone
  | retried _ _ _ _ => exact absurd hdone hattempt
  | answered h hasks => exact Or.inr ⟨_, _, h, hasks⟩
  | answeredHosted _ _ _ => exact absurd hdone hnot
  | answeredWorker _ _ _ _ => exact absurd hdone hattempt
  | started _ => cases hdone
  | asked _ _ => cases hdone
  | finished hfin => exact Or.inl ⟨_, hfin⟩
  | failedRetrying _ _ _ _ => cases hdone
  | failed hfails =>
    rename_i attempt error
    have hfailed : error.failureClass.attemptState = .completed := hdone
    unfold FailureClass.attemptState at hfailed
    split at hfailed <;> cases hfailed

theorem stepId?_of_concludes (h : Concludes x now t s input) : input.stepId? = some t := by
  rcases h with ⟨event, hfin⟩ | ⟨answeredBy, response, hanswers, -⟩
  · cases hfin <;> rfl
  · cases hanswers <;> rfl

theorem follow_of_concludes (h : Decided d x now input msgs) (hs : x.step t = some s)
    (hnot : s.state.stateType ≠ .completed) (hconcludes : Concludes x now t s input) :
    ∃ front, msgs = front ++ followMessages d x t now ∧ ∀ m ∈ front, m.stepId? = some t := by
  rcases hconcludes with ⟨event, hfin⟩ | ⟨answeredBy, response, hanswers, hasks⟩
  · refine ⟨[.event event], ?_, ?_⟩
    · cases hfin with
      | completed _ =>
        obtain ⟨s₀, hs₀, ⟨hdone, -⟩ | ⟨-, -, rfl⟩⟩ := decided_stepCompleted h
        · cases hs.symm.trans hs₀
          exact absurd hdone hnot
        · rfl
      | cacheHit _ =>
        obtain ⟨s₀, hs₀, ⟨hdone, -⟩ | ⟨-, -, rfl⟩⟩ := decided_stepCacheHit h
        · cases hs.symm.trans hs₀
          exact absurd hdone hnot
        · rfl
      | skipped hopen hpolicy =>
        obtain ⟨s₀, request, policy, hs₀, hopen₀, -, hpolicy₀, rfl⟩ := decided_timeoutInput h
        cases hs.symm.trans hs₀
        cases hopen.symm.trans hopen₀
        cases hpolicy.symm.trans hpolicy₀
        rfl
    · intro m hm
      rw [mem_singleton.mp hm]
      cases hfin <;> rfl
  · refine ⟨[.event (.inputProvided t s.currentAttempt answeredBy response),
      .event (.stepCompleted t s.currentAttempt [] (some response))], ?_, ?_⟩
    · cases hanswers with
      | provided _ _ _ =>
        obtain ⟨s₀, request, hs₀, -, -, rfl⟩ := decided_provideInput h
        rw [answerMessages, if_pos hasks]
        rfl
      | lapsed hopen hpolicy =>
        obtain ⟨s₀, request, policy, hs₀, hopen₀, -, hpolicy₀, rfl⟩ := decided_timeoutInput h
        cases hs.symm.trans hs₀
        cases hopen.symm.trans hopen₀
        cases hpolicy.symm.trans hpolicy₀
        rw [lapseMessages, answerMessages, if_pos hasks]
        rfl
    · intro m hm
      simp only [mem_cons, not_mem_nil, or_false] at hm
      rcases hm with rfl | rfl <;> rfl

/-! ## No step waits for nothing -/

/-- A run that dispatches leaves no step ready. -/
def Execution.Eager (x : Execution) : Prop :=
  x.mode = .compiled → x.cancelling = false → ∀ t, isReady x t = false

theorem mem_dispatchMessages_of_ready (hx : x.WellFormed) (hd : x.dispatches = true) {t : String}
    (hready : isReady x t = true) :
    ∃ kind key, .event (.stepScheduled t 1 kind key) ∈ dispatchMessages d x now := by
  have hsome : (x.step t).isSome = true := by
    cases hs : x.step t with
    | none => simp [isReady, hs] at hready
    | some s => rfl
  have hmem := (hx.planned t).mp hsome
  obtain ⟨p, hp⟩ := ExecutionPlan.mem_ids_iff_step.mp hmem
  refine ⟨p.runtime.kind, scheduledCacheKey d x p t, ?_⟩
  rw [dispatchMessages, if_pos hd]
  refine mem_flatMap.mpr ⟨t, mem_filter.mpr ⟨hmem, hready⟩, ?_⟩
  rw [scheduleMessages_of_step hp]
  exact mem_cons_self

theorem waited_of_ready (hx : x.Unscheduled)
    (hmove : ∀ t s, x.step t = some s → Move x now input t s (aboutStep t msgs))
    (hready : isReady (x.record msgs) t = true) :
    (x.step t).any (·.state.stateType == .scheduled) = true ∧ aboutStep t msgs = [] ∧
      ∀ p ∈ x.plan.parentsOf t, x.hasCompleted p = true ∨
        p ≠ t ∧ ∃ sp, x.step p = some sp ∧ sp.state.stateType ≠ .completed ∧
          Concludes x now p sp input := by
  obtain ⟨s', hs'⟩ : ∃ s', (x.record msgs).step t = some s' := by
    cases hs : (x.record msgs).step t with
    | none => simp [isReady, hs] at hready
    | some s' => exact ⟨s', rfl⟩
  obtain ⟨hst, hparents⟩ := (isReady_iff hs').mp hready
  obtain ⟨s, hs, rfl⟩ := exists_step_of_record hs'
  have hbefore := scheduled_of_record hst
  refine ⟨by simp [hs, hbefore], untouched_of_move (hmove t s hs) (hx t s hs hbefore).2 hst, ?_⟩
  intro p hp
  rw [plan_record] at hparents
  obtain ⟨sp', hsp', hdone⟩ := hparents p hp
  obtain ⟨sp, hsp, rfl⟩ := exists_step_of_record hsp'
  by_cases hwas : sp.state.stateType = .completed
  · exact Or.inl (by simp [Execution.hasCompleted, hsp, hwas])
  · refine Or.inr ⟨?_, sp, hsp, hwas, concludes_of_move (hmove p sp hsp) hwas hdone⟩
    rintro rfl
    cases hs.symm.trans hsp
    rw [hst] at hdone
    cases hdone

theorem eager_of_opens (h : Opens input x) : (x.record (dispatchMessages d x now)).Eager := by
  intro hmode _ t
  by_contra hready
  rw [Bool.not_eq_false] at hready
  obtain ⟨hwaits, hnil, hparents⟩ :=
    waited_of_ready (unscheduled_of_opens h) (fun t s hs => move_of_opens h hs) hready
  have hd : x.dispatches = true := by
    rw [mode_record] at hmode
    cases h
    simpa [Execution.dispatches, Execution.opened] using hmode
  have hbefore : isReady x t = true := by
    refine Bool.and_eq_true_iff.mpr ⟨hwaits, all_eq_true.mpr fun p hp => ?_⟩
    rcases hparents p hp with hdone | ⟨-, sp, -, -, hconcludes⟩
    · exact hdone
    · have hsubject := stepId?_of_concludes hconcludes
      cases h
      cases hsubject
  obtain ⟨kind, key, hmem⟩ :=
    @mem_dispatchMessages_of_ready d x now (wellFormed_of_opens h) hd t hbefore
  have habout := mem_aboutStep.mpr ⟨hmem, rfl⟩
  rw [hnil] at habout
  cases habout

/-- **Eagerness is kept** by a run that is not paused: the decision that completes the
last parent of a step dispatches it. -/
theorem eager_of_decided (hx : x.WellFormed) (hun : x.Unscheduled) (heager : x.Eager)
    (hpaused : x.state.stateType ≠ .paused) (h : Decided d x now input msgs) :
    (x.record msgs).Eager := by
  intro hmode hc t
  by_contra hready
  rw [Bool.not_eq_false] at hready
  obtain ⟨hwaits, hnil, hparents⟩ :=
    waited_of_ready hun (fun t s hs => move_of_decided hx h hs) hready
  rw [mode_record] at hmode
  rw [cancelling_record, Bool.or_eq_false_iff] at hc
  have hnot : ¬ ∀ p ∈ x.plan.parentsOf t, x.hasCompleted p = true := by
    intro hall
    have hbefore : isReady x t = true :=
      Bool.and_eq_true_iff.mpr ⟨hwaits, all_eq_true.mpr hall⟩
    rw [heager hmode hc.1 t] at hbefore
    cases hbefore
  simp only [not_forall] at hnot
  obtain ⟨p, hp, hopen⟩ := hnot
  obtain ⟨hne, sp, hsp, hwas, hconcludes⟩ := (hparents p hp).resolve_left hopen
  obtain ⟨front, rfl, -⟩ := follow_of_concludes h hsp hwas hconcludes
  -- with `p` everything `t` waits for has completed
  have hafter : isReady (completedAt x p) t = true := by
    rw [isReady_completedAt hsp, Execution.waitsOnlyFor, hwaits, Bool.and_true]
    refine Bool.and_eq_true_iff.mpr ⟨?_, all_eq_true.mpr fun q hq => ?_⟩
    · exact bne_iff_ne.mpr (Ne.symm hne)
    · rcases hparents q hq with hdone | ⟨-, sq, -, -, hother⟩
      · exact Bool.or_eq_true_iff.mpr (Or.inr hdone)
      · have hsame := (stepId?_of_concludes hother).symm.trans (stepId?_of_concludes hconcludes)
        cases hsame
        simp [Execution.completedWith]
  have hd : (completedAt x p).dispatches = true := by
    simp [Execution.dispatches, completedAt, Execution.modifyStep, hmode, hc.1, hpaused]
  obtain ⟨kind, key, hmem⟩ := @mem_dispatchMessages_of_ready d (completedAt x p) now
    (wellFormed_completedAt hx p) hd t hafter
  have hfollow : .event (.stepScheduled t 1 kind key) ∈ followMessages d x p now :=
    mem_append_left _ hmem
  have habout := mem_aboutStep.mpr ⟨mem_append_right front hfollow, rfl⟩
  rw [hnil] at habout
  cases habout

/-! ## What a step waits for -/

section Parents

variable {n : UInt32} {kind : RuntimeKind} {key : Option String}

theorem ready_of_scheduled (h : .event (.stepScheduled t n kind key) ∈ dispatchMessages d x now) :
    isReady x t = true := by
  have habout := mem_aboutStep.mpr ⟨h, rfl⟩
  rw [aboutStep_dispatchMessages] at habout
  split at habout
  · rename_i hready
    exact hready.2
  · cases habout

/-- What follows the end of `u` schedules a step that then waits for nothing. -/
theorem completed_of_follow {u : String}
    (h : .event (.stepScheduled t n kind key) ∈ followMessages d x u now) :
    ∀ p ∈ x.plan.parentsOf t, x.hasCompleted p = true ∨ p = u := by
  rcases List.mem_append.mp h with h | h
  · intro p hp
    have hready := (Bool.and_eq_true_iff.mp (ready_of_scheduled h)).2
    have hdone := List.all_eq_true.mp hready p hp
    rw [step_completedAt] at hdone
    split at hdone
    · exact .inr (Eq.symm ‹_›)
    · exact .inl hdone
  · have habout := mem_aboutStep.mpr ⟨h, rfl⟩
    rw [aboutStep_completionEnd] at habout
    cases habout

/-- A step that waits is scheduled when everything before it in the plan has completed, if only by
the input. -/
theorem completed_of_scheduled (hx : x.WellFormed) (h : Decided d x now input msgs)
    (hs : x.step t = some s) (hwaits : s.state.stateType = .scheduled) (hopen : s.awaiting = none)
    (hmem : .event (.stepScheduled t n kind key) ∈ msgs) :
    ∀ p ∈ x.plan.parentsOf t, x.hasCompleted p = true ∨
      ∃ sp, x.step p = some sp ∧ Concludes x now p sp input := by
  have hself : ∀ {id : String} {y : Execution} {attempt : UInt32} {s' : StepState},
      .event (.stepScheduled t n kind key) ∈ scheduleMessages d y id attempt now →
        x.step id = some s' → s' = s := by
    intro id y attempt s' hsaid hs'
    cases stepId?_of_mem_scheduleMessages hsaid
    exact Option.some.inj (hs'.symm.trans hs)
  have habout := mem_aboutStep.mpr ⟨hmem, rfl⟩
  cases h with
  | pausedAlready | cancellingAlready | repeated => cases hmem
  | paused | started | asked => simp at hmem
  | resumed =>
    rcases List.mem_cons.mp hmem with heq | hsaid
    · cases heq
    · obtain ⟨-, hall⟩ := Bool.and_eq_true_iff.mp (ready_of_scheduled hsaid)
      exact fun p hp => .inl (List.all_eq_true.mp hall p hp)
  | cancelled =>
    rw [aboutStep_cons_of_ne (by simp [WorkflowMessage.stepId?, WorkflowEvent.stepId?]),
      aboutStep_cancelMessages hx hs] at habout
    simp [cancelStepMessages, hwaits] at habout
  | retried hs' hfailed =>
    cases hself hmem hs'
    simp [hwaits] at hfailed
  | answered hs' hanswers =>
    rcases List.mem_cons.mp hmem with heq | hsaid
    · cases heq
    · unfold answerMessages at hsaid
      split at hsaid
      · rcases List.mem_cons.mp hsaid with heq | hsaid
        · cases heq
        · exact fun p hp => (completed_of_follow hsaid p hp).imp_right fun hu => by
            rw [hu]
            exact ⟨_, hs', .inr ⟨_, _, hanswers, ‹_›⟩⟩
      · split at hsaid
        · cases hsaid
        · cases hself hsaid hs'
          cases hanswers with
          | provided hsome => simp [hopen] at hsome
          | lapsed hsome => simp [hopen] at hsome
  | finished hs' hfinishes =>
    rcases List.mem_cons.mp hmem with heq | hsaid
    · cases hfinishes <;> cases heq
    · exact fun p hp => (completed_of_follow hsaid p hp).imp_right fun hu => by
        rw [hu]
        exact ⟨_, hs', .inl ⟨_, hfinishes⟩⟩
  | failedRetrying => simp [retryMessages] at hmem
  | @failed _ id _ attempt error =>
    rcases List.mem_cons.mp hmem with heq | hsaid
    · cases heq
    · have habout := mem_aboutStep.mpr ⟨hsaid, rfl⟩
      rw [settleMessages, aboutStep_append, aboutStep_failureEnd, append_nil] at habout
      rcases aboutStep_skipMessages (x := settledAt x id attempt error) id t with
        ⟨-, hnil⟩ | ⟨_, -, hone⟩
      · simp [hnil] at habout
      · simp [hone] at habout

end Parents

/-- Whoever waits is scheduled when everything before it in the plan has completed, if only by the
input: by the start of the run, when there is nothing before it. -/
structure ParentsFirst (st : Step ExecutionState Delivery PendingMessage) (t : String) : Prop where
  opening : st.before = .empty → ∀ x, st.after = .active x → x.plan.parentsOf t = []
  waiting : ∀ x s, st.before = .active x → x.step t = some s → s.state.stateType = .scheduled →
    ∀ p ∈ x.plan.parentsOf t, x.hasCompleted p = true ∨
      ∃ sp, x.step p = some sp ∧ Concludes x st.input.now p sp st.input.input

/-- **Parents first**, in every run, whatever is delivered to it and in whatever order. -/
theorem parents_first (d : Digests) (is : List Delivery) :
    ∀ st ∈ (machine d).run .empty is, ∀ t n kind key,
      .event (.stepScheduled t n kind key) ∈ contents st.out → ParentsFirst st t := by
  intro st hst t n kind key hmem
  have hinv := (run_inv (P := fun x => x.WellFormed ∧ x.Unscheduled)
    (fun i x hopens => ⟨wellFormed_record (wellFormed_of_opens hopens) _,
      unscheduled_record (unscheduled_of_opens hopens) fun t s hs => move_of_opens hopens hs⟩)
    (fun i x msgs hx h => ⟨wellFormed_record hx.1 _,
      unscheduled_record hx.2 fun t s hs => move_of_decided hx.1 h hs⟩) is st hst).1
  rcases step_cases (Machine.step_of_mem_run hst) with
    ⟨x, hbefore, hopens, hout, hafter⟩ | ⟨x, hbefore, hdecided, -⟩
  · refine ⟨fun _ y hy => ?_, fun y s hy => by rw [hbefore] at hy; cases hy⟩
    rw [hafter] at hy
    cases hy
    rw [hout] at hmem
    rcases List.mem_append.mp hmem with hmem | hmem
    · simp [openingFacts] at hmem
    · rw [plan_record, eq_nil_iff_forall_not_mem]
      intro p hp
      have hall := (Bool.and_eq_true_iff.mp (ready_of_scheduled hmem)).2
      obtain ⟨sp, hsp, hdone⟩ := (Option.any_eq_true ..).mp (all_eq_true.mp hall p hp)
      obtain ⟨kind, rfl⟩ := fresh_of_opens hopens hsp
      cases hdone
  · rw [hbefore] at hinv
    refine ⟨fun hempty => (by rw [hbefore] at hempty; cases hempty), fun y s hy hs hwaits => ?_⟩
    rw [hbefore] at hy
    cases hy
    exact completed_of_scheduled hinv.1 hdecided hs hwaits (hinv.2 t s hs hwaits).2 hmem

/-- A step is reported to have completed, and the one behind it goes out. -/
def oneByOne : List Delivery :=
  toldInOrder [startOf (planOf [workerStep "first", workerStep "second"] [("first", "second")]),
    .event (.stepCompleted "first" 1 [] none)]

theorem oneByOne_parents_first : ∃ st ∈ (machine plainDigests).run .empty oneByOne,
    .event (.stepScheduled "second" 1 .pythonTask none) ∈ contents st.out ∧
      ParentsFirst st "second" := by
  obtain ⟨st, hst, hsecond⟩ : ∃ st ∈ (machine plainDigests).run .empty oneByOne,
      (contents st.out)[1]? = some (.event (.stepScheduled "second" 1 .pythonTask none)) :=
    ⟨_, .tail _ (.head _), rfl⟩
  have hmem := mem_of_getElem? hsecond
  exact ⟨st, hst, hmem, parents_first plainDigests oneByOne st hst _ _ _ _ hmem⟩

end Aiwatcher.Engine
