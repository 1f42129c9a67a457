import Aiwatcher.Engine.Cancelling

/-!
# Aiwatcher.Engine.Completed

A completed step, and the inputs that still disturb it.
-/

namespace Aiwatcher.Engine

open Library List Bool Execution WorkflowMessage

/-- A fact that says a step has ended, one way or another. -/
def WorkflowMessage.settles (t : String) : WorkflowMessage → Bool
  | .event (.stepCompleted id ..) | .event (.stepFailed id ..) | .event (.stepSkipped id _) => id == t
  | _ => false

/-- Whether an input changes a step `t` that has completed: a start or a failure
reported for it, or a lapse of or an answer to a question its completion left open. -/
def Execution.disturbs (x : Execution) (t : String) : WorkflowMessage → Bool
  | .event (.stepStarted id _) | .event (.stepFailed id ..) => id == t
  | .command (.provideInput id ..) =>
    id == t && (x.plan.asksSomebody t || x.mode == .compiled)
  | .command (.timeoutInput id _) =>
    id == t && (x.plan.asksSomebody t || x.mode == .compiled ||
      !(x.openPolicy t).any OnTimeout.isAnswer)
  | _ => false

/-- The same completion: state, outputs and records. -/
structure StepState.SameCompletion (s s' : StepState) : Prop where
  state : s'.state = s.state
  outputs : s'.outputs = s.outputs
  attempts : s'.attempts = s.attempts

/-- One step of a run that leaves the completion `s` of `t` alone and records no
second end of it. -/
def KeepsCompletion (t : String) (s : StepState)
    (st : Step ExecutionState Delivery PendingMessage) : Prop :=
  (∃ y s', st.after = .active y ∧ y.step t = some s' ∧ s.SameCompletion s') ∧
    ∀ m ∈ contents st.out, m.settles t = false

variable {d : Digests} {x : Execution} {now : OffsetDateTime}

variable {input : WorkflowMessage} {s : StepState} {t : String}

theorem stepId?_of_settles {m : WorkflowMessage} (h : m.settles t = true) : m.stepId? = some t := by
  unfold settles at h
  split at h
  · simp_all [stepId?, WorkflowEvent.stepId?]
  · simp_all [stepId?, WorkflowEvent.stepId?]
  · simp_all [stepId?, WorkflowEvent.stepId?]
  · cases h

theorem forall_settles_iff (t : String) (msgs : List WorkflowMessage) :
    (∀ m ∈ msgs, m.settles t = false) ↔ ∀ m ∈ aboutStep t msgs, m.settles t = false := by
  constructor
  · exact fun h m hm => h m (mem_aboutStep.mp hm).1
  · intro h m hm
    by_contra hsettles
    rw [Bool.not_eq_false] at hsettles
    rw [h m (mem_aboutStep.mpr ⟨hm, stepId?_of_settles hsettles⟩)] at hsettles
    cases hsettles

theorem not_sameCompletion_attemptMessages {s s₀ : StepState} {e t : String} {n : UInt32}
    {p : PlanStep} {key : Option String} (hdone : s₀.state.stateType = .completed) :
    ¬ s₀.SameCompletion (s.record (attemptMessages e t n p key now)) := by
  intro hsame
  have hstate := congrArg RunState.stateType hsame.state
  rw [hdone] at hstate
  unfold attemptMessages at hstate
  cases hq : p.runtime.question with
  | none => simp [hq, StepState.apply, StepState.pushAttempt] at hstate
  | some spec => simp [hq, StepState.apply] at hstate

theorem exists_about_of_disturbs {msgs : List WorkflowMessage} (h : Decided d x now input msgs)
    (hdisturbs : x.disturbs t input = true) : ∃ m ∈ msgs, m.stepId? = some t := by
  have hhead : ∀ {m : WorkflowMessage} {rest : List WorkflowMessage} {id : String},
      m.stepId? = some id → id = t → ∃ m' ∈ m :: rest, m'.stepId? = some t :=
    fun hm hid => ⟨_, mem_cons_self, hid ▸ hm⟩
  cases h with
  | started _ => exact hhead rfl (by simpa [disturbs] using hdisturbs)
  | answered _ hanswers =>
    refine hhead rfl ?_
    cases hanswers with
    | provided _ _ _ =>
      simp only [disturbs, and_eq_true, beq_iff_eq] at hdisturbs
      exact hdisturbs.1
    | lapsed _ _ =>
      simp only [disturbs, and_eq_true, beq_iff_eq] at hdisturbs
      exact hdisturbs.1
  | finished _ hfin =>
    cases hfin with
    | completed _ => cases hdisturbs
    | cacheHit _ => cases hdisturbs
    | skipped _ _ =>
      simp only [disturbs, and_eq_true, beq_iff_eq] at hdisturbs
      exact hhead rfl hdisturbs.1
  | failedRetrying _ _ _ _ => exact hhead rfl (by simpa [disturbs] using hdisturbs)
  | failed _ hfails =>
    cases hfails with
    | reported _ _ _ => exact hhead rfl (by simpa [disturbs] using hdisturbs)
    | lapsed _ _ =>
      simp only [disturbs, and_eq_true, beq_iff_eq] at hdisturbs
      exact hhead rfl hdisturbs.1
  | repeated _ hin _ =>
    unfold completes? at hin
    split at hin
    · cases hdisturbs
    · cases hdisturbs
    · cases hin
  | _ => cases hdisturbs

theorem disturbs_of_answers {t answeredBy : String} {response : Value} (hs : x.step t = some s)
    (h : Answers x now t s input answeredBy response) :
    x.disturbs t input = (x.plan.asksSomebody t || x.mode == .compiled) := by
  cases h with
  | provided _ _ _ => simp [disturbs]
  | lapsed hopen hpolicy =>
    simp [disturbs, openPolicy_of_step hs hopen, hpolicy, OnTimeout.isAnswer]

/-- **One decision** leaves a completed step alone exactly when its input does not
disturb it. -/
theorem sameCompletion_iff (hx : x.WellFormed) {msgs : List WorkflowMessage}
    (h : Decided d x now input msgs) (hs : x.step t = some s)
    (hdone : s.state.stateType = .completed) :
    (s.SameCompletion (s.record (aboutStep t msgs)) ∧ ∀ m ∈ msgs, m.settles t = false) ↔
      x.disturbs t input = false := by
  rw [forall_settles_iff]
  have hterminal : s.state.stateType.isTerminal = true := by rw [hdone]; rfl
  -- an input that disturbs the step says something about it, so `untouched` is out
  have htouched : x.disturbs t input = true → aboutStep t msgs ≠ [] := by
    intro hdisturbs hnil
    obtain ⟨m, hm, ht⟩ := exists_about_of_disturbs h hdisturbs
    have := mem_aboutStep.mpr ⟨hm, ht⟩
    rw [hnil] at this
    cases this
  have hmove := move_of_decided hx h hs
  generalize aboutStep t msgs = about at hmove htouched ⊢
  have hyes : ∀ {b : Bool}, b = true → (False ↔ b = false) := by simp
  cases hmove with
  | untouched =>
    refine ⟨fun _ => ?_, fun _ => ⟨⟨rfl, rfl, rfl⟩, fun m hm => absurd hm not_mem_nil⟩⟩
    by_contra hdisturbs
    exact htouched (by simpa using hdisturbs) rfl
  | dispatched _ hfresh _ _ _ _ => rw [hdone] at hfresh; cases hfresh
  | skippedByCancel _ hopen => rw [hdone] at hopen; rcases hopen with hopen | hopen <;> cases hopen
  | skippedBelow _ _ _ _ hopen => rw [hterminal] at hopen; cases hopen
  | retried _ _ hfailed _ =>
    rw [hdone] at hfailed; rcases hfailed with hfailed | hfailed <;> cases hfailed
  | answered hanswers hasks =>
    rw [disturbs_of_answers hs hanswers, hasks]
    refine iff_of_false ?_ (by simp)
    rintro ⟨-, hquiet⟩
    have := hquiet _ (mem_cons_of_mem _ mem_cons_self)
    simp [settles] at this
  | answeredHosted hanswers hasks hmode =>
    rw [disturbs_of_answers hs hanswers, hasks, hmode]
    refine iff_of_true ⟨⟨rfl, rfl, rfl⟩, ?_⟩ rfl
    intro m hm
    rw [mem_singleton.mp hm]
    rfl
  | answeredWorker hanswers hasks hmode _ =>
    rw [disturbs_of_answers hs hanswers, hasks, hmode]
    refine iff_of_false ?_ (by decide)
    rintro ⟨hsame, -⟩
    exact not_sameCompletion_attemptMessages hdone hsame
  | started hinput =>
    rw [hinput]
    refine iff_of_false ?_ (by simp [disturbs])
    rintro ⟨hsame, -⟩
    have hstate := congrArg RunState.stateType hsame.state
    rw [hdone] at hstate
    cases hstate
  | asked _ hopen => rw [hterminal] at hopen; cases hopen
  | finished hfin =>
    cases hfin with
    | completed hopen => exact absurd hdone hopen
    | cacheHit hopen => exact absurd hdone hopen
    | skipped hopen hpolicy =>
      refine iff_of_false ?_ (by simp [disturbs, openPolicy_of_step hs hopen,
        hpolicy, OnTimeout.isAnswer])
      rintro ⟨-, hquiet⟩
      have := hquiet _ mem_cons_self
      simp [settles] at this
  | failedRetrying hinput _ _ _ =>
    rw [hinput]
    refine iff_of_false ?_ (by simp [disturbs])
    rintro ⟨-, hquiet⟩
    have := hquiet _ mem_cons_self
    simp [settles] at this
  | failed hfails =>
    refine iff_of_false ?_ ?_
    · rintro ⟨-, hquiet⟩
      have := hquiet _ mem_cons_self
      simp [settles] at this
    · cases hfails with
      | reported _ _ _ => simp [disturbs]
      | lapsed hopen hpolicy =>
        simp [disturbs, openPolicy_of_step hs hopen, hpolicy, OnTimeout.isAnswer]

theorem keepsCompletion_run_iff (hx : x.WellFormed) (hs : x.step t = some s)
    (hdone : s.state.stateType = .completed) (js : List Delivery) :
    (∀ st ∈ (machine d).run (.active x) js, KeepsCompletion t s st) ↔
      ∀ st ∈ (machine d).run (.active x) js, ∀ y, st.before = .active y →
        y.disturbs t st.input.input = false := by
  induction js generalizing x s with
  | nil => simp [Machine.run]
  | cons j js ih =>
    cases hstep : (machine d).step (.active x) j with
    | none =>
      rw [Machine.run_cons_none hstep]
      exact ih hx hs hdone
    | some p =>
      obtain ⟨out, state'⟩ := p
      rw [Machine.run_cons_some hstep]
      rcases step_cases hstep with ⟨_, hempty, -⟩ | ⟨y, hy, hdecided, rfl⟩
      · cases hempty
      · cases hy
        rw [forall_mem_cons, forall_mem_cons]
        have hrecord := step_record_of_some hs (contents out)
        have hhead : KeepsCompletion t s ⟨.active x, j, out, .active (x.record (contents out))⟩ ↔
            ∀ y, ExecutionState.active x = .active y → y.disturbs t j.input = false := by
          have hone := sameCompletion_iff hx hdecided hs hdone
          constructor
          · rintro ⟨⟨y, s', hy, hs', hsame⟩, hquiet⟩ z hz
            cases hy
            cases hz
            rw [hrecord] at hs'
            cases hs'
            exact hone.mp ⟨hsame, hquiet⟩
          · intro hno
            obtain ⟨hsame, hquiet⟩ := hone.mpr (hno x rfl)
            exact ⟨⟨_, _, rfl, hrecord, hsame⟩, hquiet⟩
        rw [hhead]
        refine and_congr_right fun hno => ?_
        obtain ⟨hsame, -⟩ := (sameCompletion_iff hx hdecided hs hdone).mpr (hno x rfl)
        have hdone' : (s.record (aboutStep t (contents out))).state.stateType = .completed := by
          rw [hsame.state, hdone]
        rw [← ih (wellFormed_record hx _) hrecord hdone']
        -- keeping the new completion and keeping the old one are the same
        refine forall_congr' fun st => forall_congr' fun _ => and_congr ?_ Iff.rfl
        constructor
        · rintro ⟨y, s', hy, hs', h'⟩
          exact ⟨y, s', hy, hs', ⟨h'.state.trans hsame.state.symm,
            h'.outputs.trans hsame.outputs.symm, h'.attempts.trans hsame.attempts.symm⟩⟩
        · rintro ⟨y, s', hy, hs', h'⟩
          exact ⟨y, s', hy, hs', ⟨h'.state.trans hsame.state,
            h'.outputs.trans hsame.outputs, h'.attempts.trans hsame.attempts⟩⟩

/-- **A completed step stays completed, but for what is reported about it again**:
after any run, its completion is kept through any later inputs exactly when none of
them starts it, fails it, or answers or lapses a question it still has open. -/
theorem completed_step_stays_iff (d : Digests) (is js : List Delivery) (t : String) :
    (∀ x s, (machine d).last .empty is = .active x → x.step t = some s →
        s.state.stateType = .completed →
        ∀ st ∈ (machine d).run (.active x) js, KeepsCompletion t s st) ↔
      ∀ x s, (machine d).last .empty is = .active x → x.step t = some s →
        s.state.stateType = .completed →
        ∀ st ∈ (machine d).run (.active x) js, ∀ y, st.before = .active y →
          y.disturbs t st.input.input = false :=
  forall_congr' fun _ => forall_congr' fun _ => forall_congr' fun hx => forall_congr' fun hs =>
    forall_congr' fun hdone => keepsCompletion_run_iff (wellFormed_of_last hx) hs hdone js

/-- One step, started and completed. -/
def oneStepDone : List Delivery :=
  toldInOrder [startOf (planOf [workerStep "work"] []),
    .event (.stepStarted "work" 1),
    .event (.stepCompleted "work" 1 [] none)]

/-- A second report that the step has started. -/
def startedAgain : List Delivery := [⟨.event (.stepStarted "work" 1), "again", 0⟩]

/-- A redelivered start report takes the completed step back to running. -/
theorem late_start_reopens_a_completed_step :
    ∃ x s, (machine plainDigests).last .empty oneStepDone = .active x ∧
      x.step "work" = some s ∧ s.state.stateType = .completed ∧
      ∃ st ∈ (machine plainDigests).run (.active x) startedAgain,
        ¬ KeepsCompletion "work" s st := by
  have hrun : ((machine plainDigests).last .empty oneStepDone).isActive.any (fun x =>
      (x.step "work").any fun s => s.state.stateType == .completed &&
        ((machine plainDigests).run (.active x) startedAgain).any
          fun st => st.after.isActive.any fun y =>
            (y.step "work").any (·.state.stateType == .running)) = true := by
    decide +kernel
  obtain ⟨x, hx, hstep⟩ := active_of_any hrun
  obtain ⟨s, hs, hboth⟩ := (Option.any_eq_true _ _).mp hstep
  rw [Bool.and_eq_true, beq_iff_eq] at hboth
  obtain ⟨st, hst, hafter⟩ := List.any_eq_true.mp hboth.2
  refine ⟨x, s, hx, hs, hboth.1, st, hst, ?_⟩
  rintro ⟨⟨y, s', hy, hs', hsame⟩, -⟩
  obtain ⟨z, hz, hrunning⟩ := active_of_any hafter
  cases hy.symm.trans hz
  rw [hs', Option.any_some, beq_iff_eq, hsame.state, hboth.1] at hrunning
  cases hrunning

end Aiwatcher.Engine
