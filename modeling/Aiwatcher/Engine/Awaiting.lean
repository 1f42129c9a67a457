import Aiwatcher.Engine.Attempts

/-!
# Aiwatcher.Engine.Awaiting

A step holds an open question exactly while it is `AwaitingInput`, as long as nothing
reports about a parked step what leaves its question open (`keepsAwaiting`).
-/

namespace Aiwatcher.Engine

open Library List Bool RunState StepState

/-! ## The agreement, and the inputs that keep it -/

/-- A step's question and its state agree. -/
def StepState.AwaitingAgrees (s : StepState) : Prop :=
  s.awaiting.isSome = true ↔ s.state.stateType = .awaitingInput

def Execution.AwaitingAgrees (x : Execution) : Prop :=
  ∀ t s, x.step t = some s → s.AwaitingAgrees

/-- Whether a step is `AwaitingInput`. -/
def Execution.isParked (x : Execution) (id : String) : Bool :=
  (x.step id).any (·.state.stateType == .awaitingInput)

/-- Whether a failure of `id` skips nothing that is parked. -/
def Execution.unparkedBelow (x : Execution) (id : String) : Bool :=
  (x.plan.downstreamOf id).all fun child => child == id || !x.isParked child

/-- Whether an answer to `id` moves it on: a hosted run's worker is left to do so. -/
def Execution.answerMoves (x : Execution) (id : String) : Bool :=
  x.plan.asksSomebody id || x.mode == .compiled

/-- Whether an input leaves every question in agreement with its step. -/
def Execution.keepsAwaiting (x : Execution) : WorkflowMessage → Bool
  | .event (.stepStarted id _) | .event (.stepCacheHit id ..) => !x.isParked id
  | .event (.stepFailed id _ error) => x.retriesFailure id error || x.unparkedBelow id
  | .command (.provideInput id ..) => x.answerMoves id
  | .command (.timeoutInput id _) =>
    match x.openPolicy id with
    | some .fail => x.unparkedBelow id
    | some (.answer _) => x.answerMoves id
    | _ => true
  | _ => true

variable {d : Digests} {x : Execution} {now : OffsetDateTime} {input : WorkflowMessage}
  {t : String} {s : StepState}

theorem awaiting_eq_none (h : s.AwaitingAgrees) (hst : s.state.stateType ≠ .awaitingInput) :
    s.awaiting = none := by
  cases hq : s.awaiting with
  | none => rfl
  | some q => exact absurd (h.mp (by simp [hq])) hst

theorem agrees_of_none (hq : s.awaiting = none) (hst : s.state.stateType ≠ .awaitingInput) :
    s.AwaitingAgrees := by
  simp [StepState.AwaitingAgrees, hq, hst]

theorem not_parked_of_step (hs : x.step t = some s) (h : x.isParked t = false) :
    s.state.stateType ≠ .awaitingInput := by
  simpa [Execution.isParked, hs] using h

theorem not_awaitingInput_of_isTerminal {st : StateType} (h : st.isTerminal = true) :
    st ≠ .awaitingInput := by
  rintro rfl
  cases h

/-! ## What a decision does to one step -/

theorem agrees_attemptMessages {e : String} {n : UInt32} {p : PlanStep} {key : Option String}
    (hq : s.awaiting = none) : (s.record (attemptMessages e t n p key now)).AwaitingAgrees := by
  unfold attemptMessages
  cases p.runtime.question with
  | none => exact agrees_of_none hq (by simp [StepState.apply, pushAttempt, of])
  | some spec => simp [StepState.AwaitingAgrees, StepState.apply, of]

theorem agrees_replicate_attemptMessages {e : String} {n : UInt32} {p : PlanStep}
    {key : Option String} (hq : s.awaiting = none) (again : Nat) :
    (s.record (List.replicate (again + 1) (attemptMessages e t n p key now)).flatten).AwaitingAgrees := by
  cases hask : p.runtime.question with
  | none =>
    have hkeeps : ∀ k, (s.record
        (List.replicate k (attemptMessages e t n p key now)).flatten).awaiting = none := by
      intro k
      induction k with
      | zero => exact hq
      | succ k ih =>
        rw [replicate_succ', flatten_append, flatten_singleton, record_append]
        generalize s.record _ = s' at ih
        simp [attemptMessages, hask, StepState.apply, pushAttempt, ih]
    rw [replicate_succ', flatten_append, flatten_singleton, record_append]
    exact agrees_attemptMessages (hkeeps again)
  | some spec =>
    rw [replicate_succ', flatten_append, flatten_singleton, record_append]
    simp [attemptMessages, hask, StepState.AwaitingAgrees, StepState.apply, of]

theorem answerMoves_of_answers {answeredBy : String} {response : Value} (hs : x.step t = some s)
    (h : Answers x now t s input answeredBy response) :
    x.keepsAwaiting input = x.answerMoves t := by
  cases h with
  | provided _ _ _ => rfl
  | lapsed hopen hpolicy => simp [Execution.keepsAwaiting, openPolicy_of_step hs hopen, hpolicy]

theorem unparkedBelow_of_fails {u : String} {su : StepState} (hu : x.step u = some su)
    {attempt : UInt32} {error : StepError} (h : Fails x u su input attempt error)
    (hkeeps : x.keepsAwaiting input = true) : x.unparkedBelow u = true := by
  cases h with
  | reported hp _ hspent =>
    have hno : x.retriesFailure u error = false := by
      simp [Execution.retriesFailure, hu, hp, hspent]
    simpa [Execution.keepsAwaiting, hno] using hkeeps
  | lapsed hopen hpolicy =>
    simpa [Execution.keepsAwaiting, openPolicy_of_step hu hopen, hpolicy] using hkeeps

/-- **One decision**: a move whose input keeps the agreement keeps it for its step. -/
theorem agrees_of_move {about : List WorkflowMessage} (hs : x.step t = some s)
    (hagrees : s.AwaitingAgrees) (hkeeps : x.keepsAwaiting input = true)
    (h : Move x now input t s about) : (s.record about).AwaitingAgrees := by
  cases h with
  | untouched => exact hagrees
  | dispatched _ hfresh _ _ _ _ =>
    exact agrees_replicate_attemptMessages (awaiting_eq_none hagrees (by simp [hfresh])) _
  | skippedByCancel _ hopen =>
    have hnot : s.state.stateType ≠ .awaitingInput := by
      rcases hopen with h | h <;> simp [h]
    have hnone := awaiting_eq_none hagrees hnot
    exact agrees_of_none hnone (by simp [StepState.apply, named])
  | @skippedBelow u reason su attempt error hu hfails hbelow hne hopen =>
    -- a parked step below the failure would be skipped with its question open
    have hnot : s.state.stateType ≠ .awaitingInput := by
      have hclean := all_eq_true.mp (unparkedBelow_of_fails hu hfails hkeeps) t hbelow
      simp only [or_eq_true, beq_iff_eq, not_eq_true'] at hclean
      exact not_parked_of_step hs (hclean.resolve_left fun h => hne h.symm)
    have hnone := awaiting_eq_none hagrees hnot
    exact agrees_of_none hnone (by simp [StepState.apply, named])
  | retried _ _ hfailed _ =>
    refine agrees_attemptMessages (awaiting_eq_none hagrees ?_)
    rcases hfailed with h | h <;> simp [h]
  | answered _ _ => exact agrees_of_none rfl (by simp [StepState.apply, of])
  | answeredHosted hanswers hasks hmode =>
    rw [answerMoves_of_answers hs hanswers, Execution.answerMoves, hasks, hmode] at hkeeps
    cases hkeeps
  | answeredWorker _ _ _ _ =>
    rw [record_cons_event]
    exact agrees_attemptMessages rfl
  | started hinput =>
    rw [hinput, Execution.keepsAwaiting, not_eq_true'] at hkeeps
    have hnone := awaiting_eq_none hagrees (not_parked_of_step hs hkeeps)
    exact agrees_of_none hnone (by simp [StepState.apply, of])
  | asked _ _ => simp [StepState.AwaitingAgrees, StepState.apply, of]
  | finished hfin =>
    cases hfin with
    | completed _ => exact agrees_of_none rfl (by simp [StepState.apply, of])
    | cacheHit _ =>
      rw [Execution.keepsAwaiting, not_eq_true'] at hkeeps
      have hnone := awaiting_eq_none hagrees (not_parked_of_step hs hkeeps)
      exact agrees_of_none hnone (by simp [StepState.apply, named])
    | skipped _ _ => exact agrees_of_none rfl (by simp [StepState.apply, of])
  | failedRetrying _ _ _ _ =>
    exact agrees_of_none rfl
      (by simp [retryMessages, StepState.apply, pushAttempt, named])
  | @failed attempt error _ =>
    refine agrees_of_none rfl (not_awaitingInput_of_isTerminal ?_)
    exact isTerminal_attemptState error.failureClass

/-! ## Over a run -/

theorem awaitingAgrees_record {msgs : List WorkflowMessage} (hx : x.AwaitingAgrees)
    (hkeeps : x.keepsAwaiting input = true)
    (hmove : ∀ t s, x.step t = some s → Move x now input t s (aboutStep t msgs)) :
    (x.record msgs).AwaitingAgrees := by
  intro t s' hs'
  obtain ⟨s, hs, rfl⟩ := exists_step_of_record hs'
  exact agrees_of_move hs (hx t s hs) hkeeps (hmove t s hs)

theorem awaitingAgrees_of_opens (h : Opens input x) :
    (x.record (dispatchMessages d x now)).AwaitingAgrees := by
  have hfresh : x.AwaitingAgrees := by
    intro t s hs
    obtain ⟨kind, rfl⟩ := fresh_of_opens h hs
    exact agrees_of_none rfl (by simp [fresh, of])
  have hkeeps : x.keepsAwaiting input = true := by
    cases h
    rfl
  exact awaitingAgrees_record hfresh hkeeps fun t s hs => move_of_opens h hs

/-- **A step holds an open question exactly while it is `AwaitingInput`**, in every state
reached by a run none of whose inputs leaves the question of a parked step behind. -/
theorem awaiting_agrees (d : Digests) (is : List Delivery)
    (h : ∀ st ∈ (machine d).run .empty is, ∀ x, st.before = .active x →
      x.keepsAwaiting st.input.input = true) :
    ∀ st ∈ (machine d).run .empty is, ∀ y, st.after = .active y → ∀ t s, y.step t = some s →
      (s.awaiting.isSome = true ↔ s.state.stateType = .awaitingInput) := by
  intro st hst y hy
  have hinv := Machine.inv_of_mem_run (M := machine d)
    (ExecutionState.Holds fun x => x.WellFormed ∧ x.AwaitingAgrees)
    (fun state i => ∀ x, state = .active x → x.keepsAwaiting i.input = true)
    (by
      intro state i out state' hinv hkeeps hstep
      rcases step_cases hstep with ⟨x, rfl, hopens, -, rfl⟩ | ⟨x, rfl, hdecided, rfl⟩
      · exact ⟨wellFormed_record (wellFormed_of_opens hopens) _, awaitingAgrees_of_opens hopens⟩
      · obtain ⟨hwf, hagrees⟩ : x.WellFormed ∧ x.AwaitingAgrees := hinv
        exact ⟨wellFormed_record hwf _, awaitingAgrees_record hagrees (hkeeps x rfl)
          fun t s hs => move_of_decided hwf hdecided hs⟩)
    (s := .empty) trivial h st hst
  rw [hy] at hinv
  exact hinv.2.2

/-- A worker's question is asked and answered. -/
def askedAndAnswered : List Delivery :=
  toldInOrder [startOf (planOf [workerStep "work"] []), .event (.stepStarted "work" 1),
    .event (.inputRequested "work" 1 ⟨"go on?", "reviewer", [], none, none⟩),
    .command (.provideInput "work" 1 "somebody" (.string "yes")),
    .event (.stepStarted "work" 2)]

theorem askedAndAnswered_agrees :
    (machine plainDigests).accepts .empty askedAndAnswered = true ∧ ∀ st ∈ (machine plainDigests).run .empty askedAndAnswered, ∀ y, st.after = .active y →
      ∀ t s, y.step t = some s →
        (s.awaiting.isSome = true ↔ s.state.stateType = .awaitingInput) := by
  refine ⟨by decide +kernel, awaiting_agrees plainDigests askedAndAnswered ?_⟩
  have hrun : ((machine plainDigests).run .empty askedAndAnswered).all (fun st =>
      st.before.isActive.all fun x => x.keepsAwaiting st.input.input) = true := by
    decide +kernel
  intro st hst x hx
  have hone := List.all_eq_true.mp hrun st hst
  rw [hx] at hone
  exact hone

/-- A question is open when the report of the start is delivered again. -/
def startedWhileParked : List Delivery :=
  toldInOrder [startOf (planOf [workerStep "work"] []), .event (.stepStarted "work" 1),
    .event (.inputRequested "work" 1 ⟨"go on?", "reviewer", [], none, none⟩),
    .event (.stepStarted "work" 1)]

/-- The step is running and its question is still open. -/
theorem late_start_leaves_the_question_open :
    ∃ y s, (machine plainDigests).last .empty startedWhileParked = .active y ∧
      y.step "work" = some s ∧ s.state.stateType = .running ∧ s.awaiting.isSome = true := by
  have hrun : ((machine plainDigests).last .empty startedWhileParked).isActive.any (fun y =>
      (y.step "work").any fun s => s.state.stateType == .running && s.awaiting.isSome) = true := by
    decide +kernel
  obtain ⟨y, hy, hstep⟩ := active_of_any hrun
  obtain ⟨s, hs, hboth⟩ := (Option.any_eq_true _ _).mp hstep
  rw [Bool.and_eq_true, beq_iff_eq] at hboth
  exact ⟨y, s, hy, hs, hboth⟩

end Aiwatcher.Engine
