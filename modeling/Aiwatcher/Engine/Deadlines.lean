import Aiwatcher.Engine.Attempts

/-!
# Aiwatcher.Engine.Deadlines

The timer table and the open questions agree: a deadline has a row exactly while its
question is open (`openDeadline`), and a row that has fired is gone.
-/

namespace Aiwatcher.Engine

open Library List Execution

/-! ## Deadlines that should have a row -/

/-- Whether a step waits for an answer until some deadline. -/
def StepState.onClock (s : StepState) : Bool :=
  s.state.stateType == .awaitingInput && s.awaiting.any (·.deadline.isSome)

/-- Whether attempt `n` of step `t` waits for an answer until some deadline. -/
def Execution.openDeadline (x : Execution) (t : String) (n : UInt32) : Bool :=
  (x.step t).any fun s => s.currentAttempt == n && s.onClock

/-- Whether step `id` waits for an answer until some deadline. -/
def Execution.onClock (x : Execution) (id : String) : Bool := (x.step id).any StepState.onClock

theorem openDeadline_of_step {x : Execution} {t : String} {s : StepState} (hs : x.step t = some s)
    (n : UInt32) : x.openDeadline t n = (s.currentAttempt == n && s.onClock) := by
  rw [openDeadline, hs, Option.any_some]

theorem onClock_of_step {x : Execution} {t : String} {s : StepState} (hs : x.step t = some s) :
    x.onClock t = s.onClock := by
  rw [onClock, hs, Option.any_some]

theorem openDeadline_iff {x : Execution} {t : String} {n : UInt32} :
    x.openDeadline t n = true ↔ ∃ s q, x.step t = some s ∧ s.state.stateType = .awaitingInput ∧
      s.currentAttempt = n ∧ s.awaiting = some q ∧ q.deadline.isSome = true := by
  cases hs : x.step t with
  | none => simp [openDeadline, hs]
  | some s =>
    cases hq : s.awaiting <;>
      simp [openDeadline_of_step hs, StepState.onClock, hq, and_comm, and_left_comm]

/-! ## The inputs that keep the agreement -/

/-- Whether nothing below `id` waits for an answer until some deadline. -/
def Execution.unclockedBelow (x : Execution) (id : String) : Bool :=
  (x.plan.downstreamOf id).all fun child => child == id || !x.onClock child

/-- Whether a decision that ends attempt `n` of `id` retires its deadline. -/
def Execution.endRetires (x : Execution) (id : String) (n : UInt32) : Bool :=
  !x.onClock id || (authoredDeadline x id && (x.step id).any (·.currentAttempt == n))

/-- Whether an input leaves the timer table in agreement. -/
def Execution.keepsDeadlines (x : Execution) : WorkflowMessage → Bool
  | .event (.stepStarted id _) | .event (.stepCacheHit id ..) => !x.onClock id
  | .event (.inputRequested id _ request) => !x.onClock id || request.deadline.isSome
  | .event (.stepCompleted id attempt ..) => x.endRetires id attempt
  | .event (.stepFailed id attempt error) =>
    x.endRetires id attempt && (x.retriesFailure id error || x.unclockedBelow id)
  | .command (.timeoutInput id attempt) =>
    match x.openPolicy id with
    | some .fail => x.endRetires id attempt && x.unclockedBelow id
    | some .skip => x.endRetires id attempt
    | _ => true
  | _ => true

variable {d : Digests} {x y : Execution} {now : OffsetDateTime} {input : WorkflowMessage}
  {t : String} {s : StepState}

theorem unclockedBelow_of_fails (hs : x.step t = some s) {attempt : UInt32} {error : StepError}
    (h : Fails x t s input attempt error) (hkeeps : x.keepsDeadlines input = true) :
    x.endRetires t attempt = true ∧ x.unclockedBelow t = true := by
  cases h with
  | reported hp _ hspent =>
    have hno : x.retriesFailure t error = false := by
      simp [retriesFailure, hs, hp, hspent]
    simpa [keepsDeadlines, hno] using hkeeps
  | lapsed hopen hpolicy =>
    simpa [keepsDeadlines, openPolicy_of_step hs hopen, hpolicy] using hkeeps

/-! ## What one message does to one row -/

/-- Whether the deadline of attempt `n` of step `t` has a row after a message, from whether
it had one; `clocked` says whether this decision retires deadlines of `t`. -/
def timerAfter (t : String) (n : UInt32) (clocked there : Bool) : WorkflowMessage → Bool
  | .event (.inputRequested id number request) =>
    there || (request.deadline.isSome && (id == t && number == n))
  | .event (.inputProvided id number ..) | .event (.stepCompleted id number ..)
  | .event (.stepFailed id number _) => there && !(clocked && (id == t && number == n))
  | _ => there

theorem timerAfter_of_ne {m : WorkflowMessage} (h : m.stepId? ≠ some t) (n : UInt32)
    (clocked there : Bool) : timerAfter t n clocked there m = there := by
  cases m with
  | hosted _ => rfl
  | command c => rfl
  | event e =>
    cases e <;> simp_all [timerAfter, WorkflowMessage.stepId?, WorkflowEvent.stepId?]

theorem foldl_timerAfter_aboutStep (t : String) (n : UInt32) (clocked : Bool)
    (msgs : List WorkflowMessage) (there : Bool) :
    msgs.foldl (timerAfter t n clocked) there =
      (aboutStep t msgs).foldl (timerAfter t n clocked) there := by
  induction msgs generalizing there with
  | nil => rfl
  | cons m ms ih =>
    by_cases hm : m.stepId? = some t
    · rw [aboutStep_cons_of_eq hm, foldl_cons, foldl_cons, ih]
    · rw [aboutStep_cons_of_ne hm, foldl_cons, timerAfter_of_ne hm, ih]

/-- Whether a decision saying these things about `t` retires deadlines of `t`. -/
def clockedBy (run : Execution) (t : String) (msgs : List WorkflowMessage) : Bool :=
  msgs.any (·.asksOrAnswers t) || authoredDeadline run t

theorem hasDeadline_eq (run : Execution) (out : List PendingMessage) (t : String) :
    hasDeadline run out t = clockedBy run t (aboutStep t (contents out)) := by
  have hsubject : ∀ m : WorkflowMessage, m.asksOrAnswers t = (m.stepId? == some t && m.asksOrAnswers t) := by
    intro m
    cases m with
    | event e =>
      cases e <;> simp [WorkflowMessage.asksOrAnswers, WorkflowMessage.stepId?,
        WorkflowEvent.stepId?]
    | _ => simp [WorkflowMessage.asksOrAnswers]
  rw [hasDeadline, clockedBy, waitingHere, aboutStep, any_filter, contents, any_map]
  congr 2
  funext m
  exact hsubject m.message

theorem timerAfter_eq (execution : String) (run : Execution) (out : List PendingMessage)
    (t : String) (n : UInt32) (there : Bool) (m : PendingMessage) :
    timerAfter t n (hasDeadline run out t) there m.message =
      ((deadlineRow execution run out m).map TimerWrite.write).elim there fun w =>
        if w.key = deadlineTimerId t n then w.leaves there else there := by
  have hid : ∀ id number, (deadlineTimerId id number = deadlineTimerId t n) ↔
      (id == t && number == n) = true := by
    intro id number
    rw [Bool.and_eq_true, beq_iff_eq, beq_iff_eq]
    refine ⟨deadlineTimerId_inj, ?_⟩
    rintro ⟨rfl, rfl⟩
    rfl
  have hcancel : ∀ id number, (there && !(hasDeadline run out t && (id == t && number == n))) =
      ((if hasDeadline run out id then some (TimerWrite.cancel (deadlineTimerId id number))
        else none).map TimerWrite.write).elim there fun w =>
          if w.key = deadlineTimerId t n then w.leaves there else there := by
    intro id number
    by_cases hsame : (id == t && number == n) = true
    · obtain ⟨rfl, rfl⟩ : id = t ∧ number = n := by simpa using hsame
      cases hd : hasDeadline run out id <;> simp [TimerWrite.write, Write.key, Write.leaves]
    · rw [Bool.not_eq_true] at hsame
      cases hd : hasDeadline run out id <;>
        simp [hsame, hid, TimerWrite.write, Write.key, Write.leaves]
  unfold deadlineRow
  cases m.message with
  | hosted _ => rfl
  | command _ => rfl
  | event e =>
    cases e with
    | inputRequested id number request =>
      cases hq : request.deadline with
      | none => simp [timerAfter, hq]
      | some dueAt =>
        by_cases hsame : (id == t && number == n) = true
        · obtain ⟨rfl, rfl⟩ : id = t ∧ number = n := by simpa using hsame
          simp [timerAfter, hq, TimerWrite.write, Write.key, Write.leaves, deadlineTimer]
        · rw [Bool.not_eq_true] at hsame
          simp [timerAfter, hq, hsame, hid, TimerWrite.write, Write.key, deadlineTimer]
    | inputProvided id number _ _ => exact hcancel id number
    | stepCompleted id number _ _ => exact hcancel id number
    | stepFailed id number _ => exact hcancel id number
    | _ => rfl

theorem isSome_appendTimers (execution : String) (run : Execution) (table : TimerTable)
    (out : List PendingMessage) (t : String) (n : UInt32) :
    (TimerTable.append table (deadlineRows execution (.active run) out))[deadlineTimerId t
        n]?.isSome =
      (aboutStep t (contents out)).foldl
        (timerAfter t n (clockedBy run t (aboutStep t (contents out))))
        table[deadlineTimerId t n]?.isSome := by
  rw [← foldl_timerAfter_aboutStep, ← hasDeadline_eq]
  show _ = (out.map (·.message)).foldl _ _
  rw [foldl_map]
  unfold TimerTable.append deadlineRows
  simp only [ExecutionState.isActive, map_filterMap]
  exact Write.isSome_applyAll_filterMap
    (fun there m => timerAfter_eq execution run out t n there m) out table

/-! ## One decision -/

/-- Whether dispatching a step asks a question until some deadline. -/
def PlanStep.asksOnClock (p : PlanStep) (now : OffsetDateTime) : Bool :=
  p.runtime.question.any fun spec => (spec.request now).deadline.isSome

/-- A dispatch schedules the deadline of the question it asks, if it asks one. -/
theorem timerAfter_attemptMessages (s : StepState) (e t : String) (n m : UInt32) (p : PlanStep)
    (key : Option String) (now : OffsetDateTime) (clocked there : Bool) :
    let about := attemptMessages e t n p key now
    about.foldl (timerAfter t m clocked) there = (there || (n == m && p.asksOnClock now)) ∧
      (s.record about).currentAttempt = n ∧ (s.record about).onClock = p.asksOnClock now := by
  unfold attemptMessages PlanStep.asksOnClock
  cases hq : p.runtime.question with
  | none => simp [timerAfter, StepState.onClock, StepState.apply, StepState.pushAttempt]
  | some spec =>
    refine ⟨?_, rfl, ?_⟩
    · simp [timerAfter, Bool.and_comm]
    · simp [StepState.onClock, StepState.apply]

theorem timerAfter_replicate (s : StepState) (e t : String) (m : UInt32) (p : PlanStep)
    (key : Option String) (now : OffsetDateTime) (clocked : Bool) (again : Nat) :
    let about := (List.replicate (again + 1) (attemptMessages e t 1 p key now)).flatten
    about.foldl (timerAfter t m clocked) false = (1 == m && p.asksOnClock now) ∧
      (s.record about).currentAttempt = 1 ∧ (s.record about).onClock = p.asksOnClock now := by
  simp only [replicate_succ', flatten_append, flatten_singleton, foldl_append,
    StepState.record_append]
  generalize s.record (List.replicate again (attemptMessages e t 1 p key now)).flatten = s'
  obtain ⟨-, hcurrent, hclock⟩ := timerAfter_attemptMessages s' e t 1 m p key now clocked false
  refine ⟨?_, hcurrent, hclock⟩
  -- every block leaves the same row
  have hblock := fun there => (timerAfter_attemptMessages s e t 1 m p key now clocked there).1
  rw [hblock]
  induction again with
  | zero => simp
  | succ again ih =>
    rw [replicate_succ', flatten_append, flatten_singleton, foldl_append, hblock, ih]
    exact Bool.or_self _

/-- **One decision** keeps the deadline of a step in agreement with the step. -/
theorem openDeadline_of_move {about : List WorkflowMessage} (hs : x.step t = some s)
    (h : Move x now input t s about) (hkeeps : x.keepsDeadlines input = true)
    (hplan : y.plan = x.plan) (hy : y.step t = some (s.record about)) (n : UInt32) :
    about.foldl (timerAfter t n (clockedBy y t about)) (x.openDeadline t n) =
      y.openDeadline t n := by
  have hauthored : authoredDeadline y t = authoredDeadline x t := by
    rw [authoredDeadline, authoredDeadline, hplan]
  have hidle : s.onClock = false → x.openDeadline t n = false := by
    intro hno
    rw [openDeadline_of_step hs, hno, Bool.and_false]
  -- a step that does not wait on a clock after its record, its row gone
  have hgone : (s.record about).onClock = false →
      about.foldl (timerAfter t n (clockedBy y t about)) (x.openDeadline t n) = false →
      about.foldl (timerAfter t n (clockedBy y t about)) (x.openDeadline t n) =
        y.openDeadline t n := by
    intro hend hrow
    rw [hrow, openDeadline_of_step hy, hend, Bool.and_false]
  -- a fact that ends an attempt takes the row of the one it names
  have hretired : ∀ attempt clocked, (s.onClock = true →
      clocked = true ∧ s.currentAttempt = attempt) →
      (x.openDeadline t n && !(clocked && (t == t && attempt == n))) = false := by
    intro attempt clocked hends
    cases hclock : s.onClock with
    | false => rw [hidle hclock, Bool.false_and]
    | true =>
      obtain ⟨rfl, rfl⟩ := hends hclock
      rw [openDeadline_of_step hs]
      cases s.currentAttempt == n <;> simp
  have hends : ∀ attempt, x.endRetires t attempt = true → s.onClock = true →
      authoredDeadline y t = true ∧ s.currentAttempt = attempt := by
    intro attempt hretires hclock
    rw [endRetires, onClock_of_step hs, hclock, hs] at hretires
    rw [hauthored]
    simpa using hretires
  -- an answer takes the row of the question it answers
  have hanswered : ∀ answeredBy response rest, clockedBy y t (.event (.inputProvided t
      s.currentAttempt answeredBy response) :: rest) = true := by
    intro answeredBy response rest
    simp [clockedBy, WorkflowMessage.asksOrAnswers]
  have hprovided : ∀ answeredBy response, timerAfter t n true (x.openDeadline t n)
      (.event (.inputProvided t s.currentAttempt answeredBy response)) = false :=
    fun _ _ => hretired s.currentAttempt true fun _ => ⟨rfl, rfl⟩
  cases h with
  | untouched =>
    rw [openDeadline_of_step hy]
    exact openDeadline_of_step hs n
  | @dispatched p key again _ hfresh _ _ _ _ =>
    rw [hidle (by simp [StepState.onClock, hfresh])]
    obtain ⟨hrow, hcurrent, hclock⟩ := timerAfter_replicate s x.executionId t n p key now
      (clockedBy y t (List.replicate (again + 1)
        (attemptMessages x.executionId t 1 p key now)).flatten) again
    rw [hrow, openDeadline_of_step hy, hcurrent, hclock]
  | @retried p key _ _ hfailed _ =>
    rw [hidle (by rcases hfailed with hst | hst <;> simp [StepState.onClock, hst])]
    obtain ⟨hrow, hcurrent, hclock⟩ := timerAfter_attemptMessages s x.executionId t
      (s.currentAttempt + 1) n p key now (clockedBy y t
        (attemptMessages x.executionId t (s.currentAttempt + 1) p key now)) false
    rw [hrow, openDeadline_of_step hy, hcurrent, hclock, Bool.false_or]
  | skippedByCancel _ hopen =>
    refine hgone rfl ?_
    rw [hidle (by rcases hopen with hst | hst <;> simp [StepState.onClock, hst])]
    rfl
  | skippedBelow hu hfails hbelow hne _ =>
    have hfree := all_eq_true.mp (unclockedBelow_of_fails hu hfails hkeeps).2 t hbelow
    rw [onClock_of_step hs] at hfree
    refine hgone rfl ?_
    rw [hidle (by simpa [Ne.symm hne] using hfree)]
    rfl
  | @answered answeredBy response _ _ =>
    refine hgone rfl ?_
    rw [hanswered, foldl_cons, hprovided answeredBy response]
    rfl
  | @answeredHosted answeredBy response _ _ _ =>
    refine hgone ?_ ?_
    · simp [StepState.onClock, StepState.apply]
    · rw [hanswered, foldl_cons, hprovided answeredBy response]
      rfl
  | @answeredWorker answeredBy response p key _ _ _ _ =>
    obtain ⟨hrow, hcurrent, hclock⟩ := timerAfter_attemptMessages
      (s.apply (.inputProvided t s.currentAttempt answeredBy response)) x.executionId t
      (s.currentAttempt + 1) n p key now true false
    rw [hanswered, foldl_cons, hprovided answeredBy response, hrow, openDeadline_of_step hy,
      StepState.record_cons_event, hcurrent, hclock, Bool.false_or]
  | started hinput =>
    rw [hinput] at hkeeps
    have hno : s.onClock = false := by
      simpa [keepsDeadlines, onClock_of_step hs] using hkeeps
    refine hgone rfl ?_
    rw [hidle hno]
    rfl
  | @asked request hinput _ =>
    rw [hinput] at hkeeps
    have hkeeps : s.onClock = false ∨ request.deadline.isSome = true := by
      simpa [keepsDeadlines, onClock_of_step hs] using hkeeps
    have hasked : (s.record [.event (.inputRequested t s.currentAttempt request)]).onClock =
        request.deadline.isSome := rfl
    have hcurrent : (s.record [.event (.inputRequested t s.currentAttempt
        request)]).currentAttempt = s.currentAttempt := rfl
    rw [openDeadline_of_step hs, openDeadline_of_step hy, hasked, hcurrent]
    rcases hkeeps with hno | hsome
    · simp [timerAfter, hno, Bool.and_comm]
    · rw [hsome]
      cases hn : s.currentAttempt == n <;> simp [timerAfter, hsome, hn]
  | finished hfin =>
    cases hfin with
    | completed _ => exact hgone rfl (hretired _ _ (hends _ hkeeps))
    | cacheHit _ =>
      have hno : s.onClock = false := by
        simpa [keepsDeadlines, onClock_of_step hs] using hkeeps
      refine hgone rfl ?_
      rw [hidle hno]
      rfl
    | skipped hopen hpolicy =>
      have hretires : x.endRetires t s.currentAttempt = true := by
        simpa [keepsDeadlines, openPolicy_of_step hs hopen, hpolicy] using hkeeps
      exact hgone rfl (hretired _ _ (hends _ hretires))
  | @failedRetrying p attempt error hinput _ _ _ =>
    rw [hinput] at hkeeps
    simp only [keepsDeadlines, Bool.and_eq_true] at hkeeps
    exact hgone rfl (hretired _ _ (hends attempt hkeeps.1))
  | @failed attempt error hfails =>
    have hretires := (unclockedBelow_of_fails hs hfails hkeeps).1
    refine hgone ?_ (hretired _ _ (hends attempt hretires))
    cases hc : error.failureClass <;>
      simp [StepState.onClock, StepState.apply, hc, FailureClass.attemptState]

/-! ## Deliveries and firings -/

/-- What holds of a timed run: rows are the open deadlines, each under its own id, and the
inbox is part of the stream. -/
structure TimedRun.Sound (execution : String) (state : TimedRun) : Prop where
  wellFormed : state.run.Holds Execution.WellFormed
  agree : ∀ t n, state.timers[deadlineTimerId t n]?.isSome =
    state.run.isActive.any fun x => x.openDeadline t n
  rows : ∀ (id : String) timer, state.timers[id]? = some timer →
    ∃ t n dueAt, id = deadlineTimerId t n ∧ timer = deadlineTimer execution t n dueAt
  inbox : ∀ id ∈ state.seen, id ∈ state.stream

/-- Whether an input leaves the timer table in agreement: a redelivery does, and a row that
fires is fired for the first time, on a question with a policy. -/
def TimedRun.keepsDeadlines (d : Digests) (state : TimedRun) : TimedInput → Bool
  | .deliver i =>
    state.stream.contains i.cause || state.run.isActive.all fun x => x.keepsDeadlines i.input
  | .fire timerId _ =>
    state.timers[timerId]?.all fun timer =>
      !state.stream.contains (timer.firedId d) && timer.question.all fun question =>
        state.run.isActive.all fun x => (x.openPolicy question.1).isSome &&
          x.keepsDeadlines (.command (.timeoutInput question.1 question.2))

theorem question_deadlineTimer (execution t : String) (n : UInt32) (dueAt : OffsetDateTime) :
    (deadlineTimer execution t n dueAt).question = some (t, n) := by
  simp [Timer.question, deadlineTimer, Value.get, Value.asStr, Value.asU64]

theorem openDeadline_of_no_step (h : x.step t = none) (n : UInt32) : x.openDeadline t n = false := by
  rw [openDeadline, h, Option.any_none]

variable {before after : TimedRun} {execution : String} {out : List PendingMessage}

/-- The deadlines of a run that opens or decides, appended with what it said. -/
theorem agree_append {i : Delivery} {msgs : List WorkflowMessage} {table : TimerTable}
    (habout : ∀ t, aboutStep t (contents out) = aboutStep t msgs)
    (hmoves : ∀ t s, x.step t = some s → Move x i.now i.input t s (aboutStep t msgs))
    (hsteps : ∀ m ∈ msgs, ∀ t, m.stepId? = some t → ∃ s, x.step t = some s)
    (hkeeps : x.keepsDeadlines i.input = true)
    (hagree : ∀ t n, table[deadlineTimerId t n]?.isSome = x.openDeadline t n) (t : String)
    (n : UInt32) :
    (TimerTable.append table (deadlineRows execution (.active (x.record msgs))
      out))[deadlineTimerId t n]?.isSome = (x.record msgs).openDeadline t n := by
  rw [isSome_appendTimers, habout, hagree]
  cases hs : x.step t with
  | some s =>
    exact openDeadline_of_move hs (hmoves t s hs) hkeeps (plan_record x msgs)
      (step_record_of_some hs msgs) n
  | none =>
    have hnil : aboutStep t msgs = [] := by
      refine aboutStep_of_forall_ne fun m hm ht => ?_
      obtain ⟨s, hs'⟩ := hsteps m hm t ht
      rw [hs] at hs'
      cases hs'
    rw [hnil, openDeadline_of_no_step hs, openDeadline_of_no_step (by rw [step_record, hs]; rfl)]
    rfl

theorem rows_append {after : ExecutionState}
    {table : TimerTable} (hrows : ∀ (id : String) timer, table[id]? = some timer →
      ∃ t n dueAt, id = deadlineTimerId t n ∧ timer = deadlineTimer execution t n dueAt) :
    ∀ (id : String) timer,
      (TimerTable.append table (deadlineRows execution after out))[id]? = some timer →
      ∃ t n dueAt, id = deadlineTimerId t n ∧ timer = deadlineTimer execution t n dueAt := by
  have hwrite : ∀ w ∈ (deadlineRows execution after out).map TimerWrite.write,
      (∃ t n dueAt, w = .put (deadlineTimerId t n) (deadlineTimer execution t n dueAt)) ∨
        ∃ id, w = .drop id := by
    intro w hw
    obtain ⟨row, hrow, rfl⟩ := mem_map.mp hw
    cases after with
    | empty => cases hrow
    | active run =>
      obtain ⟨m, -, hsome⟩ := mem_filterMap.mp hrow
      have hcancel : ∀ {c : Prop} [Decidable c] {id : String},
          (if c then some (TimerWrite.cancel id) else none) = some row →
          ∃ id, row.write = .drop id := by
        intro c _ id hrow
        cases (Option.ite_none_right_eq_some.mp hrow).2
        exact ⟨id, rfl⟩
      unfold deadlineRow at hsome
      split at hsome
      · obtain ⟨dueAt, -, rfl⟩ := Option.map_eq_some_iff.mp hsome
        exact Or.inl ⟨_, _, dueAt, rfl⟩
      · exact Or.inr (hcancel hsome)
      · exact Or.inr (hcancel hsome)
      · exact Or.inr (hcancel hsome)
      · cases hsome
  refine Write.forall_applyAll ?_ ?_ hrows
  · intro id timer hput
    rcases hwrite _ hput with ⟨t, n, dueAt, heq⟩ | ⟨_, heq⟩
    · cases heq
      exact ⟨t, n, dueAt, rfl, rfl⟩
    · cases heq
  · intro id f hedit
    rcases hwrite _ hedit with ⟨_, _, _, heq⟩ | ⟨_, heq⟩ <;> cases heq

theorem append_of_new {before : TimedRun} {inputId : String} (h : before.Sound execution)
    (hnew : before.stream.contains inputId = false) (after : ExecutionState)
    (out : List PendingMessage) (rows : List TimerWrite) :
    before.append inputId after out rows = {
      run := after
      timers := TimerTable.append before.timers rows
      stream := before.stream ++ inputId :: out.map (·.metadata.messageId)
      seen := before.seen ++ [inputId] } := by
  refine if_neg fun hseen => ?_
  have hstream := contains_iff_mem.mpr (h.inbox _ (contains_iff_mem.mp hseen))
  rw [hnew] at hstream
  cases hstream

theorem sound_deliver {i : Delivery} (h : before.Sound execution)
    (hkeeps : before.stream.contains i.cause = true ∨
      before.run.isActive.all (fun x => x.keepsDeadlines i.input) = true)
    (hstep : before.deliver d execution i = some (out, after)) : after.Sound execution := by
  unfold TimedRun.deliver at hstep
  split at hstep
  · cases hstep
    exact h
  · rename_i hnew
    have hkeeps := hkeeps.resolve_left hnew
    obtain ⟨⟨out', state'⟩, hdecided, heq⟩ := Option.map_eq_some_iff.mp hstep
    cases heq
    rw [append_of_new h (by simpa using hnew)]
    have hinbox : ∀ id ∈ before.seen ++ [i.cause],
        id ∈ before.stream ++ i.cause :: out'.map (·.metadata.messageId) := by
      intro id hid
      rcases mem_append.mp hid with hid | hid
      · exact mem_append_left _ (h.inbox id hid)
      · exact mem_append_right _ (by simp [mem_singleton.mp hid])
    rcases step_cases hdecided with ⟨x, hrun, hopens, hout, rfl⟩ | ⟨x, hrun, hdec, rfl⟩
    · refine ⟨wellFormed_record (wellFormed_of_opens hopens) _, ?_, rows_append h.rows, hinbox⟩
      refine agree_append (i := i) ?_ (fun t s hs => move_of_opens hopens hs)
        (fun m hm t ht => exists_step_of_mem_dispatchMessages hm ht) ?_ ?_
      · intro t
        rw [hout, aboutStep_append]
        rfl
      · generalize i.input = input at hopens
        cases hopens
        rfl
      · intro t n
        rw [h.agree, hrun]
        cases hs : x.step t with
        | none => exact (openDeadline_of_no_step hs n).symm
        | some s =>
          obtain ⟨kind, rfl⟩ := fresh_of_opens hopens hs
          rw [openDeadline_of_step hs, StepState.onClock]
          simp [ExecutionState.isActive, StepState.fresh]
    · have hx : x.WellFormed := by
        have hwf := h.wellFormed
        rw [hrun] at hwf
        exact hwf
      rw [hrun] at hkeeps
      refine ⟨wellFormed_record hx _, ?_, rows_append h.rows, hinbox⟩
      refine agree_append (i := i) (fun _ => rfl) (fun t s hs => move_of_decided hx hdec hs)
        (fun m hm t ht => exists_step_of_mem hx hdec hm ht) hkeeps ?_
      intro t n
      rw [h.agree, hrun]
      rfl

/-- A deadline that runs out on an open question with a policy is accepted. -/
theorem timeout_accepted {q : InputRequest} (hs : x.step t = some s) (hopen : s.awaiting = some q)
    (hpolicy : (timeoutPolicy x t q).isSome = true) (cause : String) :
    ((machine d).step (.active x)
      ⟨.command (.timeoutInput t s.currentAttempt), cause, now⟩).isSome = true := by
  obtain ⟨policy, hpolicy⟩ := Option.isSome_iff_exists.mp hpolicy
  have hok : ∃ out, decide d (.active x) (.command (.timeoutInput t s.currentAttempt)) cause now =
      .ok out := by
    simp only [decide, decideActive, decideTimeoutInput, stepOf, hs]
    cases policy <;> simp [hopen, hpolicy, bind, Except.bind]
  obtain ⟨out, hok⟩ := hok
  simp [machine, hok]

theorem not_openDeadline_of_timeout {n : UInt32} {msgs : List WorkflowMessage} (hx : x.WellFormed)
    (h : Decided d x now (.command (.timeoutInput t n)) msgs) (hs : x.step t = some s)
    (hclock : s.onClock = true) : (x.record msgs).openDeadline t n = false := by
  have hsaid : aboutStep t msgs ≠ [] := by
    cases h with
    | answered _ hanswers =>
      cases hanswers
      rw [aboutStep_cons_of_eq rfl]
      exact cons_ne_nil _ _
    | finished _ hfin =>
      cases hfin
      rw [aboutStep_cons_of_eq rfl]
      exact cons_ne_nil _ _
    | failed _ hfails =>
      cases hfails
      rw [aboutStep_cons_of_eq rfl]
      exact cons_ne_nil _ _
    | repeated _ hin _ => cases hin
  have hmove := move_of_decided hx h hs
  rw [openDeadline_of_step (step_record_of_some hs msgs)]
  generalize aboutStep t msgs = about at hsaid hmove
  cases hmove with
  | untouched => exact absurd rfl hsaid
  | dispatched _ hfresh _ _ _ _ => simp [StepState.onClock, hfresh] at hclock
  | retried hinput _ _ _ => cases hinput
  | skippedByCancel hinput _ => cases hinput
  | skippedBelow _ hfails _ hne _ =>
    cases hfails
    exact absurd rfl hne
  | answered _ _ => exact Bool.and_false _
  | answeredHosted _ _ _ => simp [StepState.onClock, StepState.apply]
  | @answeredWorker answeredBy response p key hanswers _ _ _ =>
    cases hanswers
    obtain ⟨-, hcurrent, -⟩ := timerAfter_attemptMessages
      (s.apply (.inputProvided t s.currentAttempt answeredByTimeout response)) x.executionId t
      (s.currentAttempt + 1) 0 p key now true true
    have hnext : (s.currentAttempt + 1 == s.currentAttempt) = false := by simp
    rw [StepState.record_cons_event, hcurrent, hnext, Bool.false_and]
  | started hinput => cases hinput
  | asked hinput _ => cases hinput
  | finished hfin =>
    cases hfin
    exact Bool.and_false _
  | failedRetrying hinput _ _ _ => cases hinput
  | failed hfails =>
    cases hfails
    exact Bool.and_false _

theorem question_of_fire {before : TimedRun} {timerId : String} {timer : Timer}
    (h : before.Sound execution) (htimer : before.timers[timerId]? = some timer) :
    ∃ x t s, before.run = .active x ∧ x.step t = some s ∧ s.onClock = true ∧
      timerId = deadlineTimerId t s.currentAttempt ∧
      timer.question = some (t, s.currentAttempt) := by
  obtain ⟨t, n, dueAt, rfl, rfl⟩ := h.rows timerId timer htimer
  have hopen := h.agree t n
  rw [htimer] at hopen
  obtain ⟨x, hrun, hopen⟩ := active_of_any hopen.symm
  cases hs : x.step t with
  | none =>
    rw [openDeadline_of_no_step hs] at hopen
    cases hopen
  | some s =>
    rw [openDeadline_of_step hs, Bool.and_eq_true, beq_iff_eq] at hopen
    obtain ⟨rfl, hclock⟩ := hopen
    exact ⟨x, t, s, hrun, hs, hclock, rfl, question_deadlineTimer execution t _ dueAt⟩

/-- **One firing** keeps the timers sound, and takes its row away. -/
theorem sound_fire {timerId : String} (h : before.Sound execution)
    (hkeeps : before.keepsDeadlines d (.fire timerId now) = true)
    (hstep : (timedMachine d execution).step before (.fire timerId now) = some (out, after)) :
    after.Sound execution ∧ after.timers[timerId]? = none := by
  obtain ⟨timer, htimer, hfired⟩ := Option.bind_eq_some_iff.mp hstep
  obtain ⟨x, t, s, hrun, hs, hclock, rfl, hquestion⟩ := question_of_fire h htimer
  simp only [TimedRun.keepsDeadlines, htimer, hquestion, hrun, ExecutionState.isActive,
    Option.all_some, Bool.and_eq_true, Bool.not_eq_true'] at hkeeps
  obtain ⟨hnew, hpolicy, hkeeps⟩ := hkeeps
  have hx : x.WellFormed := by
    have hwf := h.wellFormed
    rw [hrun] at hwf
    exact hwf
  -- the question has a policy, so the decider accepts the firing
  obtain ⟨q, hq⟩ : ∃ q, s.awaiting = some q := by
    simp only [StepState.onClock, Bool.and_eq_true, Option.any_eq_true] at hclock
    obtain ⟨-, q, hq, -⟩ := hclock
    exact ⟨q, hq⟩
  rw [openPolicy_of_step hs hq] at hpolicy
  obtain ⟨⟨out', state'⟩, hdecided⟩ := Option.isSome_iff_exists.mp
    (timeout_accepted hs hq hpolicy (timer.firedId d))
  have hdelivered : before.deliver d execution
      ⟨.command (.timeoutInput t s.currentAttempt), timer.firedId d, now⟩ =
      some (out', before.append (timer.firedId d) state' out'
        (deadlineRows execution state' out')) := by
    unfold TimedRun.deliver
    rw [if_neg (by rw [hnew]; exact Bool.false_ne_true), hrun, hdecided]
    rfl
  split at hfired
  · unfold TimedRun.fireDeadline at hfired
    simp only [hquestion, hdelivered, Option.getD_some, Option.some.injEq, Prod.mk.injEq] at hfired
    obtain ⟨rfl, hafter⟩ := hfired
    have hsound := sound_deliver h (Or.inr (by rw [hrun]; exact hkeeps)) hdelivered
    rw [hafter] at hsound
    refine ⟨hsound, ?_⟩
    -- what the run says of the question afterwards
    have hclosed : (after.run.isActive.any fun y => y.openDeadline t s.currentAttempt) = false := by
      rw [← hafter, append_of_new h hnew]
      rcases step_cases hdecided with ⟨_, hempty, -⟩ | ⟨z, hz, hdec, rfl⟩
      · cases hempty
      · cases hz
        exact not_openDeadline_of_timeout hx hdec hs hclock
    have hgone := hsound.agree t s.currentAttempt
    rw [hclosed] at hgone
    cases hrow : after.timers[deadlineTimerId t s.currentAttempt]? with
    | none => rfl
    | some row =>
      rw [hrow] at hgone
      cases hgone
  · cases hfired

/-! ## Over a run -/

theorem sound_start (execution : String) : TimedRun.start.Sound execution where
  wellFormed := trivial
  agree _ _ := by simp [TimedRun.start, ExecutionState.isActive]
  rows _ _ h := by simp [TimedRun.start] at h
  inbox _ h := by cases h

theorem sound_step {i : TimedInput} (h : before.Sound execution)
    (hkeeps : before.keepsDeadlines d i = true)
    (hstep : (timedMachine d execution).step before i = some (out, after)) :
    after.Sound execution := by
  cases i with
  | deliver i =>
    rw [TimedRun.keepsDeadlines, Bool.or_eq_true] at hkeeps
    exact sound_deliver h hkeeps hstep
  | fire timerId now => exact (sound_fire h hkeeps hstep).1

/-- **Deadlines agree with open questions** over every run whose inputs keep it so: a deadline
has a row exactly while its step waits on that attempt for an answer that has one, and a row
that has fired is gone. -/
theorem deadlines_agree_with_open_questions (d : Digests) (execution : String)
    (is : List TimedInput)
    (h : ∀ st ∈ (timedMachine d execution).run .start is,
      st.before.keepsDeadlines d st.input = true) :
    ∀ st ∈ (timedMachine d execution).run .start is,
      (∀ t n, st.after.timers[deadlineTimerId t n]?.isSome = true ↔
        ∃ y s q, st.after.run = .active y ∧ y.step t = some s ∧
          s.state.stateType = .awaitingInput ∧ s.currentAttempt = n ∧ s.awaiting = some q ∧
          q.deadline.isSome = true) ∧
      ∀ timerId now, st.input = .fire timerId now → st.after.timers[timerId]? = none := by
  have hsound := Machine.inv_of_mem_run (TimedRun.Sound execution)
    (fun state input => state.keepsDeadlines d input = true)
    (fun _ _ _ _ hsound hkeeps hstep => sound_step hsound hkeeps hstep) (sound_start execution) h
  intro st hst
  obtain ⟨hbefore, hafter⟩ := hsound st hst
  constructor
  · intro t n
    rw [hafter.agree]
    cases hrun : st.after.run with
    | empty =>
      constructor
      · intro hno
        cases hno
      · rintro ⟨y, s, q, hy, -⟩
        cases hy
    | active x =>
      show x.openDeadline t n = true ↔ _
      rw [openDeadline_iff]
      constructor
      · rintro ⟨s, q, hrest⟩
        exact ⟨x, s, q, rfl, hrest⟩
      · rintro ⟨y, s, q, hy, hrest⟩
        cases hy
        exact ⟨s, q, hrest⟩
  · intro timerId now hinput
    have hkeeps := h st hst
    have hstep := Machine.step_of_mem_run hst
    rw [hinput] at hkeeps hstep
    exact (sound_fire hbefore hkeeps hstep).2

/-- A question the plan puts to somebody, and passes over when nobody answers. -/
def gateStep (id : String) (timeoutSeconds : UInt64) : PlanStep where
  id := id
  runtime := .humanInput ⟨"publish?", "reviewer", [], none, some timeoutSeconds, .skip⟩
  inputs := []
  outputs := []
  retry := .once
  timeoutSeconds := 60
  cache := .never

/-- The gate's deadline lapses, and so does one a worker set with an answer of its own. -/
def lapsedInTime : List TimedInput :=
  [.deliver ⟨startOf (planOf [gateStep "review" 10, workerStep "work"] []), "start", 0⟩,
    .deliver ⟨.event (.stepStarted "work" 1), "started", 1⟩,
    .deliver ⟨.event (.inputRequested "work" 1
      ⟨"go on?", "reviewer", [], some 5, some (.answer (.string "yes"))⟩), "asked", 2⟩,
    .fire "input/work/1" 6,
    .fire "input/review/1" 10000000000,
    .deliver ⟨.event (.stepStarted "work" 2), "started again", 10000000001⟩]

theorem lapsedInTime_agrees :
    (timedMachine plainDigests "run").accepts .start lapsedInTime = true ∧ ∀ st ∈ (timedMachine plainDigests "run").run .start lapsedInTime,
      (∀ t n, st.after.timers[deadlineTimerId t n]?.isSome = true ↔
        ∃ y s q, st.after.run = .active y ∧ y.step t = some s ∧
          s.state.stateType = .awaitingInput ∧ s.currentAttempt = n ∧ s.awaiting = some q ∧
          q.deadline.isSome = true) ∧
      ∀ timerId now, st.input = .fire timerId now → st.after.timers[timerId]? = none :=
  ⟨by decide +kernel, deadlines_agree_with_open_questions plainDigests "run" lapsedInTime
    (List.all_eq_true.mp (by decide +kernel :
      ((timedMachine plainDigests "run").run .start lapsedInTime).all
        (fun st => st.before.keepsDeadlines plainDigests st.input) = true))⟩

/-- A worker's question whose deadline lapses into a failure. -/
def lapsedIntoFailure : List TimedInput :=
  [.deliver ⟨startOf (planOf [workerStep "work"] []), "start", 0⟩,
    .deliver ⟨.event (.stepStarted "work" 1), "started", 1⟩,
    .deliver ⟨.event (.inputRequested "work" 1
      ⟨"go on?", "reviewer", [], some 5, some .fail⟩), "asked", 2⟩,
    .fire "input/work/1" 6]

/-- The step has failed, and the row that fired is still there and due. -/
theorem lapsed_deadline_stays_due :
    ∃ y s timer, ((timedMachine plainDigests "run").last .start lapsedIntoFailure).run = .active y ∧
      y.step "work" = some s ∧ s.state.stateType = .failed ∧
      ((timedMachine plainDigests "run").last .start lapsedIntoFailure).timers[deadlineTimerId
        "work" 1]? = some timer ∧ timer.isDue 6 = true := by
  have hlast : (((timedMachine plainDigests "run").last .start lapsedIntoFailure).run.isActive.any
      fun y => (y.step "work").any fun s => s.state.stateType == .failed) = true ∧
      (((timedMachine plainDigests "run").last .start lapsedIntoFailure).timers[deadlineTimerId
        "work" 1]?.any fun timer => timer.isDue 6) = true := by
    decide +kernel
  obtain ⟨y, hy, hstep⟩ := active_of_any hlast.1
  obtain ⟨s, hs, hfailed⟩ := (Option.any_eq_true _ _).mp hstep
  obtain ⟨timer, htimer, hdue⟩ := (Option.any_eq_true _ _).mp hlast.2
  exact ⟨y, s, timer, hy, hs, by simpa using hfailed, htimer, hdue⟩

end Aiwatcher.Engine
