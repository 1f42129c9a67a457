import Aiwatcher.Engine.Attempts
import Aiwatcher.Engine.Handler

/-!
# Aiwatcher.Engine.Agreement

The claim table and the stream agree: an attempt has a row exactly while it is the
current attempt of a dispatched step and has not ended (`hasRow`), and a decision
about one attempt leaves the rows of the others alone.
-/

namespace Aiwatcher.Engine

open Library List Option Execution

/-! ## The rows a run should have -/

/-- Whether the current attempt of a step is out: scheduled, and not ended. -/
def StepState.underway (s : StepState) : Bool :=
  match s.state.stateType with
  | .pending | .running | .awaitingInput => true
  | _ => false

/-- Whether attempt `n` of step `t` should have a row. -/
def Execution.hasRow (x : Execution) (t : String) (n : UInt32) : Bool :=
  dispatchedStep x t && (x.step t).any fun s => s.currentAttempt == n && s.underway

/-- Whether step `id` should have a row at all. -/
def Execution.holdsRow (x : Execution) (id : String) : Bool :=
  dispatchedStep x id && (x.step id).any StepState.underway

variable {attempt : UInt32} {error : StepError} {p : PlanStep}

theorem dispatchedStep_of_step {x : Execution} {t : String} (hp : x.plan.step t = some p) :
    dispatchedStep x t = p.runtime.question.isNone := by
  unfold dispatchedStep
  rw [hp]
  cases hr : p.runtime <;> simp [hr, RuntimeBinding.question]

theorem dispatchedStep_eq {x : Execution} {t : String} (hp : x.plan.step t = some p) :
    dispatchedStep x t = !x.plan.asksSomebody t := by
  rw [dispatchedStep_of_step hp, ExecutionPlan.asksSomebody_of_step hp]
  cases p.runtime.question <;> rfl

theorem hasRow_of_step {x : Execution} {t : String} {s : StepState} (hs : x.step t = some s)
    (n : UInt32) :
    x.hasRow t n = (dispatchedStep x t && (s.currentAttempt == n && s.underway)) := by
  rw [hasRow, hs, any_some]

theorem hasRow_iff {x : Execution} {t : String} {n : UInt32} :
    x.hasRow t n = true ↔ ∃ s, x.step t = some s ∧ dispatchedStep x t = true ∧
      s.currentAttempt = n ∧ (s.state.stateType = .pending ∨ s.state.stateType = .running ∨
        s.state.stateType = .awaitingInput) := by
  have hout : ∀ s : StepState, s.underway = true ↔ (s.state.stateType = .pending ∨
      s.state.stateType = .running ∨ s.state.stateType = .awaitingInput) := by
    intro s
    cases hst : s.state.stateType <;> simp [StepState.underway, hst]
  cases hs : x.step t with
  | none => simp [hasRow, hs]
  | some s => simp [hasRow_of_step hs, hout]

theorem holdsRow_of_step {x : Execution} {t : String} {s : StepState} (hs : x.step t = some s) :
    x.holdsRow t = (dispatchedStep x t && s.underway) := by
  rw [holdsRow, hs, any_some]

/-! ## The inputs that keep the agreement -/

/-- Whether nothing below `id` has a row for a failure of `id` to take away. -/
def Execution.freeBelow (x : Execution) (id : String) : Bool :=
  (x.plan.downstreamOf id).all fun child => child == id || !x.holdsRow child

/-- Whether an answer to `id` replaces its row, ends its step, or finds none. -/
def Execution.answerKeepsRow (x : Execution) (id : String) : Bool :=
  x.mode == .compiled || !x.holdsRow id

/-- Whether an input leaves the claim table in agreement. -/
def Execution.keepsRows (x : Execution) : WorkflowMessage → Bool
  | .event (.stepStarted id _) | .event (.inputRequested id ..) =>
    !dispatchedStep x id || x.holdsRow id
  | .event (.stepFailed id attempt error) =>
    (!x.holdsRow id || (x.step id).any (·.currentAttempt == attempt)) &&
      if x.retriesFailure id error then dispatchedStep x id else x.freeBelow id
  | .command (.provideInput id ..) => x.answerKeepsRow id
  | .command (.timeoutInput id _) =>
    match x.openPolicy id with
    | some (.answer _) => x.answerKeepsRow id
    | some .fail => x.freeBelow id
    | _ => true
  | .command (.cancelExecution _) =>
    x.plan.ids.all fun id => !x.holdsRow id ||
      (x.step id).any fun s => s.state.stateType != .pending || s.currentAttempt != 0
  | _ => true

variable {x y : Execution} {now : OffsetDateTime} {input : WorkflowMessage} {t : String}
  {s : StepState}

theorem freeBelow_of_fails (hs : x.step t = some s) (h : Fails x t s input attempt error)
    (hkeeps : x.keepsRows input = true) : x.freeBelow t = true := by
  cases h with
  | reported hp _ hspent =>
    have hno : x.retriesFailure t error = false := by
      simp [retriesFailure, hs, hp, hspent]
    simp only [keepsRows, hno, Bool.and_eq_true] at hkeeps
    exact hkeeps.2
  | lapsed hopen hpolicy =>
    simpa [keepsRows, openPolicy_of_step hs hopen, hpolicy] using hkeeps

theorem current_of_fails (hs : x.step t = some s) (h : Fails x t s input attempt error)
    (hkeeps : x.keepsRows input = true) (hrow : x.holdsRow t = true) :
    s.currentAttempt = attempt := by
  cases h with
  | reported _ _ _ => 
    simp only [keepsRows, Bool.and_eq_true] at hkeeps
    simpa [hrow, hs] using hkeeps.1
  | lapsed _ _ => rfl

theorem answerKeepsRow_of_answers (hs : x.step t = some s) {answeredBy : String} {response : Value}
    (h : Answers x now t s input answeredBy response) (hkeeps : x.keepsRows input = true) :
    x.answerKeepsRow t = true := by
  cases h with
  | provided _ _ _ => exact hkeeps
  | lapsed hopen hpolicy =>
    simpa [keepsRows, openPolicy_of_step hs hopen, hpolicy] using hkeeps

/-! ## One decision -/

theorem record_attemptMessages (s : StepState) (e t : String) (n : UInt32) (p : PlanStep)
    (key : Option String) (now : OffsetDateTime) :
    (s.record (attemptMessages e t n p key now)).currentAttempt = n ∧
      (s.record (attemptMessages e t n p key now)).underway = true := by
  unfold attemptMessages
  cases hq : p.runtime.question <;> exact ⟨rfl, rfl⟩

theorem rowAfter_attemptMessages (hp : y.plan.step t = some p) {n m : UInt32} {there : Bool}
    (h : there = true → dispatchedStep y t = true ∧ n = m) (e : String) (key : Option String) :
    (attemptMessages e t n p key now).foldl (rowAfter y t m) there =
      (dispatchedStep y t && n == m) := by
  rw [dispatchedStep_of_step hp] at h ⊢
  unfold attemptMessages
  cases hq : p.runtime.question with
  | none =>
    simp only [hq, isNone_none, true_and] at h
    simp only [foldl_cons, foldl_nil, rowAfter, settled, any_none, Bool.not_false,
      Bool.and_true, isNone_none, Bool.true_and, beq_self_eq_true]
    cases there with
    | false => rfl
    | true => simpa using h rfl
  | some spec =>
    simp only [hq, isNone_some, Bool.false_eq_true, false_and, imp_false] at h
    simp [rowAfter, settled, h]

/-- A plan that lists a step more than once dispatches it as often, to the same row. -/
theorem replicate_attemptMessages (hp : y.plan.step t = some p) {m : UInt32} {there : Bool}
    (h : there = true → dispatchedStep y t = true ∧ 1 = m) (e : String) (key : Option String)
    (again : Nat) (s : StepState) :
    let about := (List.replicate (again + 1) (attemptMessages e t 1 p key now)).flatten
    about.foldl (rowAfter y t m) there = (dispatchedStep y t && 1 == m) ∧
      (s.record about).currentAttempt = 1 ∧ (s.record about).underway = true := by
  induction again generalizing there s with
  | zero =>
    simp only [replicate_succ, replicate_zero, flatten_cons, flatten_nil, append_nil]
    exact ⟨rowAfter_attemptMessages hp h e key, record_attemptMessages s e t 1 p key now⟩
  | succ again ih =>
    rw [replicate_succ, flatten_cons]
    simp only [foldl_append, StepState.record_append]
    refine ih ?_ _
    rw [rowAfter_attemptMessages hp h, Bool.and_eq_true, beq_iff_eq]
    exact id

/-- **One decision** keeps the rows of a step in agreement with the step. -/
theorem hasRow_of_move {about : List WorkflowMessage} (hx : x.WellFormed)
    (hs : x.step t = some s) (h : Move x now input t s about) (hkeeps : x.keepsRows input = true)
    (hplan : y.plan = x.plan) (hy : y.step t = some (s.record about)) (n : UInt32) :
    about.foldl (rowAfter y t n) (x.hasRow t n) = y.hasRow t n := by
  obtain ⟨p, hp⟩ := mem_ids_of_step hx hs
  have hpy : y.plan.step t = some p := by rw [hplan]; exact hp
  have hdy : dispatchedStep y t = dispatchedStep x t := by
    rw [dispatchedStep_of_step hp, dispatchedStep_of_step hpy]
  -- a step that holds no row has none for any attempt
  have hnone : x.holdsRow t = false → x.hasRow t n = false := by
    intro hno
    rw [holdsRow_of_step hs] at hno
    rw [hasRow_of_step hs, Bool.and_comm, Bool.and_assoc, Bool.and_comm s.underway, hno,
      Bool.and_false]
  have hended : s.underway = false → x.hasRow t n = false := by
    intro hend
    exact hnone (by rw [holdsRow_of_step hs, hend, Bool.and_false])
  -- a step whose record leaves it ended, with its row gone
  have hgone : (s.record about).underway = false →
      about.foldl (rowAfter y t n) (x.hasRow t n) = false →
      about.foldl (rowAfter y t n) (x.hasRow t n) = y.hasRow t n := by
    intro hend hrow
    rw [hrow, hasRow_of_step hy, hend, Bool.and_false, Bool.and_false]
  -- a step that is out after its record, as it was before if it is a dispatched one
  have hstays : (!dispatchedStep x t || x.holdsRow t) = true →
      (s.record about).currentAttempt = s.currentAttempt → (s.record about).underway = true →
      about.foldl (rowAfter y t n) (x.hasRow t n) = x.hasRow t n →
      about.foldl (rowAfter y t n) (x.hasRow t n) = y.hasRow t n := by
    intro hout hcurrent hout' hrow
    rw [hrow, hasRow_of_step hy, hdy, hcurrent, hout', hasRow_of_step hs]
    rw [holdsRow_of_step hs] at hout
    cases hd : dispatchedStep x t with
    | false => rfl
    | true =>
      rw [hd] at hout
      have hout : s.underway = true := by simpa using hout
      rw [hout]
  -- the row of an attempt that a failure names is the only one the step can have
  have hcurrently : ∀ attempt, (x.holdsRow t = true → s.currentAttempt = attempt) →
      (x.hasRow t n && !(t == t && attempt == n)) = false := by
    intro attempt hcurrent
    cases hrow : x.holdsRow t with
    | false => rw [hnone hrow, Bool.false_and]
    | true =>
      rw [← hcurrent hrow, hasRow_of_step hs]
      cases s.currentAttempt == n <;> simp
  cases h with
  | untouched =>
    rw [hasRow_of_step hy, hdy]
    exact hasRow_of_step hs n
  | dispatched hpt hfresh _ _ _ _ =>
    have hidle : x.hasRow t n = false := hended (by simp [StepState.underway, hfresh])
    cases hp.symm.trans hpt
    have hfirst : x.hasRow t n = true → dispatchedStep y t = true ∧ 1 = n := by
      rw [hidle]
      exact fun h => by cases h
    obtain ⟨hrow, hcurrent, hout⟩ := replicate_attemptMessages hpy hfirst x.executionId _ _ s
    rw [hrow, hasRow_of_step hy, hcurrent, hout, Bool.and_true]
  | retried _ hpt hfailed _ =>
    have hidle : x.hasRow t n = false := hended (by
      rcases hfailed with hst | hst <;> simp [StepState.underway, hst])
    cases hp.symm.trans hpt
    have hfirst : x.hasRow t n = true → dispatchedStep y t = true ∧ s.currentAttempt + 1 = n := by
      rw [hidle]
      exact fun h => by cases h
    obtain ⟨hcurrent, hout⟩ :=
      record_attemptMessages s x.executionId t (s.currentAttempt + 1) p _ now
    rw [rowAfter_attemptMessages hpy hfirst, hasRow_of_step hy, hcurrent, hout, Bool.and_true]
  | skippedByCancel hinput hopen =>
    refine hgone rfl ?_
    cases hrow : x.hasRow t n with
    | false => rfl
    | true =>
      -- a row is taken away under the number of its step, unless that is zero
      rw [hasRow_of_step hs] at hrow
      simp only [Bool.and_eq_true, beq_iff_eq] at hrow
      obtain ⟨hd, hcurrent, hout⟩ := hrow
      have hpending : s.state.stateType = .pending := by
        refine hopen.resolve_left fun hst => ?_
        simp [StepState.underway, hst] at hout
      have hnumbered : s.currentAttempt ≠ 0 := by
        rw [hinput] at hkeeps
        have hmem : t ∈ x.plan.ids := ExecutionPlan.mem_ids_iff_step.mpr ⟨p, hp⟩
        have hone := all_eq_true.mp hkeeps t hmem
        rw [holdsRow_of_step hs, hd, hout, hs] at hone
        simpa [hpending] using hone
      have hattempt : dispatchedAttempt y t = some n := by
        rw [dispatchedAttempt, hdy, if_pos hd, hy, ← hcurrent]
        have hpos : 0 < s.currentAttempt := UInt32.pos_iff_ne_zero.mpr hnumbered
        exact filter_eq_some_iff.mpr ⟨rfl, by simpa using hpos⟩
      simp [rowAfter, hattempt]
  | skippedBelow hu hfails hbelow hne _ =>
    have hfree := all_eq_true.mp (freeBelow_of_fails hu hfails hkeeps) t hbelow
    have hidle : x.hasRow t n = false := hnone (by simpa [Ne.symm hne] using hfree)
    refine hgone rfl ?_
    rw [hidle]
    rfl
  | answered _ hasks =>
    have hno : dispatchedStep x t = false := by rw [dispatchedStep_eq hp, hasks]; rfl
    have hidle : x.hasRow t n = false := by rw [hasRow_of_step hs, hno, Bool.false_and]
    refine hgone rfl ?_
    rw [hidle]
    rfl
  | answeredHosted hanswers hasks hmode =>
    have hidle : x.holdsRow t = false := by
      simpa [answerKeepsRow, hmode] using answerKeepsRow_of_answers hs hanswers hkeeps
    have hend : s.underway = false := by
      rw [holdsRow_of_step hs, dispatchedStep_eq hp, hasks] at hidle
      simpa using hidle
    refine hgone hend ?_
    rw [hnone hidle]
    rfl
  | @answeredWorker answeredBy response q key hanswers hasks _ hpt =>
    cases hp.symm.trans hpt
    have hd : dispatchedStep x t = true := by rw [dispatchedStep_eq hp, hasks]; rfl
    -- the answer retires the attempt that asked
    have hanswered : rowAfter y t n (x.hasRow t n)
        (.event (.inputProvided t s.currentAttempt answeredBy response)) = false := by
      rw [hasRow_of_step hs]
      cases hn : s.currentAttempt == n <;> simp [rowAfter, hdy, hd, hn]
    rw [foldl_cons, hanswered]
    obtain ⟨hcurrent, hout⟩ := record_attemptMessages
      (s.apply (.inputProvided t s.currentAttempt answeredBy response)) x.executionId t
      (s.currentAttempt + 1) p key now
    rw [rowAfter_attemptMessages hpy (fun h => by cases h), hasRow_of_step hy,
      StepState.record_cons_event, hcurrent, hout, Bool.and_true]
  | started hinput =>
    rw [hinput] at hkeeps
    refine hstays hkeeps rfl rfl ?_
    simp [rowAfter, settled]
  | asked hinput _ =>
    rw [hinput] at hkeeps
    refine hstays hkeeps rfl rfl ?_
    simp [rowAfter, settled]
  | finished hfin =>
    have hretired := hcurrently s.currentAttempt fun _ => rfl
    cases hfin with
    | completed _ => exact hgone rfl hretired
    | cacheHit _ => exact hgone rfl hretired
    | skipped _ _ => exact hgone rfl hretired
  | @failedRetrying q attempt error hinput hpt _ hretry =>
    have hretries : x.retriesFailure t error = true := by
      simp [retriesFailure, hs, hpt, hretry]
    rw [hinput] at hkeeps
    simp only [keepsRows, hretries, if_true, Bool.and_eq_true] at hkeeps
    obtain ⟨hcurrent, hd⟩ := hkeeps
    have hretired := hcurrently attempt fun hrow => by simpa [hrow, hs] using hcurrent
    have hfailed : rowAfter y t n (x.hasRow t n) (.event (.stepFailed t attempt error)) = false :=
      hretired
    have hnext : (s.record (retryMessages x q t attempt error now)).currentAttempt = attempt + 1 ∧
        (s.record (retryMessages x q t attempt error now)).underway = true := ⟨rfl, rfl⟩
    rw [hasRow_of_step hy, hdy, hd, hnext.1, hnext.2, retryMessages, foldl_cons, hfailed]
    simp [rowAfter, settled]
  | @failed attempt error hfails =>
    have hretired := hcurrently attempt (current_of_fails hs hfails hkeeps)
    refine hgone ?_ hretired
    cases hc : error.failureClass <;>
      simp [StepState.apply, StepState.underway, hc, FailureClass.attemptState]

/-! ## The rows of other attempts -/

/-- The attempt an input is about, where it names one. -/
def WorkflowMessage.attempt? : WorkflowMessage → Option (String × UInt32)
  | .command (.provideInput id attempt ..) | .command (.timeoutInput id attempt)
  | .event (.stepStarted id attempt) | .event (.inputRequested id attempt _)
  | .event (.stepCacheHit id attempt ..) | .event (.stepCompleted id attempt ..)
  | .event (.stepFailed id attempt _) => some (id, attempt)
  | _ => none

theorem attempt?_of_answers {answeredBy : String} {response : Value}
    (h : Answers x now t s input answeredBy response) :
    input.attempt? = some (t, s.currentAttempt) := by
  cases h <;> rfl

theorem attempt?_of_finishes {event : WorkflowEvent} (h : Finishes x t s input event) :
    input.attempt? = some (t, s.currentAttempt) := by
  cases h <;> rfl

theorem attempt?_of_fails (h : Fails x t s input attempt error) :
    input.attempt? = some (t, attempt) := by
  cases h <;> rfl

theorem untouched_of_hasRow {about : List WorkflowMessage} (hs : x.step t = some s)
    (h : Move x now input t s about) (hkeeps : x.keepsRows input = true) {u : String} {n m : UInt32}
    (hattempt : input.attempt? = some (u, n)) (hrow : x.hasRow t m = true)
    (hother : (t, m) ≠ (u, n)) : about = [] := by
  rw [hasRow_of_step hs] at hrow
  simp only [Bool.and_eq_true, beq_iff_eq] at hrow
  obtain ⟨hd, rfl, hout⟩ := hrow
  have hholds : x.holdsRow t = true := by rw [holdsRow_of_step hs, hd, hout]; rfl
  have hcurrent : input.attempt? ≠ some (t, s.currentAttempt) := by
    intro hsame
    exact hother (some.inj (hsame.symm.trans hattempt))
  cases h with
  | untouched => rfl
  | dispatched _ hfresh _ _ _ _ => simp [StepState.underway, hfresh] at hout
  | skippedByCancel hinput _ => rw [hinput] at hattempt; cases hattempt
  | skippedBelow hu hfails hbelow hne _ =>
    have hfree := all_eq_true.mp (freeBelow_of_fails hu hfails hkeeps) t hbelow
    simp [hholds, Ne.symm hne] at hfree
  | retried hinput _ _ _ => rw [hinput] at hattempt; cases hattempt
  | answered hanswers _ => exact absurd (attempt?_of_answers hanswers) hcurrent
  | answeredHosted hanswers _ _ => exact absurd (attempt?_of_answers hanswers) hcurrent
  | answeredWorker hanswers _ _ _ => exact absurd (attempt?_of_answers hanswers) hcurrent
  | started hinput => rw [hinput] at hcurrent; exact absurd rfl hcurrent
  | asked hinput _ => rw [hinput] at hcurrent; exact absurd rfl hcurrent
  | finished hfin => exact absurd (attempt?_of_finishes hfin) hcurrent
  | @failedRetrying q attempt error hinput _ _ _ =>
    rw [hinput] at hkeeps hcurrent
    simp only [keepsRows, Bool.and_eq_true] at hkeeps
    have hsame : s.currentAttempt = attempt := by simpa [hholds, hs] using hkeeps.1
    rw [hsame] at hcurrent
    exact absurd rfl hcurrent
  | failed hfails =>
    rw [current_of_fails hs hfails hkeeps hholds] at hcurrent
    exact absurd (attempt?_of_fails hfails) hcurrent

/-! ## Over a run -/

/-- The rows of the table are those the run should have. -/
def RowsAgree (execution : String) (x : Execution) (claims : ClaimTable) : Prop :=
  ∀ t n, claims[AttemptKey.mk execution t n]?.isSome = x.hasRow t n

theorem hasRow_of_no_step (h : x.step t = none) (n : UInt32) : x.hasRow t n = false := by
  rw [hasRow, h, any_none, Bool.and_false]

theorem rowsAgree_of_appended {execution : String} {i : Delivery} {msgs : List WorkflowMessage}
    {before after : ClaimTable} (h : Appended execution x i msgs before after)
    (hagree : RowsAgree execution x before) (hkeeps : x.keepsRows i.input = true)
    (hsteps : ∀ m ∈ msgs, ∀ t, m.stepId? = some t → ∃ s, x.step t = some s) :
    RowsAgree execution (x.record msgs) after := by
  intro t n
  rw [h.rows, hagree]
  cases hs : x.step t with
  | some s =>
    exact hasRow_of_move h.wellFormed hs (h.moves t s hs) hkeeps (plan_record x msgs)
      (step_record_of_some hs msgs) n
  | none =>
    -- nothing is said about a step the run does not have
    have hnil : aboutStep t msgs = [] := by
      refine aboutStep_of_forall_ne fun m hm ht => ?_
      obtain ⟨s, hs'⟩ := hsteps m hm t ht
      rw [hs] at hs'
      cases hs'
    rw [hnil, hasRow_of_no_step hs, hasRow_of_no_step (by rw [step_record, hs]; rfl)]
    rfl

theorem rowsAgree_of_opens {execution : String} {i : Delivery} {d : Digests} {before after : ClaimTable}
    (hnone : ∀ k : AttemptKey, before[k]?.isSome = false) (h : Opens i.input x)
    (happ : Appended execution x i (dispatchMessages d x i.now) before after) :
    RowsAgree execution (x.record (dispatchMessages d x i.now)) after := by
  refine rowsAgree_of_appended happ ?_ ?_ fun m hm t ht => exists_step_of_mem_dispatchMessages hm ht
  · intro t n
    rw [hnone]
    cases hs : x.step t with
    | none => exact (hasRow_of_no_step hs n).symm
    | some s =>
      obtain ⟨kind, rfl⟩ := fresh_of_opens h hs
      simp [hasRow_of_step hs, StepState.underway, StepState.fresh]
  · generalize i.input = input at h
    cases h
    rfl

/-- **The claim table agrees with the stream** over every run whose inputs keep it so: an
attempt has a row exactly while it is the current attempt of a dispatched step that is out,
and a decision about one attempt leaves the rows of the others as they were. -/
theorem claim_table_agrees_with_stream (d : Digests) (execution : String) (is : List ClaimedInput)
    (h : ∀ st ∈ (claimMachine d execution).run .start is, ∀ x i, st.before.run = .active x →
      st.input = .deliver i → x.keepsRows i.input = true) :
    ∀ st ∈ (claimMachine d execution).run .start is,
      (∀ t n, st.after.claims[AttemptKey.mk execution t n]?.isSome = true ↔
        ∃ y s, st.after.run = .active y ∧ y.step t = some s ∧ dispatchedStep y t = true ∧
          s.currentAttempt = n ∧ (s.state.stateType = .pending ∨ s.state.stateType = .running ∨
            s.state.stateType = .awaitingInput)) ∧
      ∀ i t n, st.input = .deliver i → i.input.attempt? = some (t, n) →
        ∀ k row, k ≠ AttemptKey.mk execution t n → st.before.claims[k]? = some row →
          st.after.claims[k]? = some row := by
  have hagree := claim_run_rule (P := RowsAgree execution)
    (fun state input => ∀ x i, state.run = .active x → input = .deliver i →
      x.keepsRows i.input = true)
    (fun i x before after hnone hopens happ => rowsAgree_of_opens hnone hopens happ)
    (fun i x msgs before after hagree hkeeps hdecided happ =>
      rowsAgree_of_appended happ hagree (hkeeps x i rfl rfl)
        fun m hm t ht => exists_step_of_mem happ.wellFormed hdecided hm ht)
    (fun x before after hagree hsame t n => (hsame _).trans (hagree t n)) h
  intro st hst
  obtain ⟨hbefore, hafter⟩ := hagree st hst
  constructor
  · intro t n
    cases hrun : st.after.run with
    | empty =>
      rw [(ClaimedRun.holds_empty hrun).mp hafter]
      constructor
      · intro hno
        cases hno
      · rintro ⟨y, s, hy, -⟩
        cases hy
    | active y =>
      rw [((ClaimedRun.holds_active hrun).mp hafter).2 t n, hasRow_iff]
      constructor
      · rintro ⟨s, hs, hd, hcurrent, hout⟩
        exact ⟨y, s, rfl, hs, hd, hcurrent, hout⟩
      · rintro ⟨z, s, hz, hs, hd, hcurrent, hout⟩
        cases hz
        exact ⟨s, hs, hd, hcurrent, hout⟩
  · intro i t n hinput hattempt k row hk hrow
    rcases claim_step_cases hbefore (Machine.step_of_mem_run hst) with
      ⟨_, _, hi, hrun, -⟩ | ⟨j, x, msgs, hi, hrun, hP, -, -, happ⟩ | ⟨hno, -⟩
    · have hnone := (ClaimedRun.holds_empty hrun).mp hbefore k
      rw [hrow] at hnone
      cases hnone
    · cases hinput.symm.trans hi
      by_cases hforeign : k.executionId = execution
      · obtain ⟨e, u, m⟩ := k
        subst hforeign
        have hhas : x.hasRow u m = true := by rw [← hP u m, hrow]; rfl
        obtain ⟨s, hs, -⟩ := hasRow_iff.mp hhas
        have hnil := untouched_of_hasRow hs (happ.moves u s hs) (h st hst x i hrun hinput) hattempt
          hhas (by
            intro hsame
            cases hsame
            exact hk rfl)
        rw [happ.frame u hnil, hrow]
      · rw [happ.foreign k hforeign, hrow]
    · exact absurd hinput (hno i)

/-- One step claimed, renewed, failed and retried, and the retry claimed. -/
def claimedAndRetried : List ClaimedInput :=
  [.deliver ⟨startOf (planOf [workerStep "work"] []), "start", 0⟩,
    .claim ⟨none, [], ["default"], ["task@1"]⟩ "worker" 1,
    .deliver ⟨.event (.stepStarted "work" 1), "started", 2⟩,
    .heartbeat ⟨"run", "work", 1⟩ "worker" 3,
    .deliver ⟨.event (.stepFailed "work" 1 ⟨.infrastructure, "the pod is gone"⟩), "failed", 4⟩,
    .claim ⟨none, [], ["default"], ["task@1"]⟩ "worker" 1000000000000,
    .deliver ⟨.event (.stepStarted "work" 2), "started again", 1000000000001⟩]

theorem claimedAndRetried_agrees :
    (claimMachine plainDigests "run").accepts .start claimedAndRetried = true ∧
      ∀ st ∈ (claimMachine plainDigests "run").run .start claimedAndRetried,
      (∀ t n, st.after.claims[AttemptKey.mk "run" t n]?.isSome = true ↔
        ∃ y s, st.after.run = .active y ∧ y.step t = some s ∧ dispatchedStep y t = true ∧
          s.currentAttempt = n ∧ (s.state.stateType = .pending ∨ s.state.stateType = .running ∨
            s.state.stateType = .awaitingInput)) ∧
      ∀ i t n, st.input = .deliver i → i.input.attempt? = some (t, n) →
        ∀ k row, k ≠ AttemptKey.mk "run" t n → st.before.claims[k]? = some row →
          st.after.claims[k]? = some row :=
  ⟨by decide +kernel, claim_table_agrees_with_stream plainDigests "run" claimedAndRetried
    (forall_delivery_of_all (f := fun _ x input => x.keepsRows input) (by decide +kernel))⟩

/-- A step that has completed is reported started a second time. -/
def startedAfterItsRow : List ClaimedInput :=
  [.deliver ⟨startOf (planOf [workerStep "work"] []), "start", 0⟩,
    .claim ⟨none, [], ["default"], ["task@1"]⟩ "worker" 1,
    .deliver ⟨.event (.stepStarted "work" 1), "started", 2⟩,
    .deliver ⟨.event (.stepCompleted "work" 1 [] none), "completed", 3⟩,
    .deliver ⟨.event (.stepStarted "work" 1), "started again", 4⟩]

/-- The step is running on its current attempt, and that attempt has no row. -/
theorem late_start_runs_without_a_row :
    ∃ st ∈ (claimMachine plainDigests "run").run .start startedAfterItsRow, ∃ y s,
      st.after.run = .active y ∧ y.step "work" = some s ∧ dispatchedStep y "work" = true ∧
        s.state.stateType = .running ∧
        st.after.claims[AttemptKey.mk "run" "work" s.currentAttempt]?.isSome = false := by
  have hrun : ((claimMachine plainDigests "run").run .start startedAfterItsRow).any (fun st =>
      st.after.run.isActive.any fun y => dispatchedStep y "work" && (y.step "work").any fun s =>
        s.state.stateType == .running &&
          !st.after.claims[AttemptKey.mk "run" "work" s.currentAttempt]?.isSome) = true := by
    decide +kernel
  obtain ⟨st, hst, hafter⟩ := List.any_eq_true.mp hrun
  obtain ⟨y, hy, hboth⟩ := active_of_any hafter
  rw [Bool.and_eq_true] at hboth
  obtain ⟨s, hs, hstep⟩ := (Option.any_eq_true _ _).mp hboth.2
  rw [Bool.and_eq_true, beq_iff_eq, Bool.not_eq_true'] at hstep
  exact ⟨st, hst, y, s, hy, hs, hboth.1, hstep.1, hstep.2⟩

end Aiwatcher.Engine
