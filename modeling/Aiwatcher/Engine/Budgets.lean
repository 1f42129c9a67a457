import Aiwatcher.Engine.Attempts
import Aiwatcher.Engine.Inputs

/-!
# Aiwatcher.Engine.Budgets

How many attempts the failures of a step bring about.

The failures of a step are counted by class: those an attempt may have run under, and those
where nobody answered.  A retry is decided on all that its class has counted, and counts the
attempt it follows, so what a class has counted before the current attempt stays within its
budget.  The numbers are machine integers: the attempt after the last number is not counted
behind it any more.
-/

namespace Aiwatcher.Engine

open Library List

/-- The budget of a class of failures. -/
def RetryPolicy.budget (policy : RetryPolicy) (ran : Bool) : UInt32 :=
  if ran then policy.maxAttempts else policy.maxUnavailableAttempts

def AttemptRecord.failedAs (ran : Bool) (record : AttemptRecord) : Bool :=
  record.error.any (·.failureClass.mayHaveRun == ran)

/-- How many attempts before the current one failed in a class. -/
def StepState.spent (s : StepState) (ran : Bool) : Nat :=
  s.attempts.dropLast.countP (·.failedAs ran)

/-- An input reports a failure of the attempt a step is on. -/
def ExecutionState.reports (id : String) (state : ExecutionState) (input : WorkflowMessage) :
    Bool :=
  match state.isActive.bind (·.step id), input with
  | some s, .event (.stepFailed id' attempt _) =>
    id' == id && attempt == s.currentAttempt && s.currentAttempt != 0
  | _, _ => false

def ExecutionState.hasRoom (id : String) (state : ExecutionState) : Bool :=
  state.isActive.any (·.hasRoom id)

def isRetry : WorkflowMessage → Bool
  | .event (.stepRetryScheduled ..) => true
  | _ => false

def schedulesRetry (msgs : List WorkflowMessage) : Bool := msgs.any isRetry

/-- A step of a run in which a failure of a class is retried. -/
def retries (ran : Bool) (st : Step ExecutionState Delivery PendingMessage) : Bool :=
  match st.input.input with
  | .event (.stepFailed _ _ error) =>
    error.failureClass.mayHaveRun == ran && schedulesRetry (contents st.out)
  | _ => false

/-! ## One report -/

variable {x : Execution} {id : String} {s : StepState} {p : PlanStep} {error : StepError}
  {now : OffsetDateTime} {msgs : List WorkflowMessage} {ran : Bool}

theorem attemptsSpent_eq (s : StepState) (error : StepError) : attemptsSpent s error =
    1 + UInt32.ofNat (s.attempts.countP (·.failedAs error.failureClass.mayHaveRun)) := by
  rw [attemptsSpent, countP_filterMap]
  congr 3
  funext record
  cases hrecord : record.error <;> simp [AttemptRecord.failedAs, hrecord]

/-- What is counted does not wrap while the next attempt has a number. -/
theorem attemptsSpent_toNat (hs : s.InOrder) (hroom : s.currentAttempt.toNat + 1 < UInt32.size) :
    (attemptsSpent s error).toNat =
      1 + s.attempts.countP (·.failedAs error.failureClass.mayHaveRun) := by
  have hlength := congrArg List.length hs.numbered
  have hle := s.attempts.countP_le_length (p := (·.failedAs error.failureClass.mayHaveRun))
  rw [length_map, length_range'] at hlength
  rw [attemptsSpent_eq, UInt32.toNat_add, UInt32.toNat_ofNat']
  simp only [UInt32.size] at hroom
  simp
  omega

theorem updateAttempt_concat {n : UInt32} {f : AttemptRecord → AttemptRecord}
    {front : List AttemptRecord} {record : AttemptRecord}
    (hfront : ∀ r ∈ front, r.attempt ≠ n) (hrecord : record.attempt = n) :
    updateAttempt n f (front ++ [record]) = front ++ [f record] := by
  induction front with
  | nil => simp [updateAttempt, hrecord]
  | cons r front ih =>
    have hne := hfront r mem_cons_self
    simp [updateAttempt, hne, ih fun r hr => hfront r (mem_cons_of_mem _ hr)]

theorem attempts_stepFailed (hs : s.InOrder) (hone : s.currentAttempt ≠ 0) :
    ∃ record, (s.apply (.stepFailed id s.currentAttempt error)).attempts =
      s.attempts.dropLast ++ [record] ∧ record.error = some error := by
  have hnumbered := hs.numbered
  have hpos : s.currentAttempt.toNat ≠ 0 := fun h => hone (UInt32.toNat_inj.mp h)
  obtain ⟨k, hk⟩ := Nat.exists_eq_succ_of_ne_zero hpos
  have hne : s.attempts ≠ [] := by
    rintro hnil
    simp [hnil, hk] at hnumbered
  have hsplit := dropLast_append_getLast hne
  rw [hk, ← hsplit, map_append, range'_1_concat] at hnumbered
  obtain ⟨hfront, hlast⟩ := append_inj' hnumbered rfl
  have hfront : ∀ r ∈ s.attempts.dropLast, r.attempt ≠ s.currentAttempt := by
    rintro r hr heq
    have hmem : r.attempt.toNat ∈ List.range' 1 k := hfront ▸ mem_map_of_mem hr
    rw [heq, hk] at hmem
    simp at hmem
    omega
  have hlast : (s.attempts.getLast hne).attempt = s.currentAttempt := by
    apply UInt32.toNat_inj.mp
    simp at hlast
    omega
  simp only [StepState.apply]
  rw [← hsplit, updateAttempt_concat hfront hlast, hsplit]
  exact ⟨_, rfl, rfl⟩

theorem isRetry_of_mem_settleMessages {n : UInt32} {m : WorkflowMessage}
    (h : m ∈ settleMessages x id n error) : isRetry m = false := by
  rcases mem_append.mp h with h | h
  · obtain ⟨found, -, h⟩ := mem_flatMap.mp h
    split at h
    · rw [mem_singleton.mp h]
      rfl
    · cases h
  · rw [mem_singleton.mp h, failureEnd]
    split <;> rfl

theorem schedulesRetry_of_report {d : Digests} {n : UInt32} (hs : x.step id = some s)
    (hp : x.plan.step id = some p)
    (h : Decided d x now (.event (.stepFailed id n error)) msgs) :
    schedulesRetry msgs = mayRetry x p s error := by
  obtain ⟨s', p', hs', hp', rfl⟩ := decided_stepFailed h
  cases hs.symm.trans hs'
  cases hp.symm.trans hp'
  cases mayRetry x p s error with
  | true => rfl
  | false =>
    rw [if_neg Bool.false_ne_true, schedulesRetry, any_cons]
    rw [any_eq_false.mpr fun m hm => by simp [isRetry_of_mem_settleMessages hm]]
    rfl

/-- **One report** counts the attempt a retry follows, within the budget, and nothing else. -/
theorem spent_of_report {d : Digests} (hs : x.step id = some s) (horder : s.InOrder)
    (hone : s.currentAttempt ≠ 0) (hroom : s.currentAttempt.toNat + 1 < UInt32.size)
    (hp : x.plan.step id = some p)
    (h : Decided d x now (.event (.stepFailed id s.currentAttempt error)) msgs) :
    ∃ s', (x.record msgs).step id = some s' ∧ s'.InOrder ∧
      (∀ ran, s'.spent ran = s.spent ran +
        if error.failureClass.mayHaveRun == ran && schedulesRetry msgs then 1 else 0) ∧
      (schedulesRetry msgs = true → s.spent error.failureClass.mayHaveRun + 1 <
        (p.retry.budget error.failureClass.mayHaveRun).toNat) := by
  rw [schedulesRetry_of_report hs hp h]
  obtain ⟨s₀, p₀, hs₀, hp₀, rfl⟩ := decided_stepFailed h
  cases hs.symm.trans hs₀
  cases hp.symm.trans hp₀
  obtain ⟨record, hattempts, herror⟩ := @attempts_stepFailed id s error horder hone
  have hfailed : (s.apply (.stepFailed id s.currentAttempt error)).InOrder :=
    inOrder_apply horder rfl
  refine ⟨_, step_record_of_some hs _, ?_⟩
  cases hretry : mayRetry x p s error with
  | true =>
    rw [if_pos rfl, aboutStep_of_forall_eq fun m hm => stepId?_of_mem_retryMessages hm]
    refine ⟨inOrder_pushAttempt hfailed hroom (by simp) _, fun ran => ?_, fun _ => ?_⟩
    · have hdrop : (s.record (retryMessages x p id s.currentAttempt error now)).attempts.dropLast =
          s.attempts.dropLast ++ [record] := by
        rw [← hattempts]
        exact dropLast_concat
      rw [StepState.spent, hdrop, countP_append, countP_singleton]
      simp [AttemptRecord.failedAs, herror, StepState.spent]
    · have hspent := @attemptsSpent_toNat s error horder hroom
      have hle := (dropLast_sublist s.attempts).countP_le
        (p := (·.failedAs error.failureClass.mayHaveRun))
      simp only [mayRetry, Bool.and_eq_true, decide_eq_true_eq] at hretry
      have hlt := UInt32.lt_iff_toNat_lt.mp hretry.1.2
      rw [hspent] at hlt
      unfold StepState.spent RetryPolicy.budget
      omega
  | false =>
    rw [if_neg Bool.false_ne_true, aboutStep_cons_of_eq rfl, aboutStep_settleMessages_self]
    refine ⟨hfailed, fun ran => ?_, fun hfalse => by cases hfalse⟩
    have hdrop : ((s.record [.event (.stepFailed id s.currentAttempt error)]).attempts).dropLast =
        s.attempts.dropLast := by
      rw [StepState.record_cons_event, StepState.record_nil, hattempts, dropLast_concat]
    rw [StepState.spent, hdrop, StepState.spent]
    simp

/-! ## Any reports -/

theorem exists_of_reports {state : ExecutionState} {input : WorkflowMessage}
    (h : state.reports id input = true) :
    ∃ n error, input = .event (.stepFailed id n error) := by
  unfold ExecutionState.reports at h
  split at h
  · rename_i n error _
    exact ⟨n, error, by simp_all⟩
  · cases h

theorem of_reports {input : WorkflowMessage} (hs : x.step id = some s)
    (h : (ExecutionState.active x).reports id input = true) :
    ∃ error, s.currentAttempt ≠ 0 ∧ input = .event (.stepFailed id s.currentAttempt error) := by
  obtain ⟨n, error, rfl⟩ := exists_of_reports h
  simp_all [ExecutionState.reports, ExecutionState.isActive]

/-- What a run of reports has made of the step: its attempts are in order, and what each class has
counted is what it has brought about, within its budget. -/
structure Spent (id : String) (p : PlanStep) (s₀ : StepState)
    (past : List (Step ExecutionState Delivery PendingMessage)) (state : ExecutionState) :
    Prop where
  intro ::
  exists_step : ∃ x s, state = .active x ∧ x.plan.step id = some p ∧ x.step id = some s ∧
    s.InOrder ∧ ∀ ran, s.spent ran = s₀.spent ran + past.countP (retries ran) ∧
      s.spent ran ≤ max (s₀.spent ran) ((p.retry.budget ran).toNat - 1)

theorem retries_eq (ran : Bool) {st : Step ExecutionState Delivery PendingMessage} {n : UInt32}
    (h : st.input.input = .event (.stepFailed id n error)) : retries ran st =
      (error.failureClass.mayHaveRun == ran && schedulesRetry (contents st.out)) := by
  simp only [retries, h]

theorem Spent.concat {d : Digests} {p : PlanStep} {s₀ : StepState}
    {past : List (Step ExecutionState Delivery PendingMessage)}
    {st : Step ExecutionState Delivery PendingMessage} (h : Spent id p s₀ past st.before)
    (hreports : st.before.reports id st.input.input = true) (hroom : st.before.hasRoom id = true)
    (hstep : (machine d).step st.before st.input = some (st.out, st.after)) :
    Spent id p s₀ (past ++ [st]) st.after := by
  obtain ⟨x, s, hbefore, hp, hs, horder, hcounted⟩ := h
  rw [hbefore] at hreports hroom hstep
  obtain ⟨error, hone, hinput⟩ := of_reports hs hreports
  rcases step_cases hstep with ⟨_, hempty, -⟩ | ⟨z, hz, hdecided, hafter⟩
  · cases hempty
  cases hz
  rw [hinput] at hdecided
  obtain ⟨s'', hs'', horder'', hcount, hlt⟩ := spent_of_report hs horder hone
    (room_of_hasRoom hs hroom) hp hdecided
  refine ⟨_, s'', hafter, by rw [plan_record, hp], hs'', horder'', fun ran => ?_⟩
  obtain ⟨heq, hle⟩ := hcounted ran
  rw [countP_append, countP_singleton, retries_eq ran hinput, hcount ran]
  cases hretry : schedulesRetry (contents st.out) with
  | false => exact ⟨by simpa using heq, by simpa using hle⟩
  | true =>
    have hlt := hlt hretry
    by_cases hran : error.failureClass.mayHaveRun = ran
    · subst hran
      simp
      omega
    · exact ⟨by simpa [hran] using heq, by simpa [hran] using hle⟩

end Aiwatcher.Engine
