import Aiwatcher.Engine.Cancelling

/-!
# Aiwatcher.Engine.Ended

A run that has ended: which inputs still make it dispatch or end again.
-/

namespace Aiwatcher.Engine

open Library List Execution WorkflowMessage

/-- A fact that ends the run. -/
def WorkflowMessage.endsRun : WorkflowMessage → Bool
  | .event .executionCompleted | .event (.executionFailed _) | .event .executionCancelled => true
  | _ => false

/-- A message an ended run should not say: a dispatch, or a second end. -/
def WorkflowMessage.reopens (m : WorkflowMessage) : Bool := m.isDispatch || m.endsRun

/-- The states a run ends in. -/
def Execution.hasEnded (x : Execution) : Bool :=
  match x.state.stateType with
  | .completed | .failed | .cancelled => true
  | _ => false

def WorkflowMessage.isRetryStep : WorkflowMessage → Bool
  | .command (.retryStep _) => true
  | _ => false

/-! ## What a completion brings -/

/-- Whether `t` has completed once `id` has. -/
def Execution.completedWith (x : Execution) (id t : String) : Bool :=
  t == id || (x.step t).any (·.state.stateType == .completed)

/-- Whether `t` is a step that waits for `id` alone. -/
def Execution.waitsOnlyFor (x : Execution) (id t : String) : Bool :=
  t != id && (x.step t).any (·.state.stateType == .scheduled) &&
    (x.plan.parentsOf t).all (x.completedWith id)

/-- Whether the completion of `id` has no consequence: nothing waits for it alone and
it is not what the end of the run was waiting for. -/
def Execution.completesQuietly (x : Execution) (id : String) : Bool :=
  if x.cancelling then
    x.plan.ids.any fun t => t != id && (x.step t).any (·.state.stateType == .running)
  else
    !(x.mode == .compiled && x.plan.ids.any (x.waitsOnlyFor id)) &&
      !x.plan.ids.all (x.completedWith id)

/-- Whether an answer to `id` has no consequence beyond being recorded. -/
def Execution.answersQuietly (x : Execution) (id : String) : Bool :=
  if x.plan.asksSomebody id then x.completesQuietly id else x.mode == .hosted

/-- Whether an ended run stays as it is under an input. -/
def Execution.staysEnded (x : Execution) : WorkflowMessage → Bool
  | .event (.stepFailed ..) => false
  | .event (.stepCompleted id ..) | .event (.stepCacheHit id ..) =>
    (x.step id).any (·.state.stateType == .completed) || x.completesQuietly id
  | .command (.provideInput id ..) => x.answersQuietly id
  | .command (.timeoutInput id _) =>
    match x.openPolicy id with
    | some .skip => x.completesQuietly id
    | some (.answer _) => x.answersQuietly id
    | _ => false
  | _ => true

variable {d : Digests} {x : Execution} {now : OffsetDateTime}

theorem wellFormed_completedAt (hx : x.WellFormed) (id : String) : (completedAt x id).WellFormed :=
  wellFormed_modifyStep hx id fun _ => rfl

theorem any_step_completedAt {id : String} {s : StepState} (hs : x.step id = some s) (t : String)
    (p : StateType → Bool) :
    ((completedAt x id).step t).any (fun s => p s.state.stateType) =
      if t = id then p .completed else (x.step t).any fun s => p s.state.stateType := by
  rw [step_completedAt]
  by_cases h : t = id
  · subst h
    rw [if_pos rfl, if_pos rfl, hs]
    rfl
  · rw [if_neg h, if_neg (Ne.symm h)]

theorem isReady_completedAt {id : String} {s : StepState} (hs : x.step id = some s) (t : String) :
    isReady (completedAt x id) t = x.waitsOnlyFor id t := by
  have hfresh := any_step_completedAt hs t (· == .scheduled)
  have hdone : ∀ p, ((completedAt x id).step p).any (·.state.stateType == .completed) =
      x.completedWith id p := by
    intro p
    rw [any_step_completedAt hs p (· == .completed), completedWith]
    by_cases h : p = id
    · simp [h]
    · rw [if_neg h, beq_false_of_ne h, Bool.false_or]
  rw [isReady, waitsOnlyFor, plan_completedAt, hfresh]
  simp only [hdone]
  by_cases h : t = id
  · subst h
    simp
  · rw [if_neg h, bne_iff_ne.mpr h, Bool.true_and]

theorem forall_dispatchMessages_iff (y : Execution) :
    (∀ m ∈ dispatchMessages d y now, m.reopens = false) ↔
      ¬ (y.dispatches = true ∧ ∃ t ∈ y.plan.ids, isReady y t = true) := by
  unfold dispatchMessages
  by_cases hd : y.dispatches = true
  · rw [if_pos hd]
    constructor
    · rintro hall ⟨-, t, ht, hready⟩
      obtain ⟨p, hp⟩ := ExecutionPlan.mem_ids_iff_step.mp ht
      have hmem := hall (.event (.stepScheduled t 1 p.runtime.kind (scheduledCacheKey d y p t)))
        (mem_flatMap.mpr ⟨t, mem_filter.mpr ⟨ht, hready⟩, by
          rw [scheduleMessages_of_step hp]
          exact mem_cons_self⟩)
      cases hmem
    · intro hno m hm
      obtain ⟨t, ht, -⟩ := mem_flatMap.mp hm
      exact absurd ⟨hd, t, (mem_filter.mp ht).1, (mem_filter.mp ht).2⟩ hno
  · rw [if_neg hd]
    exact ⟨fun _ h => hd h.1, fun _ m hm => absurd hm not_mem_nil⟩

theorem forall_followMessages_iff (hx : x.WellFormed) (hpaused : x.state.stateType ≠ .paused)
    {id : String} {s : StepState} (hs : x.step id = some s) :
    (∀ m ∈ followMessages d x id now, m.reopens = false) ↔ x.completesQuietly id = true := by
  have hready : (∃ t ∈ (completedAt x id).plan.ids, isReady (completedAt x id) t = true) ↔
      x.plan.ids.any (x.waitsOnlyFor id) = true := by
    simp only [any_eq_true, isReady_completedAt hs, plan_completedAt]
  have hend : ∀ p : StateType → Bool, p .completed = true →
      (BTreeMap.values (completedAt x id).steps).all (fun s => p s.state.stateType) =
        x.plan.ids.all fun t => t == id || (x.step t).any fun s => p s.state.stateType := by
    intro p hp
    rw [all_values_steps (wellFormed_completedAt hx id), plan_completedAt]
    congr 1
    funext t
    rw [any_step_completedAt hs]
    by_cases h : t = id <;> simp [h, hp]
  unfold followMessages
  rw [forall_mem_append, forall_dispatchMessages_iff, hready, completesQuietly]
  cases hc : x.cancelling with
  | true =>
    have hno : (completedAt x id).dispatches = false := by simp [dispatches, hc]
    have hall := hend (· != .running) rfl
    simp only [completionEnd, cancelling_completedAt, hc, if_true, hno, Bool.false_eq_true,
      false_and, not_false_eq_true, true_and]
    simp only [hall]
    constructor
    · intro hquiet
      split at hquiet
      · have := hquiet _ mem_cons_self
        cases this
      · rename_i hnot
        obtain ⟨t, ht, hrun⟩ := all_eq_false.mp (Bool.eq_false_iff.mpr hnot)
        refine any_eq_true.mpr ⟨t, ht, ?_⟩
        obtain ⟨s', hs'⟩ := Option.isSome_iff_exists.mp ((hx.planned t).mpr ht)
        simpa [hs'] using hrun
    · intro hany
      obtain ⟨t, ht, hrun⟩ := any_eq_true.mp hany
      rw [if_neg]
      · intro m hm
        cases hm
      · intro hall
        have := all_eq_true.mp hall t ht
        obtain ⟨s', hs'⟩ := Option.isSome_iff_exists.mp ((hx.planned t).mpr ht)
        simp_all
  | false =>
    have hd : (completedAt x id).dispatches = (x.mode == .compiled) := by
      simp [dispatches, completedAt, modifyStep, hc, hpaused]
    have hall := hend (· == .completed) rfl
    simp only [completionEnd, cancelling_completedAt, hc, Bool.false_eq_true, if_false, hd]
    simp only [hall]
    rw [Bool.and_eq_true, Bool.not_eq_true', Bool.not_eq_true', ← Bool.not_eq_true,
      Bool.and_eq_true]
    refine and_congr Iff.rfl ?_
    change _ ↔ (x.plan.ids.all fun t => t == id || _) = false
    constructor
    · intro hquiet
      split at hquiet
      · have := hquiet _ mem_cons_self
        cases this
      · rename_i hnot
        exact Bool.eq_false_iff.mpr hnot
    · intro hnot
      rw [if_neg (by simp [hnot])]
      intro m hm
      cases hm

theorem reopens_scheduleMessages (hx : x.WellFormed) {y : Execution} (hplan : y.plan = x.plan)
    {id : String} {s : StepState} (hs : x.step id = some s) (attempt : UInt32) :
    ∃ m ∈ scheduleMessages d y id attempt now, m.reopens = true := by
  obtain ⟨p, hp⟩ := mem_ids_of_step hx hs
  rw [scheduleMessages_of_step (hplan ▸ hp)]
  exact ⟨_, mem_cons_self, rfl⟩

theorem forall_answerMessages_iff (hx : x.WellFormed) (hpaused : x.state.stateType ≠ .paused)
    {id answeredBy : String} {s : StepState} {attempt : UInt32} {response : Value}
    (hs : x.step id = some s) :
    (∀ m ∈ answerMessages d x id attempt answeredBy response now, m.reopens = false) ↔
      x.answersQuietly id = true := by
  unfold answerMessages answersQuietly
  split
  · rw [forall_mem_cons, forall_followMessages_iff hx hpaused hs]
    exact ⟨fun h => h.2, fun h => ⟨rfl, h⟩⟩
  · split
    · rename_i hmode
      simp [hmode]
    · rename_i hmode
      obtain ⟨m, hm, hreopens⟩ := @reopens_scheduleMessages d x now hx
        (answeredAt x id attempt answeredBy response) rfl id s hs (attempt + 1)
      constructor
      · intro hquiet
        rw [hquiet m hm] at hreopens
        cases hreopens
      · intro h
        exact absurd h hmode

theorem forall_reopens_iff_of_ended (hx : x.WellFormed) {input : WorkflowMessage}
    {msgs : List WorkflowMessage} (h : Decided d x now input msgs) (hended : x.hasEnded = true)
    (hretry : input.isRetryStep = false) :
    (∀ m ∈ msgs, m.reopens = false) ↔ x.staysEnded input = true := by
  have hpaused : x.state.stateType ≠ .paused := by
    intro hp
    simp [hasEnded, hp] at hended
  have hterminal : x.state.stateType.isTerminal = true := by
    unfold hasEnded at hended
    split at hended <;> simp_all [StateType.isTerminal]
  cases h with
  | pausedAlready hp => exact absurd hp hpaused
  | paused hopen _ => rw [hterminal] at hopen; cases hopen
  | resumed hp => exact absurd hp hpaused
  | cancellingAlready hopen _ => rw [hterminal] at hopen; cases hopen
  | cancelled hopen _ => rw [hterminal] at hopen; cases hopen
  | retried _ _ _ => cases hretry
  | answered hs hanswers =>
    rw [forall_mem_cons, forall_answerMessages_iff hx hpaused hs]
    refine Iff.trans ⟨fun h => h.2, fun h => ⟨rfl, h⟩⟩ ?_
    cases hanswers with
    | provided _ _ _ => rfl
    | lapsed hopen hpolicy =>
      rw [staysEnded, openPolicy_of_step hs hopen, hpolicy]
  | started _ => simp [reopens, isDispatch,
      endsRun, staysEnded]
  | asked _ _ => simp [reopens, isDispatch,
      endsRun, staysEnded]
  | repeated hs hin hdone =>
    refine ⟨fun _ => ?_, fun _ m hm => absurd hm not_mem_nil⟩
    unfold completes? at hin
    split at hin
    · cases hin
      simp [staysEnded, hs, hdone]
    · cases hin
      simp [staysEnded, hs, hdone]
    · cases hin
  | finished hs hfin =>
    rename_i id s event
    have hquiet := @forall_followMessages_iff d x now hx hpaused id s hs
    rw [forall_mem_cons, hquiet]
    cases hfin with
    | completed hopen =>
      refine Iff.trans ⟨fun h => h.2, fun h => ⟨rfl, h⟩⟩ ?_
      simp [staysEnded, hs, hopen]
    | cacheHit hopen =>
      refine Iff.trans ⟨fun h => h.2, fun h => ⟨rfl, h⟩⟩ ?_
      simp [staysEnded, hs, hopen]
    | skipped hopen hpolicy =>
      refine Iff.trans ⟨fun h => h.2, fun h => ⟨rfl, h⟩⟩ ?_
      rw [staysEnded, openPolicy_of_step hs hopen, hpolicy]
  | failedRetrying _ _ _ _ =>
    refine ⟨fun hquiet => ?_, fun h => by cases h⟩
    have := hquiet _ (mem_cons_of_mem _ mem_cons_self)
    cases this
  | failed hs hfails =>
    rename_i id s attempt error
    have hstays : x.staysEnded input = false := by
      cases hfails with
      | reported _ _ _ => rfl
      | lapsed hopen hpolicy =>
        rw [staysEnded, openPolicy_of_step hs hopen, hpolicy]
    rw [hstays]
    refine ⟨fun hquiet => ?_, fun h => by cases h⟩
    have hend : reopens (.event (failureEnd x id error)) = true := by
      unfold failureEnd
      split <;> rfl
    rw [hquiet _ (mem_cons_of_mem _ (mem_append_right _ mem_cons_self))] at hend
    cases hend

/-- **The end of a run is final, but for late reports with consequences**: an ended
run neither dispatches nor ends again exactly when no failure reaches it, and no
completion or answer that something in the run was still waiting for. -/
theorem ended_run_is_final_iff (d : Digests) (is : List Delivery) :
    (∀ st ∈ (machine d).run .empty is, ∀ x, st.before = .active x → x.hasEnded = true →
        st.input.input.isRetryStep = false →
        ∀ m ∈ contents st.out, m.isDispatch = false ∧ m.endsRun = false) ↔
      ∀ st ∈ (machine d).run .empty is, ∀ x, st.before = .active x → x.hasEnded = true →
        st.input.input.isRetryStep = false → x.staysEnded st.input.input = true := by
  refine forall_congr' fun st => forall_congr' fun hst => forall_congr' fun x =>
    forall_congr' fun hx => forall_congr' fun hended => forall_congr' fun hretry => ?_
  obtain ⟨hwf, hdecided, -⟩ := decided_of_mem_run hst hx
  rw [← forall_reopens_iff_of_ended hwf hdecided hended hretry]
  simp only [WorkflowMessage.reopens, Bool.or_eq_false_iff]

/-- Two branches: the left one fails the run, then the right one completes. -/
def completionAfterFailure : List Delivery :=
  toldInOrder [startOf (planOf [workerStep "left", workerStep "right", workerStep "child"]
      [("right", "child")]),
    .event (.stepStarted "left" 1),
    .event (.stepStarted "right" 1),
    .event (.stepFailed "left" 1 ⟨.userCode, "boom"⟩),
    .event (.stepCompleted "right" 1 [] none)]

/-- The completion dispatches the right branch's child in a failed run. -/
theorem failed_run_dispatches_a_child :
    ∃ st ∈ (machine plainDigests).run .empty completionAfterFailure,
      ∃ x, st.before = .active x ∧ x.hasEnded = true ∧ st.input.input.isRetryStep = false ∧
        ∃ m ∈ contents st.out, m.isDispatch = true := by
  have hrun : ((machine plainDigests).run .empty completionAfterFailure).any (fun st =>
      st.before.isActive.any fun x => x.hasEnded && !st.input.input.isRetryStep &&
        (contents st.out).any (·.isDispatch)) = true := by
    decide +kernel
  obtain ⟨st, hst, x, hbefore, hall⟩ := exists_active_of_any hrun
  rw [Bool.and_eq_true, Bool.and_eq_true, List.any_eq_true, Bool.not_eq_true'] at hall
  exact ⟨st, hst, x, hbefore, hall.1.1, hall.1.2, hall.2⟩

end Aiwatcher.Engine
